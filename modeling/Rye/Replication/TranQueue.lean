import Mathlib.Data.List.Basic

/-!
# The queue between the analyzer and an applier

An applier has a ring of `CIRP_TRAN_Q_SIZE` items.  The analyzer pushes at `rear`, the applier
pops at `front`, and `boundary` stays behind `front` until what has been popped is committed,
so that the item the applier works on is not overwritten.
-/

namespace Rye.Replication

open List Function

def cirpTranQSize : Nat := 1024

structure QItem where
  trid : Int
  tranStartLsa : Nat
  committedLsa : Nat
  replStartLsa : Nat
deriving DecidableEq, Repr

structure TranQ where
  numItem : Int
  front : Nat
  rear : Nat
  boundary : Nat
  logItem : Nat -> QItem

namespace TranQ

/-- The queue after `cirp_clear_applier`, all of whose bytes are zero. -/
def empty : TranQ where
  numItem := 0
  front := 0
  rear := 0
  boundary := 0
  logItem _ := ⟨0, 0, 0, 0⟩

def isFull (q : TranQ) : Bool :=
  (q.rear + 1) % cirpTranQSize == q.boundary

def isEmpty (q : TranQ) : Bool :=
  q.rear == q.front

def isCommittedAndEmpty (q : TranQ) : Bool :=
  q.rear == q.boundary

def clearCommittedItem (q : TranQ) : TranQ :=
  { q with boundary := q.front }

/-- The queue with the item, or nothing when the queue is full. -/
def push (q : TranQ) (item : QItem) : Option TranQ :=
  if (q.rear + 1) % cirpTranQSize == q.boundary then none
  else
    some { q with
      rear := (q.rear + 1) % cirpTranQSize
      numItem := q.numItem + 1
      logItem := Function.update q.logItem q.rear item }

/-- The item at the front and the queue without it, or nothing when the queue is empty. -/
def pop (q : TranQ) : Option (QItem × TranQ) :=
  if q.front == q.rear then none
  else
    some (q.logItem q.front,
      { q with front := (q.front + 1) % cirpTranQSize, numItem := q.numItem - 1 })

/-!
## What the ring holds

From `boundary` on, the ring holds the items that have been popped and are not yet cleared,
and behind them, from `front` on, those that wait.
-/

/-- The items in the `count` slots from `start` on. -/
def segment (logItem : Nat -> QItem) (start count : Nat) : List QItem :=
  (List.range count).map fun k => logItem ((start + k) % cirpTranQSize)

variable (logItem : Nat -> QItem)

theorem segment_succ (start count : Nat) :
    segment logItem start (count + 1) = logItem (start % cirpTranQSize) ::
        segment logItem ((start + 1) % cirpTranQSize) count := by
  rw [segment, segment, range_succ_eq_map, map_cons, map_map, Nat.add_zero]
  congr 1
  apply map_congr_left
  intro k _
  have : (start + (k + 1)) % cirpTranQSize = ((start + 1) % cirpTranQSize + k) % cirpTranQSize := by
    rw [cirpTranQSize]
    omega
  simp only [comp_apply, Nat.succ_eq_add_one, this]

theorem segment_concat (start count : Nat) :
    segment logItem start (count + 1) =
      segment logItem start count ++ [logItem ((start + count) % cirpTranQSize)] := by
  rw [segment, segment, range_succ, map_append, map_singleton]

/-- Writing behind a segment that does not fill the ring leaves the segment as it is. -/
theorem segment_update (item : QItem) {start count : Nat} (hcount : count < cirpTranQSize) :
    segment (Function.update logItem ((start + count) % cirpTranQSize) item) start count =
      segment logItem start count := by
  apply map_congr_left
  intro k hk
  rw [mem_range] at hk
  apply update_of_ne
  rw [cirpTranQSize] at *
  omega

/-- The queue has `kept` popped items that are not cleared, and the items that wait. -/
structure Holds (q : TranQ) (kept : Nat) (waiting : List QItem) : Prop where
  boundary_lt : q.boundary < cirpTranQSize
  front_eq : q.front = (q.boundary + kept) % cirpTranQSize
  rear_eq : q.rear = (q.front + waiting.length) % cirpTranQSize
  room : kept + waiting.length < cirpTranQSize
  items : segment q.logItem q.front waiting.length = waiting

def waiting (q : TranQ) : List QItem :=
  segment q.logItem q.front ((q.rear + cirpTranQSize - q.front) % cirpTranQSize)

theorem holds_empty : empty.Holds 0 [] where
  boundary_lt := by decide
  front_eq := by decide
  rear_eq := by decide
  room := by decide
  items := rfl

variable {q : TranQ} {kept : Nat} {waiting : List QItem}

section

variable (h : q.Holds kept waiting)
include h

theorem Holds.waiting_eq : q.waiting = waiting := by
  obtain ⟨hlt, hfront, hrear, hroom, hitems⟩ := h
  have hcount : (q.rear + cirpTranQSize - q.front) % cirpTranQSize = waiting.length := by
    rw [cirpTranQSize] at *
    omega
  rw [TranQ.waiting, hcount, hitems]

theorem Holds.isFull_iff : q.isFull = true <-> kept + waiting.length + 1 = cirpTranQSize := by
  obtain ⟨hlt, hfront, hrear, hroom, _⟩ := h
  rw [isFull, beq_iff_eq]
  rw [cirpTranQSize] at *
  omega

theorem Holds.isEmpty_iff : q.isEmpty = true <-> waiting = [] := by
  obtain ⟨hlt, hfront, hrear, hroom, _⟩ := h
  rw [isEmpty, beq_iff_eq, ← length_eq_zero_iff]
  rw [cirpTranQSize] at *
  omega

theorem Holds.isCommittedAndEmpty_iff :
    q.isCommittedAndEmpty = true <-> kept = 0 ∧ waiting = [] := by
  obtain ⟨hlt, hfront, hrear, hroom, _⟩ := h
  rw [isCommittedAndEmpty, beq_iff_eq, ← length_eq_zero_iff]
  rw [cirpTranQSize] at *
  omega

theorem Holds.clear : q.clearCommittedItem.Holds 0 waiting where
  boundary_lt := by
    change q.front < cirpTranQSize
    rw [h.front_eq]
    exact Nat.mod_lt _ (by decide)
  front_eq := by
    change q.front = (q.front + 0) % cirpTranQSize
    rw [h.front_eq, Nat.add_zero, Nat.mod_mod]
  rear_eq := h.rear_eq
  room := by
    have := h.room
    omega
  items := h.items

theorem Holds.push (item : QItem) (hfull : q.isFull = false) :
    exists q', q.push item = some q' ∧ q'.Holds kept (waiting ++ [item]) := by
  have hroom : kept + waiting.length + 1 < cirpTranQSize := by
    have hne : ¬ kept + waiting.length + 1 = cirpTranQSize := by
      rw [← h.isFull_iff, hfull]
      exact Bool.false_ne_true
    have := h.room
    omega
  rw [isFull] at hfull
  refine ⟨_, by rw [TranQ.push, hfull, if_neg Bool.false_ne_true], ?_⟩
  constructor
  · exact h.boundary_lt
  · exact h.front_eq
  · rw [h.rear_eq, length_append, length_singleton, Nat.mod_add_mod, Nat.add_assoc]
  · rw [length_append, length_singleton]
    omega
  · change segment (Function.update q.logItem q.rear item) q.front (waiting ++ [item]).length = _
    rw [length_append, length_singleton, segment_concat, h.rear_eq,
      segment_update _ _ (by omega), h.items, update_self]

end

theorem Holds.pop {item : QItem} (h : q.Holds kept (item :: waiting)) :
    exists q', q.pop = some (item, q') ∧ q'.Holds (kept + 1) waiting := by
  have hne : (q.front == q.rear) = false := by
    have hempty := h.isEmpty_iff
    rw [isEmpty, beq_iff_eq] at hempty
    rw [beq_eq_false_iff_ne]
    intro heq
    exact cons_ne_nil _ _ (hempty.mp heq.symm)
  have hfrontlt : q.front < cirpTranQSize := by
    rw [h.front_eq]
    exact Nat.mod_lt _ (by decide)
  have hitems := h.items
  rw [length_cons, segment_succ, Nat.mod_eq_of_lt hfrontlt, List.cons.injEq] at hitems
  have hroom := h.room
  rw [length_cons] at hroom
  refine ⟨_, by rw [TranQ.pop, hne, if_neg Bool.false_ne_true, hitems.1], ?_⟩
  constructor
  · exact h.boundary_lt
  · rw [h.front_eq, Nat.mod_add_mod, Nat.add_assoc]
  · rw [h.rear_eq, length_cons, Nat.mod_add_mod, Nat.add_assoc, Nat.add_comm 1]
  · omega
  · exact hitems.2

end TranQ

end Rye.Replication
