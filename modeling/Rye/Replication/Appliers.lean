import Rye.Replication.Agents

/-!
# One applier and its queue

What is pending for an applier is the item it has popped, the items in its queue, and the item
the analyzer is about to push.  Everything read so far that is assigned to the applier is either
pending or at most its stored `committed_lsa`, and the pending items stand in commit order.
-/

namespace Rye.Replication

open List Applier MasterLog RecType

/-!
## Reading a transaction
-/

/-- What the slave is to receive of a committed transaction. -/
def MasterLog.application (log : MasterLog) (q : QItem) : Applied :=
  ⟨q.trid, log.rows q.trid, q.committedLsa⟩

section

variable {log : MasterLog}

theorem drop_eq_cons {lsa : Nat} {r : LogRecord} (h : log.get lsa = some r) :
    log.records.drop (lsa - 1) = r :: log.records.drop lsa := by
  cases lsa with
  | zero => cases h
  | succ i =>
    obtain ⟨hlt, hget⟩ := List.getElem?_eq_some_iff.mp h
    rw [Nat.add_sub_cancel, drop_eq_getElem_cons hlt, hget]

theorem exists_get {lsa c : Nat} {r : LogRecord} (hpos : 0 < lsa) (hle : lsa <= c)
    (h : log.get c = some r) : exists r', log.get lsa = some r' := by
  have hc := lt_of_get h
  obtain ⟨i, rfl⟩ := Nat.exists_eq_add_of_lt hpos
  rw [Nat.zero_add] at *
  exact ⟨_, getElem?_eq_getElem (show i < log.records.length by omega)⟩

theorem range'_split {a b c : Nat} (hab : a <= b) (hbc : b <= c) :
    List.range' a (b - a) ++ List.range' b (c - b) = List.range' a (c - a) := by
  have happend : List.range' a (b - a) ++ List.range' (a + (b - a)) (c - b) =
      List.range' a (b - a + (c - b)) := List.range'_append_1
  rw [show a + (b - a) = b by omega, show b - a + (c - b) = c - a by omega] at happend
  exact happend

theorem readTran_eq {trid : Int} {c : Nat} (hcommit : log.has trid isCommit c = true)
    (k : Nat) : forall lsa, 0 < lsa -> lsa + k = c ->
      (forall l, lsa <= l -> l < c -> log.has trid isCommit l = false) ->
      readTran trid (log.records.drop (lsa - 1)) lsa =
        some ((List.range' lsa k).filter (log.has trid isReplication), c) := by
  obtain ⟨rc, hrc, htridc, htypec⟩ := has_iff.mp hcommit
  induction k with
  | zero =>
    intro lsa _ hlsa _
    rw [Nat.add_zero] at hlsa
    subst hlsa
    have hrepl : rc.type.isReplication = false := by
      cases hkind : rc.type <;> simp [hkind, isCommit, isReplication] at htypec ⊢
    rw [drop_eq_cons hrc, readTran, if_neg (not_not.mpr htridc), hrepl,
      if_neg Bool.false_ne_true, if_pos htypec]
    rfl
  | succ k ih =>
    intro lsa hpos hlsa hno
    obtain ⟨r, hr⟩ := exists_get hpos (by omega) hrc
    have ih := ih (lsa + 1) (by omega) (by omega) (fun l hl hlc => hno l (by omega) hlc)
    rw [Nat.add_sub_cancel] at ih
    have hhas : log.has trid isReplication lsa = (r.trid == trid && r.type.isReplication) := by
      rw [has, hr]
      rfl
    have hnocommit := hno lsa (Nat.le_refl _) (by omega)
    rw [has, hr] at hnocommit
    rw [drop_eq_cons hr, readTran, List.range'_succ, filter_cons, hhas, ih]
    by_cases htrid : r.trid = trid
    · have hbeq : (r.trid == trid) = true := beq_iff_eq.mpr htrid
      have hnot : r.type.isCommit = false := by
        simpa [Option.any, hbeq] using hnocommit
      rw [if_neg (not_not.mpr htrid), hbeq, Bool.true_and, hnot]
      cases hkind : r.type.isReplication <;> simp
    · have hbeq : (r.trid == trid) = false := beq_eq_false_iff_ne.mpr htrid
      rw [if_pos htrid, hbeq, Bool.false_and, if_neg Bool.false_ne_true]

theorem applierRead_eq {q : QItem} (h : log.Committed q) :
    applierRead log q = some (log.rows q.trid, q.committedLsa) := by
  have hrepl := h.repl
  have hlt := h.repl_lt
  have hc := (has_lt h.commit).2
  have hpos := (has_lt hrepl.1).1
  rw [applierRead, readTran_eq h.commit (q.committedLsa - q.replStartLsa) _ hpos (by omega)]
  · -- No replication record stands before the first one, and none behind the commit.
    have hsplit : List.range (log.records.length + 1) =
        List.range' 0 (q.replStartLsa - 0) ++
          (List.range' q.replStartLsa (q.committedLsa - q.replStartLsa) ++
            List.range' q.committedLsa (log.records.length + 1 - q.committedLsa)) := by
      rw [range'_split hlt.le hc.le, range'_split (Nat.zero_le _) (by omega),
        range_eq_range', Nat.sub_zero]
    have hbefore : (List.range' 0 (q.replStartLsa - 0)).filter
        (log.has q.trid isReplication) = [] := by
      rw [filter_eq_nil_iff]
      intro l hl
      rw [mem_range'_1] at hl
      rw [hrepl.2 l (by omega)]
      exact Bool.false_ne_true
    have hafter : (List.range' q.committedLsa (log.records.length + 1 - q.committedLsa)).filter
        (log.has q.trid isReplication) = [] := by
      rw [filter_eq_nil_iff]
      intro l hl hhas
      rw [mem_range'_1] at hl
      have hlt := h.lt_of_repl hhas
      omega
    rw [rows, hsplit, filter_append, filter_append, hbefore, hafter, nil_append, append_nil]
  · intro l _ hl
    rw [Bool.eq_false_iff]
    intro hhas
    have := h.end_eq isEnd_of_isCommit hhas
    omega

end

/-!
## What is pending
-/

def ApplierTask.kept : ApplierTask -> Nat
  | .idle => 0
  | _ => 1

def ApplierTask.held : ApplierTask -> List QItem
  | .popped item | .applying item => [item]
  | _ => []

/-- The item that the analyzer is about to push to applier `i`. -/
def AnalyzerTask.held (i : Nat) : AnalyzerTask -> List QItem
  | .draining item laIndex | .pushing item laIndex _ => if laIndex = i then [item] else []
  | _ => []

def Applier.pending (applier : Applier) (own : List QItem) : List QItem :=
  applier.task.held ++ applier.logq.waiting ++ own

/-- How the applier's copy of `committed_lsa` and the stored one agree. -/
def ApplierTask.Synced (committedLsa stored : Nat) : ApplierTask -> Prop
  | .flushed commitLsa => committedLsa <= commitLsa ∧ stored = commitLsa
  | .applying item => committedLsa = stored ∧ stored < item.committedLsa
  | _ => committedLsa = stored

/-- Applier `i` with `stored` as its `committed_lsa` on the slave, when the log has been read up
to `final` and the analyzer holds `own` for it. -/
structure Served (cfg : Config) (log : MasterLog) (i : Nat) (applier : Applier)
    (stored final : Nat) (own : List QItem) : Prop where
  holds : applier.logq.Holds applier.task.kept applier.logq.waiting
  genuine : forall q, q ∈ applier.pending own ->
    log.Committed q ∧ log.applierOf cfg q = i ∧ q.committedLsa < final
  sorted : (applier.pending own).Pairwise fun q q' => q.committedLsa < q'.committedLsa
  complete : forall q, log.Committed q -> log.applierOf cfg q = i -> q.committedLsa < final ->
    q.committedLsa <= stored ∨ q ∈ applier.pending own
  synced : applier.task.Synced applier.committedLsa stored
  last : stored = 0 ∨ exists q, log.Committed q ∧ log.applierOf cfg q = i ∧ q.committedLsa = stored

section

variable {cfg : Config} {log : MasterLog} {i : Nat} {applier : Applier} {stored final : Nat}
  {own : List QItem} {item : QItem}

theorem served_start
    (hstored : stored = 0 ∨
      exists q, log.Committed q ∧ log.applierOf cfg q = i ∧ q.committedLsa = stored)
    (hfinal : forall q, log.Committed q -> log.applierOf cfg q = i -> q.committedLsa < final ->
      q.committedLsa <= stored) :
    Served cfg log i ⟨TranQ.empty, stored, .idle⟩ stored final [] where
  holds := TranQ.holds_empty.waiting_eq.symm ▸ TranQ.holds_empty
  genuine q hq := by
    rw [pending, TranQ.holds_empty.waiting_eq] at hq
    cases hq
  sorted := by
    rw [pending, TranQ.holds_empty.waiting_eq]
    exact List.Pairwise.nil
  complete q hq hi hlt := .inl (hfinal q hq hi hlt)
  synced := rfl
  last := hstored

section

variable (h : Served cfg log i applier stored final own)
include h

/-- The applier's copy of `committed_lsa` is not ahead of the stored one. -/
theorem Served.committedLsa_le : applier.committedLsa <= stored := by
  have hsynced := h.synced
  cases htask : applier.task with
  | flushed commitLsa =>
    rw [htask] at hsynced
    exact hsynced.2 ▸ hsynced.1
  | applying item =>
    rw [htask] at hsynced
    exact hsynced.1.le
  | idle | popped item | published =>
    rw [htask] at hsynced
    exact Nat.le_of_eq hsynced

/-!
The steps of the applier itself change what is pending in three ways only: it stays as it is, or
the first item is dropped because it has been applied before, or the first item has been applied.
-/

theorem Served.drop {applier' : Applier} {stored' : Nat} {own' : List QItem} (dropped : List QItem)
    (hpending : applier.pending own = dropped ++ applier'.pending own')
    (hdropped : forall q, q ∈ dropped -> q.committedLsa <= stored') (hle : stored <= stored')
    (hholds : applier'.logq.Holds applier'.task.kept applier'.logq.waiting)
    (hsynced : applier'.task.Synced applier'.committedLsa stored')
    (hlast : stored' = 0 ∨
      exists q, log.Committed q ∧ log.applierOf cfg q = i ∧ q.committedLsa = stored') :
    Served cfg log i applier' stored' final own' where
  holds := hholds
  genuine q hq := h.genuine q (hpending ▸ mem_append_right _ hq)
  sorted := (pairwise_append.mp (hpending ▸ h.sorted)).2.1
  complete q hq hi hlt := by
    rcases h.complete q hq hi hlt with hdone | hmem
    · exact .inl (Nat.le_trans hdone hle)
    · rw [hpending, mem_append] at hmem
      exact hmem.imp_left (hdropped q)
  synced := hsynced
  last := hlast

theorem Served.keep {own' : List QItem} (applier' : Applier)
    (hholds : applier'.logq.Holds applier'.task.kept applier'.logq.waiting)
    (hpending : applier'.pending own' = applier.pending own)
    (hsynced : applier'.task.Synced applier'.committedLsa stored) :
    Served cfg log i applier' stored final own' :=
  h.drop [] hpending.symm (fun _ hq => by cases hq) (Nat.le_refl _) hholds hsynced h.last

theorem Served.pop (hidle : applier.task = .idle) (hne : applier.logq.isEmpty = false) :
    exists item logq, applier.logq.pop = some (item, logq) ∧
      applier.logq.waiting = item :: logq.waiting ∧
      Served cfg log i { applier with logq := logq, task := .popped item } stored final own := by
  have hholds := h.holds
  rw [hidle] at hholds
  cases hwaiting : applier.logq.waiting with
  | nil =>
    rw [hwaiting] at hholds
    rw [hholds.isEmpty_iff.mpr rfl] at hne
    cases hne
  | cons item rest =>
    rw [hwaiting] at hholds
    obtain ⟨logq, hpop, hlogq⟩ := hholds.pop
    have hrest := hlogq.waiting_eq
    refine ⟨item, logq, hpop, ?_, ?_⟩
    · rw [hrest]
    apply h.keep
    · rw [hrest]
      exact hlogq
    · rw [pending, pending, hidle, hwaiting, hrest]
      rfl
    · have hsynced := h.synced
      rw [hidle] at hsynced
      exact hsynced

theorem Served.skip (htask : applier.task = .popped item)
    (hle : item.committedLsa <= applier.committedLsa) :
    Served cfg log i { applier with logq := applier.logq.clearCommittedItem, task := .idle }
      stored final own := by
  have hholds := h.holds.clear
  have hwaiting := hholds.waiting_eq
  have hsynced : applier.committedLsa = stored := by
    have := h.synced
    rw [htask] at this
    exact this
  refine h.drop [item] ?_ ?_ (Nat.le_refl _) ?_ hsynced h.last
  · rw [pending, pending, htask, hwaiting]
    rfl
  · intro q hq
    rw [mem_singleton.mp hq]
    exact hsynced ▸ hle
  · rw [hwaiting]
    exact hholds

theorem Served.begin (htask : applier.task = .popped item)
    (hlt : applier.committedLsa < item.committedLsa) :
    Served cfg log i { applier with task := .applying item } stored final own := by
  have hholds := h.holds
  rw [htask] at hholds
  have hsynced := h.synced
  rw [htask] at hsynced
  apply h.keep
  · exact hholds
  · rw [pending, pending, htask]
    rfl
  · exact ⟨hsynced, hsynced ▸ hlt⟩

/-- While an item is applied, it is the first that is pending and everything before it has been
applied. -/
theorem Served.applying (htask : applier.task = .applying item) :
    log.Committed item ∧ log.applierOf cfg item = i ∧ item.committedLsa < final ∧
      stored < item.committedLsa ∧
      forall q, log.Committed q -> log.applierOf cfg q = i ->
        q.committedLsa < item.committedLsa -> q.committedLsa <= stored := by
  have hpending : applier.pending own = item :: (applier.logq.waiting ++ own) := by
    rw [pending, htask]
    rfl
  have hitem := h.genuine item (hpending ▸ mem_cons_self)
  have hsynced := h.synced
  rw [htask] at hsynced
  refine ⟨hitem.1, hitem.2.1, hitem.2.2, hsynced.2, ?_⟩
  intro q hq hi hlt
  rcases h.complete q hq hi (by omega) with hdone | hmem
  · exact hdone
  rw [hpending, mem_cons] at hmem
  rcases hmem with rfl | hmem
  · omega
  · have := (pairwise_cons.mp (hpending ▸ h.sorted)).1 q hmem
    omega

theorem Served.flush (htask : applier.task = .applying item) :
    Served cfg log i { applier with task := .flushed item.committedLsa } item.committedLsa final
      own := by
  obtain ⟨hcommitted, hi, _, hlt, _⟩ := h.applying htask
  have hholds := h.holds
  rw [htask] at hholds
  have hsynced := h.synced
  rw [htask] at hsynced
  refine h.drop [item] ?_ ?_ hlt.le hholds ⟨hsynced.1 ▸ hlt.le, rfl⟩
    (.inr ⟨item, hcommitted, hi, rfl⟩)
  · rw [pending, pending, htask]
    rfl
  · intro q hq
    rw [mem_singleton.mp hq]

theorem Served.publish {commitLsa : Nat} (htask : applier.task = .flushed commitLsa) :
    Served cfg log i { applier with committedLsa := commitLsa, task := .published }
      stored final own := by
  have hholds := h.holds
  rw [htask] at hholds
  have hsynced := h.synced
  rw [htask] at hsynced
  apply h.keep
  · exact hholds
  · rw [pending, pending, htask]
    rfl
  · exact hsynced.2.symm

theorem Served.clear (htask : applier.task = .published ∨ applier.task = .idle) :
    Served cfg log i { applier with logq := applier.logq.clearCommittedItem, task := .idle }
      stored final own := by
  have hholds := h.holds.clear
  have hwaiting := hholds.waiting_eq
  have hsynced := h.synced
  apply h.keep
  · rw [hwaiting]
    exact hholds
  · rw [pending, pending, hwaiting]
    rcases htask with htask | htask
    · rw [htask]
      rfl
    · rw [htask]
  · rcases htask with htask | htask
    · rw [htask] at hsynced
      exact hsynced
    · rw [htask] at hsynced
      exact hsynced

/-!
The analyzer reads on, comes to an item for the applier, or pushes it.
-/

theorem Served.read
    (hdone : forall q, log.Committed q -> log.applierOf cfg q = i -> q.committedLsa = final ->
      q.committedLsa <= stored) :
    Served cfg log i applier stored (final + 1) own where
  holds := h.holds
  genuine q hq := by
    obtain ⟨hcommitted, hi, hlt⟩ := h.genuine q hq
    exact ⟨hcommitted, hi, by omega⟩
  sorted := h.sorted
  complete q hq hi hlt := by
    rcases Nat.lt_succ_iff_lt_or_eq.mp hlt with hlt | heq
    · exact h.complete q hq hi hlt
    · exact .inl (hdone q hq hi heq)
  synced := h.synced
  last := h.last

end

theorem Served.come (h : Served cfg log i applier stored final []) (hitem : log.Committed item)
    (hi : log.applierOf cfg item = i) (hfinal : item.committedLsa = final) :
    Served cfg log i applier stored (final + 1) [item] := by
  have hpending : applier.pending [item] = applier.pending [] ++ [item] := by
    rw [pending, pending, append_nil]
  constructor
  · exact h.holds
  · intro q hq
    rw [hpending, mem_append, mem_singleton] at hq
    rcases hq with hq | rfl
    · obtain ⟨hcommitted, hqi, hlt⟩ := h.genuine q hq
      exact ⟨hcommitted, hqi, by omega⟩
    · exact ⟨hitem, hi, by omega⟩
  · rw [hpending, pairwise_append]
    refine ⟨h.sorted, pairwise_singleton _ _, ?_⟩
    intro q hq q' hq'
    rw [mem_singleton] at hq'
    have := (h.genuine q hq).2.2
    rw [hq', hfinal]
    exact this
  · intro q hq hqi hlt
    rw [hpending, mem_append, mem_singleton]
    rcases Nat.lt_succ_iff_lt_or_eq.mp hlt with hlt | heq
    · rcases h.complete q hq hqi hlt with hdone | hmem
      · exact .inl hdone
      · exact .inr (.inl hmem)
    · exact .inr (.inr (hq.eq_of_committedLsa hitem (heq.trans hfinal.symm)))
  · exact h.synced
  · exact h.last

theorem Served.push (h : Served cfg log i applier stored final [item])
    (hfull : applier.logq.isFull = false) :
    exists logq, applier.logq.push item = some logq ∧
      logq.waiting = applier.logq.waiting ++ [item] ∧
      Served cfg log i { applier with logq := logq } stored final [] := by
  obtain ⟨logq, hpush, hholds⟩ := h.holds.push item hfull
  have hwaiting := hholds.waiting_eq
  refine ⟨logq, hpush, hwaiting, h.keep _ ?_ ?_ h.synced⟩
  · rw [hwaiting]
    exact hholds
  · rw [pending, pending, hwaiting, append_nil, append_assoc]

end

end Rye.Replication
