import Mathlib.Data.List.Forall2
import Rye.Foundation.Runs
import Rye.Transaction.Log.SystemOps

/-!
# Rolling back to savepoints

One transaction changes pages, declares savepoints, opens and ends system
operations and rolls back to savepoints, while other transactions append to
the same log.  Next to the log runs a ledger of the changes that are still to
be undone should the transaction abort: those that were not undone and do not
lie in a committed system operation.
-/

namespace Rye.Transaction.Log.Savepoints

open List

inductive Label where
  | change
  | savepoint (name : SavepointName)
  | startSystemOp
  | endSystemOp (result : TopopResult)
  | abortPartial (name : SavepointName)
  | abort
  /-- A record of another transaction. -/
  | other (rec : LogRecord)
deriving DecidableEq, Repr

def run (s : LogState) : Label -> LogState
  | .change => logAppendUndoredoData s
  | .savepoint name => logAppendSavepoint s name
  | .startSystemOp => logStartSystemOp s
  | .endSystemOp result => logEndSystemOp s result
  | .abortPartial name => logAbortPartial s name
  | .abort => logAbort s
  | .other rec => { s with log := s.log ++ [rec] }

/-!
## The ledger

Positions in the log serve as times: what a system operation contains was
logged after the end of the log at its start, and what a savepoint rolls back
was logged after the savepoint.
-/

structure Ledger where
  /-- The changes still to be undone on abort, the newest first. -/
  owed : List Nat
  /-- The end of the log when each open system operation started, the innermost first. -/
  ops : List Nat
  /-- The live savepoints, the latest first. -/
  saves : List (SavepointName × Nat)
deriving DecidableEq, Repr

namespace Ledger

def find (ledger : Ledger) (name : SavepointName) : Option Nat :=
  (ledger.saves.find? (fun save => decide (save.1 = name))).map Prod.snd

def after (ledger : Ledger) (lsa : Nat) : List Nat :=
  ledger.owed.filter (fun change => decide (lsa < change))

def upTo (ledger : Ledger) (lsa : Nat) : List Nat :=
  ledger.owed.filter (fun change => decide (change <= lsa))

/-- The changes that a step has to undo, in this order. -/
def undone (ledger : Ledger) : Label -> List Nat
  | .endSystemOp .abort => (ledger.ops.head?.map ledger.after).getD []
  | .abortPartial name => ((ledger.find name).map ledger.after).getD []
  | .abort => ledger.owed
  | _ => []

/-- The ledger after a step that begins at the given end of the log. -/
def next (ledger : Ledger) (now : Nat) : Label -> Ledger
  | .change => { ledger with owed := (now + 1) :: ledger.owed }
  | .savepoint name => { ledger with saves := (name, now + 1) :: ledger.saves }
  | .startSystemOp => { ledger with ops := now :: ledger.ops }
  | .endSystemOp .attachToOuter => { ledger with ops := ledger.ops.tail }
  | .endSystemOp _ =>
    { ledger with
      owed := (ledger.ops.head?.map ledger.upTo).getD ledger.owed
      ops := ledger.ops.tail }
  | .abortPartial name =>
    match ledger.find name with
    | none => ledger
    | some lsa =>
      { owed := ledger.upTo lsa
        ops := []
        saves := ledger.saves.filter (fun save => decide (save.2 <= lsa)) }
  | .abort => { ledger with owed := [], ops := [] }
  | .other _ => ledger

end Ledger

structure State where
  code : LogState
  ledger : Ledger
deriving DecidableEq, Repr

def State.start (log : List LogRecord) (trid : Nat) : State :=
  { code := { log := log, tdes := LogTdes.start trid }
    ledger := { owed := [], ops := [], saves := [] } }

def State.next (s : State) (a : Label) : State :=
  { code := run s.code a, ledger := s.ledger.next s.code.log.length a }

/-- The transaction steps while it is active; the others append at any time. -/
def enabled (s : State) : Label -> Bool
  | .other rec => decide (rec.trid ≠ s.code.tdes.trid)
  | _ => decide (s.code.tdes.state = .active)

/-- The runs of a transaction from an arbitrary log on. -/
def system (log : List LogRecord) (trid : Nat) : Foundation.System State Label :=
  .deterministic (State.start log trid) (fun s a => enabled s a = true) State.next

/-- The changes that the records appended by a step compensate. -/
def undoneBy (s : State) (a : Label) : List Nat :=
  compensated ((run s.code a).log.drop s.code.log.length)

/--
A name finds its latest live savepoint, and every step of the transaction
undoes the changes that the ledger names, newest first and each once.
-/
structure Exact (s : State) : Prop where
  decreasing : s.ledger.owed.Pairwise (fun x y => y < x)
  find : forall name, logGetSavepointLsa s.code name = (s.ledger.find name).getD 0
  undone : forall a, s.code.tdes.state = .active -> (forall rec, a ≠ .other rec) ->
    undoneBy s a = s.ledger.undone a

/-- No system operation is committed or aborted while a savepoint declared in it is live. -/
def savepointsOutside (s : State) : Label -> Bool
  | .endSystemOp .attachToOuter => true
  | .endSystemOp _ =>
    s.code.tdes.topops.head?.all fun top => decide (s.code.tdes.saveptLsa <= top.lastparentLsa)
  | _ => true

/-!
## Places to roll back to

An address is a place to roll back to when the chain from it meets exactly the
changes of the ledger up to it.
-/

def Return (log : List LogRecord) (owed : List Nat) (lsa : Nat) : Prop :=
  UndoPath log lsa (owed.filter (fun change => decide (change <= lsa))) 0

theorem filter_le_filter_le (owed : List Nat) {p q : Nat} (h : p <= q) :
    (owed.filter (fun change => decide (change <= q))).filter
        (fun change => decide (change <= p)) =
      owed.filter (fun change => decide (change <= p)) := by
  rw [filter_filter]
  apply filter_congr
  intro x _
  by_cases hx : x <= p
  · have : x <= q := by omega
    simp [hx, this]
  · simp [hx]

namespace Return

variable {log : List LogRecord} {owed : List Nat} {lsa : Nat}

section

variable (h : Return log owed lsa)
include h

theorem append (more : List LogRecord) : Return (log ++ more) owed lsa :=
  h.mono more

theorem cons {change : Nat} (hlt : lsa < change) : Return log (change :: owed) lsa := by
  unfold Return
  rw [filter_cons_of_neg (by simpa using hlt)]
  exact h

theorem cut {upto : Nat} (hle : lsa <= upto) :
    Return log (owed.filter (fun change => decide (change <= upto))) lsa := by
  unfold Return
  rw [filter_le_filter_le owed hle]
  exact h

end

theorem of_path (h : UndoPath log lsa owed 0) : Return log owed lsa := by
  unfold Return
  rw [filter_eq_self.mpr]
  · exact h
  · intro x hx
    exact decide_eq_true (h.mem_bounds hx).2

theorem path_next (h : Return log owed lsa) {rec : LogRecord}
    (hundoes : rec.data.undoes = false) (hlink : rec.undoLink = lsa)
    (hlen : lsa <= log.length) :
    UndoPath (log ++ [rec]) (log.length + 1)
      (owed.filter (fun change => decide (change <= lsa))) 0 := by
  refine .pass (recordAt_next log rec) hundoes (by omega) ?_
  rw [hlink]
  exact h.mono _

end Return

/-!
## The invariant
-/

/-- A system operation that the ledger dates `now`. -/
structure Opened (log : List LogRecord) (owed : List Nat) (top : Topop) (now : Nat) : Prop where
  noPostpone : top.pospLsa = 0
  before : top.lastparentLsa <= now
  past : now <= log.length
  /-- No change lies between the last record before the operation and its start. -/
  gap : forall change, change ∈ owed -> change <= now -> change <= top.lastparentLsa
  back : Return log owed top.lastparentLsa

/-- The savepoint records from an address back are those of the list. -/
inductive SaveChain (log : List LogRecord) : Nat -> List (SavepointName × Nat) -> Prop where
  | nil : SaveChain log 0 []
  | cons {rec : LogRecord} {lsa prv : Nat} {name : SavepointName}
      {saves : List (SavepointName × Nat)} :
      recordAt log lsa = some rec -> rec.data = .savepoint name prv -> prv < lsa ->
      SaveChain log prv saves -> SaveChain log lsa ((name, lsa) :: saves)

structure Inv (s : State) : Prop where
  active : s.code.tdes.state = .active
  last : s.code.tdes.lastLsa <= s.code.log.length
  undo : s.code.tdes.undoNxlsa = s.code.tdes.lastLsa
  noPostpone : s.code.tdes.pospNxlsa = 0
  path : UndoPath s.code.log s.code.tdes.lastLsa s.ledger.owed 0
  physical : Physical s.code.log s.ledger.owed
  opened : Forall₂ (Opened s.code.log s.ledger.owed) s.code.tdes.topops s.ledger.ops
  nested : (s.code.tdes.lastLsa :: s.code.tdes.topops.map Topop.lastparentLsa).Pairwise
    (fun outer inner => inner <= outer)
  saved : SaveChain s.code.log s.code.tdes.saveptLsa s.ledger.saves
  saves : forall save, save ∈ s.ledger.saves ->
    save.2 <= s.code.tdes.lastLsa ∧ Return s.code.log s.ledger.owed save.2

namespace Opened

variable {log : List LogRecord} {owed : List Nat} {top : Topop} {now : Nat}

section

variable (h : Opened log owed top now)
include h

theorem append (more : List LogRecord) : Opened (log ++ more) owed top now := by
  refine { h with past := ?_, back := h.back.append more }
  exact Nat.le_trans h.past (by simp)

theorem cons {change : Nat} (hlt : now < change) : Opened log (change :: owed) top now := by
  refine { h with gap := ?_, back := h.back.cons (Nat.lt_of_le_of_lt h.before hlt) }
  intro x hx hle
  cases hx with
  | head => omega
  | tail _ hx => exact h.gap x hx hle

theorem cut {upto : Nat} (hle : top.lastparentLsa <= upto) :
    Opened log (owed.filter (fun change => decide (change <= upto))) top now :=
  { h with gap := fun x hx => h.gap x (mem_filter.mp hx).1, back := h.back.cut hle }

end

theorem cut_all {tops : List Topop} {ops : List Nat} {upto : Nat}
    (h : Forall₂ (Opened log owed) tops ops)
    (hle : forall top, top ∈ tops -> top.lastparentLsa <= upto) :
    Forall₂ (Opened log (owed.filter (fun change => decide (change <= upto)))) tops ops := by
  induction h with
  | nil => exact .nil
  | cons hopened _ ih =>
    refine .cons (hopened.cut (hle _ mem_cons_self)) (ih ?_)
    intro top hmem
    exact hle top (mem_cons_of_mem _ hmem)

end Opened

namespace SaveChain

variable {log : List LogRecord} {lsa : Nat} {saves : List (SavepointName × Nat)}

section

variable (h : SaveChain log lsa saves)
include h

theorem append (more : List LogRecord) : SaveChain (log ++ more) lsa saves := by
  induction h with
  | nil => exact .nil
  | cons hrec hdata hprv _ ih => exact .cons (recordAt_append hrec) hdata hprv ih

theorem le_length : lsa <= log.length := by
  cases h with
  | nil => exact Nat.zero_le _
  | cons hrec _ _ _ => exact (recordAt_bounds hrec).2

variable {save : SavepointName × Nat}

theorem mem_le (hmem : save ∈ saves) : 0 < save.2 ∧ save.2 <= lsa := by
  induction h with
  | nil => cases hmem
  | cons hrec _ hprv _ ih =>
    cases hmem with
    | head => exact ⟨(recordAt_bounds hrec).1, Nat.le_refl _⟩
    | tail _ hmem =>
      have hle := ih hmem
      omega

theorem savepointLoop_eq (name : SavepointName) {turns : Nat} (hturns : lsa <= turns) :
    savepointLoop log name turns lsa =
      ((saves.find? (fun save => decide (save.1 = name))).map Prod.snd).getD 0 := by
  induction h generalizing turns with
  | nil => cases turns <;> rfl
  | cons hrec hdata hprv _ ih =>
    rename_i rec lsa prv found rest _
    cases turns with
    | zero => omega
    | succ turns =>
      unfold savepointLoop
      rw [hrec, Option.map_some, hdata]
      dsimp only
      by_cases hname : found = name
      · rw [if_pos hname, find?_cons_of_pos (by simpa using hname)]
        rfl
      · rw [if_neg hname, find?_cons_of_neg (by simpa using hname)]
        exact ih (by omega)

theorem cut (hmem : save ∈ saves) :
    SaveChain log save.2 (saves.filter (fun other => decide (other.2 <= save.2))) := by
  induction h with
  | nil => cases hmem
  | cons hrec hdata hprv hrest ih =>
    cases hmem with
    | head =>
      rw [filter_eq_self.mpr]
      · exact .cons hrec hdata hprv hrest
      · intro other hother
        exact decide_eq_true ((SaveChain.cons hrec hdata hprv hrest).mem_le hother).2
    | tail _ hmem =>
      have hle := hrest.mem_le hmem
      rw [filter_cons_of_neg (by simp; omega)]
      exact ih hmem

end

end SaveChain

/-!
## Steps
-/

namespace Inv

variable {s : State}

theorem start (log : List LogRecord) (trid : Nat) : Inv (State.start log trid) where
  active := rfl
  last := Nat.zero_le _
  undo := rfl
  noPostpone := rfl
  path := .here 0
  physical := by
    intro lsa hmem
    cases hmem
  opened := .nil
  nested := pairwise_singleton _ _
  saved := .nil
  saves := by
    intro save hmem
    cases hmem

section

variable (h : Inv s)
include h

theorem find (name : SavepointName) :
    logGetSavepointLsa s.code name = (s.ledger.find name).getD 0 :=
  h.saved.savepointLoop_eq name (Nat.le_refl _)

theorem other (rec : LogRecord) : Inv (s.next (.other rec)) :=
  { h with
    last := Nat.le_trans h.last (by simp [State.next, run])
    path := h.path.mono [rec]
    physical := h.physical.mono [rec]
    opened := h.opened.imp fun _ _ hopened => hopened.append [rec]
    saved := h.saved.append [rec]
    saves := fun save hmem => ⟨(h.saves save hmem).1, (h.saves save hmem).2.append [rec]⟩ }

theorem nested_next {last : Nat} (hle : s.code.tdes.lastLsa <= last) :
    (last :: s.code.tdes.topops.map Topop.lastparentLsa).Pairwise
      (fun outer inner => inner <= outer) := by
  refine Pairwise.cons ?_ (Pairwise.of_cons h.nested)
  intro lsa hmem
  exact Nat.le_trans (rel_of_pairwise_cons h.nested hmem) hle

theorem change : Inv (s.next .change) where
  active := h.active
  last := by simp [State.next, run, logAppendUndoredoData, priorLsaNextRecord]
  undo := rfl
  noPostpone := h.noPostpone
  path := by
    have hlast := h.last
    refine .undo (recordAt_next _ _) rfl ?_ (h.path.mono _)
    exact Nat.lt_succ_of_le hlast
  physical := by
    intro lsa hmem
    cases hmem with
    | head =>
      simp only [State.next, run, logAppendUndoredoData, priorLsaNextRecord]
      rw [recordAt_next]
      rfl
    | tail _ hmem => exact h.physical.mono _ lsa hmem
  opened := by
    refine h.opened.imp ?_
    intro top now hopened
    exact (hopened.append _).cons (Nat.lt_succ_of_le hopened.past)
  nested := h.nested_next (Nat.le_succ_of_le h.last)
  saved := h.saved.append _
  saves := by
    intro save hmem
    have hsave := h.saves save hmem
    have hlast := h.last
    constructor
    · exact Nat.le_trans hsave.1 (Nat.le_succ_of_le hlast)
    · exact (hsave.2.append _).cons (by omega)

theorem savepoint (name : SavepointName) : Inv (s.next (.savepoint name)) := by
  have hlast := h.last
  have hcode : run s.code (.savepoint name) =
      (let t := priorLsaNextRecord s.code (.savepoint name s.code.tdes.saveptLsa)
       { t with tdes := { t.tdes with saveptLsa := t.tdes.lastLsa } }) := by
    simp only [run, logAppendSavepoint, if_pos h.active]
  unfold State.next
  rw [hcode]
  have hpath : UndoPath (priorLsaNextRecord s.code (.savepoint name s.code.tdes.saveptLsa)).log
      (s.code.log.length + 1) s.ledger.owed 0 :=
    .pass (recordAt_next _ _) rfl (Nat.lt_succ_of_le hlast) (h.path.mono _)
  exact
    { active := h.active
      last := by simp [priorLsaNextRecord]
      undo := rfl
      noPostpone := h.noPostpone
      path := hpath
      physical := h.physical.mono _
      opened := h.opened.imp fun _ _ hopened => hopened.append _
      nested := h.nested_next (Nat.le_succ_of_le hlast)
      saved :=
        .cons (recordAt_next _ _) rfl (Nat.lt_succ_of_le h.saved.le_length) (h.saved.append _)
      saves := by
        intro save hmem
        cases hmem with
        | head => exact ⟨Nat.le_refl _, .of_path hpath⟩
        | tail _ hmem =>
          have hsave := h.saves save hmem
          exact ⟨Nat.le_trans hsave.1 (Nat.le_succ_of_le hlast), hsave.2.append _⟩ }

theorem startSystemOp : Inv (s.next .startSystemOp) := by
  refine { h with opened := .cons ?_ h.opened, nested := Pairwise.cons ?_ h.nested }
  · exact
      { noPostpone := rfl
        before := h.last
        past := Nat.le_refl _
        gap := fun change hmem _ => (h.path.mem_bounds hmem).2
        back := .of_path h.path }
  · intro lsa hmem
    cases hmem with
    | head => exact Nat.le_refl _
    | tail _ hmem => exact rel_of_pairwise_cons h.nested hmem

end

variable {lsa : Nat}

/--
An operation ended with a record that leads back to its beginning: the
changes after the beginning have left the ledger.
-/
theorem ended (h : Inv s) (tops : List Topop) {t u : LogState} {targets : List Nat}
    (hended : Ended { s.code with tdes := { s.code.tdes with topops := tops } } t lsa targets)
    {savept : Nat} (hu : u = { t with tdes := { t.tdes with saveptLsa := savept } })
    (hback : Return s.code.log s.ledger.owed lsa) (hle : lsa <= s.code.tdes.lastLsa)
    {ops : List Nat} {saves : List (SavepointName × Nat)}
    (hopened : Forall₂ (Opened s.code.log s.ledger.owed) tops.tail ops)
    (hnested : (lsa :: tops.tail.map Topop.lastparentLsa).Pairwise
      (fun outer inner => inner <= outer)) (hsaved : SaveChain s.code.log savept saves)
    (hsaves : forall save, save ∈ saves -> save ∈ s.ledger.saves ∧ save.2 <= lsa) :
    Inv { code := u
          ledger := { owed := s.ledger.upTo lsa, ops := ops, saves := saves } } := by
  obtain ⟨more, rec, hlog, hrec, _, hlast⟩ := hended.log
  obtain ⟨last, tail, htdes⟩ := hended.tdes
  rcases t with ⟨log, tdes⟩
  subst hu htdes
  dsimp only at hlog hlast
  have hold := h.last
  have hlen : lsa <= (s.code.log ++ more).length := by
    rw [length_append]
    omega
  have hpath := (hback.append more).path_next hrec.undoes hrec.link hlen
  rw [← hlog, ← hlast] at hpath
  rw [append_assoc] at hlog
  subst hlog
  exact
    { active := h.active
      last := by
        rw [← append_assoc, length_append]
        exact Nat.le_of_eq hlast
      undo := rfl
      noPostpone := h.noPostpone
      path := hpath
      physical := fun change hmem => h.physical.mono _ change (mem_filter.mp hmem).1
      opened := by
        refine (Opened.cut_all hopened fun top hmem => ?_).imp fun _ _ hcut => hcut.append _
        exact rel_of_pairwise_cons hnested (mem_map_of_mem hmem)
      nested := by
        refine Pairwise.cons (fun other hmem => ?_) (Pairwise.of_cons hnested)
        have hother := rel_of_pairwise_cons hnested hmem
        dsimp only
        omega
      saved := hsaved.append _
      saves := by
        intro save hmem
        obtain ⟨hmem, hsave⟩ := hsaves save hmem
        refine ⟨?_, ((h.saves save hmem).2.cut hsave).append _⟩
        dsimp only
        omega }

theorem ops_nil (h : Inv s) (htops : s.code.tdes.topops = []) : s.ledger.ops = [] := by
  have hopened := h.opened
  rw [htops] at hopened
  exact forall₂_nil_left_iff.mp hopened

theorem innermost (h : Inv s) {top : Topop} {rest : List Topop}
    (htops : s.code.tdes.topops = top :: rest) :
    exists now ops, s.ledger.ops = now :: ops ∧ Opened s.code.log s.ledger.owed top now ∧
      Forall₂ (Opened s.code.log s.ledger.owed) rest ops ∧
      s.ledger.upTo now = s.ledger.upTo top.lastparentLsa ∧
      s.ledger.after now = s.ledger.after top.lastparentLsa := by
  have hopened := h.opened
  rw [htops] at hopened
  cases hops : s.ledger.ops with
  | nil =>
    rw [hops] at hopened
    cases hopened
  | cons now ops =>
    rw [hops] at hopened
    cases hopened with
    | cons hop hrest =>
      have hsame : forall change, change ∈ s.ledger.owed ->
          (change <= now <-> change <= top.lastparentLsa) := by
        intro change hmem
        constructor
        · exact hop.gap change hmem
        · exact fun hle => Nat.le_trans hle hop.before
      refine ⟨now, ops, rfl, hop, hrest, ?_, ?_⟩
      · apply filter_congr
        intro change hmem
        exact decide_eq_decide.mpr (hsame change hmem)
      apply filter_congr
      intro change hmem
      have := hsame change hmem
      exact decide_eq_decide.mpr (by omega)

theorem upTo_eq (h : Inv s) (hle : s.code.tdes.lastLsa <= lsa) :
    s.ledger.upTo lsa = s.ledger.owed := by
  refine filter_eq_self.mpr ?_
  intro change hmem
  exact decide_eq_true (Nat.le_trans (h.path.mem_bounds hmem).2 hle)

theorem after_eq (h : Inv s) (hle : s.code.tdes.lastLsa <= lsa) : s.ledger.after lsa = [] := by
  refine filter_eq_nil_iff.mpr ?_
  intro change hmem
  have := (h.path.mem_bounds hmem).2
  simp
  omega

theorem popped (h : Inv s) {top : Topop} {rest : List Topop}
    (htops : s.code.tdes.topops = top :: rest) :
    Inv { code := LogState.popTopop s.code
          ledger := { s.ledger with ops := s.ledger.ops.tail } } := by
  obtain ⟨now, ops, hops, _, hrest, _, _⟩ := h.innermost htops
  refine { h with opened := ?_, nested := ?_ }
  · show Forall₂ _ s.code.tdes.topops.tail s.ledger.ops.tail
    rw [htops, hops]
    exact hrest
  show (s.code.tdes.lastLsa :: s.code.tdes.topops.tail.map Topop.lastparentLsa).Pairwise _
  have hnested := h.nested
  rw [htops] at hnested ⊢
  exact hnested.sublist (by simp)

end Inv

/-!
## Ending a system operation

Without an open operation nothing happens; an operation that is attached or
logged nothing is only popped; any other one is ended with a record.
-/

variable {s : State}

theorem run_endSystemOp_none (htops : s.code.tdes.topops = []) (result : TopopResult) :
    run s.code (.endSystemOp result) = s.code := by
  simp only [run, logEndSystemOp, htops]

variable {top : Topop} {name : SavepointName} {result : TopopResult}

theorem Inv.endSystemOp_ended (h : Inv s) {rest : List Topop}
    (htops : s.code.tdes.topops = top :: rest) (hlt : top.lastparentLsa < s.code.tdes.lastLsa)
    (hresult : result ≠ .attachToOuter) :
    Ended s.code (run s.code (.endSystemOp result)) top.lastparentLsa
      (s.ledger.undone (.endSystemOp result)) := by
  obtain ⟨now, ops, hops, hopened, _, _, hafter⟩ := h.innermost htops
  cases result with
  | attachToOuter => exact absurd rfl hresult
  | commit => exact logEndSystemOp_commit_ended htops h.active hopened.noPostpone hlt
  | abort =>
    have hundone : s.ledger.undone (.endSystemOp .abort) = s.ledger.after top.lastparentLsa := by
      rw [← hafter]
      simp [Ledger.undone, hops]
    rw [hundone]
    exact logEndSystemOp_abort_ended htops h.active hlt h.path h.physical h.undo h.last

theorem Inv.endSystemOp_popped (h : Inv s) {rest : List Topop}
    (htops : s.code.tdes.topops = top :: rest)
    (hidle : result = .attachToOuter ∨ s.code.tdes.lastLsa <= top.lastparentLsa) :
    s.next (.endSystemOp result) =
        { code := LogState.popTopop s.code
          ledger := { s.ledger with ops := s.ledger.ops.tail } } ∧
      s.ledger.undone (.endSystemOp result) = [] := by
  obtain ⟨now, ops, hops, hopened, _, hupTo, hafter⟩ := h.innermost htops
  have hcode := logEndSystemOp_attached htops h.active hopened.noPostpone hidle
  simp only [State.next, run, hcode]
  cases result with
  | attachToOuter => exact ⟨rfl, rfl⟩
  | commit =>
    have hkeep := hupTo.trans (h.upTo_eq (hidle.resolve_left nofun))
    exact ⟨by simp [Ledger.next, hops, hkeep], rfl⟩
  | abort =>
    have hle := hidle.resolve_left nofun
    have hkeep := hupTo.trans (h.upTo_eq hle)
    have hnone := hafter.trans (h.after_eq hle)
    exact ⟨by simp [Ledger.next, hops, hkeep], by simp [Ledger.undone, hops, hnone]⟩

theorem Inv.endSystemOp (h : Inv s) (result : TopopResult)
    (hguard : savepointsOutside s (.endSystemOp result) = true) :
    Inv (s.next (.endSystemOp result)) := by
  cases htops : s.code.tdes.topops with
  | nil =>
    have hops := h.ops_nil htops
    have hsame : s.next (.endSystemOp result) = s := by
      have hcode := run_endSystemOp_none htops result
      cases s with
      | mk code ledger =>
        cases ledger
        cases result <;> simp_all [State.next, Ledger.next]
    rw [hsame]
    exact h
  | cons top rest =>
    by_cases hidle : result = .attachToOuter ∨ s.code.tdes.lastLsa <= top.lastparentLsa
    · rw [(h.endSystemOp_popped htops hidle).1]
      exact h.popped htops
    have hresult : result ≠ .attachToOuter := fun heq => hidle (.inl heq)
    have hlt : top.lastparentLsa < s.code.tdes.lastLsa := by omega
    obtain ⟨now, ops, hops, hopened, hrest, hupTo, _⟩ := h.innermost htops
    have hended := h.endSystemOp_ended htops hlt hresult
    obtain ⟨last, tail, htdes⟩ := hended.tdes
    have hsavept : s.code.tdes.saveptLsa <= top.lastparentLsa := by
      cases result <;> first
        | exact absurd rfl hresult
        | simpa [savepointsOutside, htops] using hguard
    have hledger : s.ledger.next s.code.log.length (.endSystemOp result) =
        { owed := s.ledger.upTo top.lastparentLsa, ops := ops, saves := s.ledger.saves } := by
      cases result <;> first
        | exact absurd rfl hresult
        | simp [Ledger.next, hops, hupTo]
    have hnested := h.nested
    rw [htops] at hnested
    unfold State.next
    rw [hledger]
    refine h.ended s.code.tdes.topops hended ?_ hopened.back (Nat.le_of_lt hlt) ?_ ?_ h.saved ?_
    · rw [htdes]
      exact congrArg (LogState.mk _) htdes
    · rwa [htops]
    · rw [htops]
      exact Pairwise.of_cons hnested
    · exact fun save hmem => ⟨hmem, Nat.le_trans (h.saved.mem_le hmem).2 hsavept⟩

theorem Inv.undoneBy_endSystemOp (h : Inv s) (result : TopopResult) :
    undoneBy s (.endSystemOp result) = s.ledger.undone (.endSystemOp result) := by
  cases htops : s.code.tdes.topops with
  | nil =>
    have hops := h.ops_nil htops
    unfold undoneBy
    rw [run_endSystemOp_none htops, drop_length]
    cases result <;> simp [Ledger.undone, hops, compensated]
  | cons top rest =>
    by_cases hidle : result = .attachToOuter ∨ s.code.tdes.lastLsa <= top.lastparentLsa
    · obtain ⟨hnext, hundone⟩ := h.endSystemOp_popped htops hidle
      have hcode : run s.code (.endSystemOp result) = LogState.popTopop s.code :=
        congrArg State.code hnext
      unfold undoneBy
      rw [hundone, hcode]
      simp [LogState.popTopop, compensated]
    · have hresult : result ≠ .attachToOuter := fun heq => hidle (.inl heq)
      exact (h.endSystemOp_ended htops (by omega) hresult).appended

/-!
## Rolling back to a savepoint
-/

theorem Ledger.find_mem {ledger : Ledger} {lsa : Nat} (h : ledger.find name = some lsa) :
    (name, lsa) ∈ ledger.saves := by
  unfold Ledger.find at h
  rw [Option.map_eq_some_iff] at h
  obtain ⟨save, hfind, hlsa⟩ := h
  have hname : save.1 = name := by simpa using find?_some hfind
  have hmem := mem_of_find?_eq_some hfind
  rw [← hname, ← hlsa]
  exact hmem

/-- The state in which the operation of a partial abort is ended. -/
def partialAbort (s : LogState) (lsa : Nat) : LogState :=
  { s with tdes := { s.tdes with topops := [{ lastparentLsa := lsa, pospLsa := 0 }] } }

section

variable (h : Inv s)
include h

theorem Inv.posp_null (hmem : top ∈ s.code.tdes.topops) : top.pospLsa = 0 := by
  have hopened := h.opened
  generalize s.code.tdes.topops = tops, s.ledger.ops = ops at hmem hopened
  induction hopened with
  | nil => cases hmem
  | cons hop _ ih =>
    cases hmem with
    | head => exact hop.noPostpone
    | tail _ hmem => exact ih hmem

theorem Inv.run_abortPartial {lsa : Nat} (hfind : s.ledger.find name = some lsa) :
    run s.code (.abortPartial name) =
      let t := logEndSystemOp (partialAbort s.code lsa) .abort
      { t with tdes := { t.tdes with saveptLsa := lsa } } := by
  have hlsa : logGetSavepointLsa s.code name = lsa := by
    rw [h.find name, hfind]
    rfl
  have hpos : lsa ≠ 0 := Nat.ne_of_gt (h.saved.mem_le (Ledger.find_mem hfind)).1
  simp only [run, logAbortPartial, hlsa]
  rw [if_neg (by simp [h.active, hpos]), attachSystemOps_eq h.active (fun _ => h.posp_null)]
  unfold startPartialAbort partialAbort
  simp [h.noPostpone]

theorem Inv.run_abortPartial_unknown (hfind : s.ledger.find name = none) :
    run s.code (.abortPartial name) = s.code := by
  have hlsa : logGetSavepointLsa s.code name = 0 := by
    rw [h.find name, hfind]
    rfl
  simp only [run, logAbortPartial, hlsa]
  rw [if_pos (.inr trivial)]

theorem Inv.partialAbort_ended (lsa : Nat) (hlt : lsa < s.code.tdes.lastLsa) :
    Ended (partialAbort s.code lsa) (logEndSystemOp (partialAbort s.code lsa) .abort) lsa
      (s.ledger.after lsa) :=
  logEndSystemOp_abort_ended (s := partialAbort s.code lsa) rfl h.active hlt h.path h.physical
    h.undo h.last

theorem Inv.abortPartial (name : SavepointName) : Inv (s.next (.abortPartial name)) := by
  unfold State.next
  cases hfind : s.ledger.find name with
  | none =>
    simp only [h.run_abortPartial_unknown hfind, Ledger.next, hfind]
    exact h
  | some lsa =>
    have hmem := Ledger.find_mem hfind
    have hsave := h.saves _ hmem
    have hkept : forall save,
        save ∈ s.ledger.saves.filter (fun other => decide (other.2 <= lsa)) ->
          save ∈ s.ledger.saves ∧ save.2 <= lsa := by
      intro save hsave
      rw [mem_filter] at hsave
      exact ⟨hsave.1, of_decide_eq_true hsave.2⟩
    simp only [h.run_abortPartial hfind, Ledger.next, hfind]
    by_cases hidle : s.code.tdes.lastLsa <= lsa
    · -- The savepoint is the last record: only the operations are closed.
      rw [logEndSystemOp_attached (s := partialAbort s.code lsa) rfl h.active rfl (.inr hidle),
        h.upTo_eq hidle]
      exact
        { h with
          opened := .nil
          nested := pairwise_singleton _ _
          saved := h.saved.cut hmem
          saves := fun save hsave => h.saves save (hkept save hsave).1 }
    · exact h.ended _ (h.partialAbort_ended lsa (by omega)) rfl hsave.2 hsave.1 .nil
        (pairwise_singleton _ _) (h.saved.cut hmem) hkept

theorem Inv.undoneBy_abortPartial (name : SavepointName) :
    undoneBy s (.abortPartial name) = s.ledger.undone (.abortPartial name) := by
  unfold undoneBy
  cases hfind : s.ledger.find name with
  | none =>
    rw [h.run_abortPartial_unknown hfind, drop_length]
    simp [Ledger.undone, hfind, compensated]
  | some lsa =>
    have hundone : s.ledger.undone (.abortPartial name) = s.ledger.after lsa := by
      simp [Ledger.undone, hfind]
    rw [h.run_abortPartial hfind, hundone]
    by_cases hidle : s.code.tdes.lastLsa <= lsa
    · rw [logEndSystemOp_attached (s := partialAbort s.code lsa) rfl h.active rfl (.inr hidle),
        h.after_eq hidle]
      simp [LogState.popTopop, partialAbort, compensated]
    · exact (h.partialAbort_ended lsa (by omega)).appended

end

/-!
## The end of the transaction
-/

theorem Inv.run_abort (h : Inv s) :
    exists more, (run s.code .abort).log = s.code.log ++ more ∧
      compensated more = s.ledger.owed ∧
      (run s.code .abort).tdes.saveptLsa = s.code.tdes.saveptLsa ∧
      (run s.code .abort).tdes.state = .unactiveAborted := by
  generalize hstart : ({ s.code with
    tdes := { s.code.tdes with topops := [], state := .unactiveAborted } } : LogState) = t
  have hcode : run s.code .abort = logComplete (logRollback t none) .abort .unactiveAborted := by
    simp only [run, logAbort, if_pos h.active, attachSystemOps_eq h.active (fun _ => h.posp_null)]
    rw [← hstart]
  have hrolled : RolledBack t (logRollback t none) (s.ledger.owed.filter (beyond none)) := by
    have hpath := h.path
    rw [← h.undo] at hpath
    subst hstart
    exact logRollback_rolledBack none hpath h.physical h.undo h.last
  have hall : s.ledger.owed.filter (beyond none) = s.ledger.owed := by
    refine filter_eq_self.mpr ?_
    intro change _
    rfl
  rw [hall] at hrolled
  obtain ⟨more, hlog, hmore⟩ := hrolled.log
  obtain ⟨last, undo, htdes, _⟩ := hrolled.tdes
  rw [hcode]
  unfold logComplete
  by_cases hnull : (logRollback t none).tdes.lastLsa = 0
  · simp only [if_pos hnull]
    refine ⟨more, ?_, hmore, ?_, trivial⟩
    · rw [hlog, ← hstart]
    · rw [htdes, ← hstart]
  simp only [if_neg hnull, priorLsaNextRecord]
  refine ⟨more ++ [{ trid := (logRollback t none).tdes.trid
                     prevTranlsa := (logRollback t none).tdes.lastLsa
                     data := .abort }], ?_, ?_, ?_, trivial⟩
  · rw [hlog, ← hstart, append_assoc]
  · rw [compensated_append, hmore]
    exact append_nil _
  · rw [htdes, ← hstart]

theorem Inv.undoneBy_abort (h : Inv s) : undoneBy s .abort = s.ledger.owed := by
  obtain ⟨more, hlog, hmore, _⟩ := h.run_abort
  unfold undoneBy
  rw [hlog, drop_left, hmore]

/-- An ended transaction owes nothing; its savepoint records stay in the log. -/
structure Over (s : State) : Prop where
  ended : s.code.tdes.state ≠ .active
  owed : s.ledger.owed = []
  saved : SaveChain s.code.log s.code.tdes.saveptLsa s.ledger.saves

theorem Inv.abort (h : Inv s) : Over (s.next .abort) := by
  obtain ⟨more, hlog, _, hsavept, hstate⟩ := h.run_abort
  constructor
  case ended =>
    simp only [State.next, hstate]
    decide
  case owed => rfl
  case saved =>
    simp only [State.next, hlog, hsavept]
    exact h.saved.append more

theorem Over.other (h : Over s) (rec : LogRecord) : Over (s.next (.other rec)) where
  ended := h.ended
  owed := h.owed
  saved := h.saved.append [rec]

/-!
## Whole runs
-/

theorem Inv.exact (h : Inv s) : Exact s where
  decreasing := h.path.decreasing
  find := h.find
  undone := by
    intro a _ hown
    cases a with
    | change =>
      simp [undoneBy, run, logAppendUndoredoData, priorLsaNextRecord, Ledger.undone, compensated]
    | savepoint name =>
      simp [undoneBy, run, logAppendSavepoint, h.active, priorLsaNextRecord, Ledger.undone,
        compensated]
    | startSystemOp => simp [undoneBy, run, logStartSystemOp, Ledger.undone, compensated]
    | endSystemOp result => exact h.undoneBy_endSystemOp result
    | abortPartial name => exact h.undoneBy_abortPartial name
    | abort => exact h.undoneBy_abort
    | other rec => exact absurd rfl (hown rec)

theorem Over.exact (h : Over s) : Exact s where
  decreasing := by
    rw [h.owed]
    exact .nil
  find := fun name => h.saved.savepointLoop_eq name (Nat.le_refl _)
  undone := fun _ hactive => absurd hactive h.ended

theorem Inv.next (h : Inv s) {a : Label} (hguard : savepointsOutside s a = true) :
    Inv (s.next a) ∨ Over (s.next a) := by
  cases a with
  | change => exact .inl h.change
  | savepoint name => exact .inl (h.savepoint name)
  | startSystemOp => exact .inl h.startSystemOp
  | endSystemOp result => exact .inl (h.endSystemOp result hguard)
  | abortPartial name => exact .inl (h.abortPartial name)
  | abort => exact .inr h.abort
  | other rec => exact .inl (h.other rec)

theorem Over.next (h : Over s) {a : Label} (henabled : enabled s a = true) : Over (s.next a) := by
  cases a with
  | other rec => exact h.other rec
  | _ => exact absurd (of_decide_eq_true henabled) h.ended

/--
As long as no system operation ends around a live savepoint, rolling back
undoes exactly what it should, in every state that a transaction reaches.
-/
theorem exact_of_reachable (log : List LogRecord) (trid : Nat) {s : State}
    (hs : ((system log trid).guarded (fun s a => savepointsOutside s a = true)).Reachable s) :
    Exact s := by
  have hgood : Inv s ∨ Over s := by
    refine hs.guarded_invariant (fun s => Inv s ∨ Over s) ?_ ?_
    · rintro s rfl
      exact .inl (.start log trid)
    rintro s a t hgood hguard ⟨henabled, rfl⟩
    cases hgood with
    | inl h => exact h.next hguard
    | inr h => exact .inr (h.next henabled)
  cases hgood with
  | inl h | inr h => exact h.exact

/-- A savepoint after a committed operation, another one, and rolling back to the first. -/
def outsideRun : List Label :=
  [.change, .savepoint [115], .startSystemOp, .change, .endSystemOp .commit, .change,
    .savepoint [116], .change, .abortPartial [115], .change]

theorem exact_outsideRun :
    (outsideRun.foldl State.next (State.start [] 1)).ledger.owed = [11, 1] ∧
      Exact (outsideRun.foldl State.next (State.start [] 1)) :=
  ⟨by decide,
    exact_of_reachable [] 1 (Foundation.System.reachable_guarded_of_follows outsideRun (by decide))⟩

/-- Rolling back to a savepoint inside an operation that was committed. -/
def insideRun : List Label :=
  [.startSystemOp, .change, .savepoint [115], .change, .endSystemOp .commit, .abortPartial [115]]

theorem not_exact_insideRun :
    (system [] 1).Reachable (insideRun.foldl State.next (State.start [] 1)) ∧
      undoneBy (insideRun.foldl State.next (State.start [] 1)) .abort = [1] ∧
      (insideRun.foldl State.next (State.start [] 1)).ledger.undone .abort = [] ∧
      ¬ Exact (insideRun.foldl State.next (State.start [] 1)) := by
  refine ⟨Foundation.System.reachable_of_follows insideRun (by decide), by decide, by decide, ?_⟩
  intro hexact
  have hundone := hexact.undone .abort (by decide) (fun rec heq => by cases heq)
  revert hundone
  decide

end Rye.Transaction.Log.Savepoints
