import Rye.Transaction.Log.UndoChain

/-!
# System operations

What ending a system operation does to the log, for operations that have not
postponed anything: an operation that is attached or logged nothing is only
popped, any other one is ended with a record that leads back to its beginning.
-/

namespace Rye.Transaction.Log

open List

theorem logCompleteTopopAttach_null (tdes : LogTdes) : logCompleteTopopAttach tdes 0 = tdes := by
  unfold logCompleteTopopAttach
  split
  · split
    case isTrue top parent rest htops hposp =>
      cases tdes
      cases parent
      simp_all
    case isFalse => rfl
  · split
    case isTrue hposp =>
      cases tdes
      simp_all
    case isFalse => rfl

theorem topopResult_active {tdes : LogTdes} (hactive : tdes.state = .active)
    (result : TopopResult) : tdes.topopResult result = result := by
  unfold LogTdes.topopResult
  rw [if_neg]
  intro h
  exact h.1 hactive

def LogState.popTopop (s : LogState) : LogState :=
  { s with tdes := { s.tdes with topops := s.tdes.topops.tail } }

variable {top : Topop} {s : LogState}

theorem logCompleteSystemOp_attach (s : LogState) (hposp : top.pospLsa = 0) :
    logCompleteSystemOp s top .attachToOuter s.tdes.state = s.popTopop := by
  unfold logCompleteSystemOp LogState.popTopop
  rw [if_pos rfl, hposp, logCompleteTopopAttach_null]

section

variable {s : LogState} {top : Topop} {rest : List Topop}
  (htops : s.tdes.topops = top :: rest) (hactive : s.tdes.state = .active)

include htops hactive

theorem logEndSystemOp_attached {result : TopopResult} (hposp : top.pospLsa = 0)
    (h : result = .attachToOuter ∨ s.tdes.lastLsa <= top.lastparentLsa) :
    logEndSystemOp s result = s.popTopop := by
  unfold logEndSystemOp
  rw [htops]
  dsimp only
  rw [topopResult_active hactive, if_neg]
  · exact logCompleteSystemOp_attach s hposp
  intro hmore
  cases h with
  | inl h => exact hmore.1 h
  | inr h => omega

theorem logEndSystemOp_commit (hposp : top.pospLsa = 0) (hlt : top.lastparentLsa < s.tdes.lastLsa) :
    logEndSystemOp s .commit = (logCompleteTopop s top.lastparentLsa .commit).popTopop := by
  unfold logEndSystemOp
  rw [htops]
  dsimp only
  have hlast : s.tdes.lastLsa ≠ 0 := by omega
  rw [topopResult_active hactive, if_pos ⟨by decide, hlast, hlt⟩, if_pos rfl]
  unfold logDoPostponeTopope logCompleteSystemOp LogState.popTopop
  rw [if_pos hposp, if_neg (by decide)]
  rw [hactive]
  simp only [logCompleteTopop, priorLsaNextRecord, hactive]

theorem logEndSystemOp_abort (hlt : top.lastparentLsa < s.tdes.lastLsa) :
    logEndSystemOp s .abort =
      let t := { s with tdes := { s.tdes with state := .unactiveAborted } }
      let t := logCompleteTopop (logRollback t (some top.lastparentLsa)) top.lastparentLsa .abort
      { t with tdes := { t.tdes with topops := t.tdes.topops.tail, state := .active } } := by
  unfold logEndSystemOp
  rw [htops]
  dsimp only
  have hlast : s.tdes.lastLsa ≠ 0 := by omega
  rw [topopResult_active hactive, if_pos ⟨by decide, hlast, hlt⟩, if_neg (by decide)]
  unfold logCompleteSystemOp
  rw [if_neg (by decide), hactive]

end

theorem attachSystemOps_eq (hactive : s.tdes.state = .active)
    (hposp : forall top, top ∈ s.tdes.topops -> top.pospLsa = 0) :
    attachSystemOps s.tdes.topops.length s = { s with tdes := { s.tdes with topops := [] } } := by
  -- Induction on the open operations; each turn pops the innermost one.
  generalize htops : s.tdes.topops = tops at *
  induction tops generalizing s with
  | nil =>
    cases s with
    | mk log tdes =>
      cases tdes
      simp_all [attachSystemOps]
  | cons top rest ih =>
    have hnil := hposp top mem_cons_self
    show attachSystemOps rest.length (logEndSystemOp s .attachToOuter) = _
    rw [logEndSystemOp_attached htops hactive hnil (.inl rfl)]
    exact ih (s := LogState.popTopop s) hactive (by simp [LogState.popTopop, htops])
      (fun other hmem => hposp other (mem_cons_of_mem _ hmem))

/-!
## The record at the end
-/

/-- The record that ends an operation leads to its beginning and undoes nothing. -/
structure EndsAt (rec : LogRecord) (lsa : Nat) : Prop where
  undoes : rec.data.undoes = false
  link : rec.undoLink = lsa
  compensated : compensated [rec] = []

/-- The state after an operation that began at an address was ended with a record. -/
structure Ended (s t : LogState) (lsa : Nat) (targets : List Nat) : Prop where
  log : exists more rec, t.log = s.log ++ more ++ [rec] ∧ EndsAt rec lsa ∧
    compensated more = targets ∧ t.tdes.lastLsa = (s.log ++ more).length + 1
  tdes : exists last tail, t.tdes =
    { s.tdes with
      lastLsa := last, undoNxlsa := last, tailTopresultLsa := tail
      topops := s.tdes.topops.tail }

namespace Ended

variable {s t : LogState} {lsa : Nat} {targets : List Nat}

theorem appended (h : Ended s t lsa targets) : compensated (t.log.drop s.log.length) = targets := by
  obtain ⟨more, rec, hlog, hrec, hmore, _⟩ := h.log
  rw [hlog, append_assoc, drop_left, compensated_append, hmore, hrec.compensated, append_nil]

end Ended

theorem logCompleteTopop_log (s : LogState) (lsa : Nat) (result : TopopResult) :
    exists rec, (logCompleteTopop s lsa result).log = s.log ++ [rec] ∧ EndsAt rec lsa := by
  refine ⟨_, rfl, ?_⟩
  cases result with
  | commit | abort | attachToOuter => exact ⟨rfl, rfl, rfl⟩

theorem logEndSystemOp_commit_ended {rest : List Topop} (htops : s.tdes.topops = top :: rest)
    (hactive : s.tdes.state = .active) (hposp : top.pospLsa = 0)
    (hlt : top.lastparentLsa < s.tdes.lastLsa) :
    Ended s (logEndSystemOp s .commit) top.lastparentLsa [] := by
  rw [logEndSystemOp_commit htops hactive hposp hlt]
  obtain ⟨rec, hrec, hends⟩ := logCompleteTopop_log s top.lastparentLsa .commit
  constructor
  · refine ⟨[], rec, ?_, hends, rfl, ?_⟩
    · rw [append_nil]
      exact hrec
    · rw [append_nil]
      rfl
  · exact ⟨_, _, rfl⟩

theorem logEndSystemOp_abort_ended {rest : List Topop} (htops : s.tdes.topops = top :: rest)
    (hactive : s.tdes.state = .active) (hlt : top.lastparentLsa < s.tdes.lastLsa)
    {owed : List Nat} (hpath : UndoPath s.log s.tdes.lastLsa owed 0)
    (hphysical : Physical s.log owed) (hundo : s.tdes.undoNxlsa = s.tdes.lastLsa)
    (hlast : s.tdes.lastLsa <= s.log.length) :
    Ended s (logEndSystemOp s .abort) top.lastparentLsa
      (owed.filter (fun change => decide (top.lastparentLsa < change))) := by
  rw [logEndSystemOp_abort htops hactive hlt]
  generalize hstart : ({ s with tdes := { s.tdes with state := .unactiveAborted } } : LogState) = t
  have hrolled : RolledBack t (logRollback t (some top.lastparentLsa))
      (owed.filter (beyond (some top.lastparentLsa))) := by
    subst hstart
    refine logRollback_rolledBack _ ?_ hphysical hundo hlast
    rw [hundo]
    exact hpath
  have hbeyond : owed.filter (beyond (some top.lastparentLsa)) =
      owed.filter (fun change => decide (top.lastparentLsa < change)) := by
    apply filter_congr
    intro change _
    rw [Bool.eq_iff_iff]
    simp only [beyond, Option.any_some, Bool.not_eq_true', decide_eq_false_iff_not,
      decide_eq_true_iff, Nat.not_le]
  rw [hbeyond] at hrolled
  obtain ⟨more, hlog, hmore⟩ := hrolled.log
  obtain ⟨last, undo, htdes, _⟩ := hrolled.tdes
  obtain ⟨rec, hrec, hends⟩ :=
    logCompleteTopop_log (logRollback t (some top.lastparentLsa)) top.lastparentLsa .abort
  have hkeep : t.log = s.log := by rw [← hstart]
  constructor
  · refine ⟨more, rec, ?_, hends, hmore, ?_⟩
    · rw [← hkeep, ← hlog]
      exact hrec
    · rw [← hkeep, ← hlog]
      rfl
  · refine ⟨(logRollback t (some top.lastparentLsa)).log.length + 1,
      (logRollback t (some top.lastparentLsa)).log.length + 1, ?_⟩
    simp only [logCompleteTopop, priorLsaNextRecord, htdes]
    rw [← hstart, ← hactive]

end Rye.Transaction.Log
