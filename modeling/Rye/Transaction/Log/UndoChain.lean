import Rye.Transaction.Log.Manager

/-!
# The undo chain

Rolling back follows links from record to record.  A path of such links is
described by its two ends and by the changes it comes across.  Links always go
backwards, so the changes on a path are met in decreasing order and a limit
cuts the path after those that lie beyond it.
-/

namespace Rye.Transaction.Log

open List

variable {log : List LogRecord} {changes : List Nat}

theorem recordAt_append {more : List LogRecord} {lsa : Nat} {rec : LogRecord}
    (h : recordAt log lsa = some rec) : recordAt (log ++ more) lsa = some rec := by
  unfold recordAt at h ⊢
  cases Nat.eq_zero_or_pos lsa with
  | inl hzero =>
    rw [if_pos hzero] at h
    cases h
  | inr hpos =>
    rw [if_neg (Nat.ne_of_gt hpos)] at h ⊢
    obtain ⟨hlt, _⟩ := List.getElem?_eq_some_iff.mp h
    rw [getElem?_append_left hlt]
    exact h

theorem recordAt_next (log : List LogRecord) (rec : LogRecord) :
    recordAt (log ++ [rec]) (log.length + 1) = some rec := by
  unfold recordAt
  rw [if_neg (Nat.succ_ne_zero _)]
  simp

theorem recordAt_bounds {lsa : Nat} {rec : LogRecord} (h : recordAt log lsa = some rec) :
    0 < lsa ∧ lsa <= log.length := by
  unfold recordAt at h
  cases Nat.eq_zero_or_pos lsa with
  | inl hzero =>
    rw [if_pos hzero] at h
    cases h
  | inr hpos =>
    rw [if_neg (Nat.ne_of_gt hpos)] at h
    obtain ⟨hlt, _⟩ := List.getElem?_eq_some_iff.mp h
    constructor
    · exact hpos
    · omega

/-!
## Paths
-/

/-- The records that are undone when they are rolled back. -/
def LogData.undoes : LogData -> Bool
  | .undoredoData => true
  | .logicalUndoData _ => true
  | _ => false

/-- The links lead from the first address to the last one and come across the changes. -/
inductive UndoPath (log : List LogRecord) : Nat -> List Nat -> Nat -> Prop where
  | here (lsa : Nat) : UndoPath log lsa [] lsa
  | undo {lsa upto : Nat} {rec : LogRecord} {changes : List Nat} :
      recordAt log lsa = some rec -> rec.data.undoes = true -> rec.undoLink < lsa ->
      UndoPath log rec.undoLink changes upto -> UndoPath log lsa (lsa :: changes) upto
  | pass {lsa upto : Nat} {rec : LogRecord} {changes : List Nat} :
      recordAt log lsa = some rec -> rec.data.undoes = false -> rec.undoLink < lsa ->
      UndoPath log rec.undoLink changes upto -> UndoPath log lsa changes upto

namespace UndoPath

variable {log : List LogRecord} {a b c : Nat} {l m : List Nat}

theorem mono (more : List LogRecord) (h : UndoPath log a l b) : UndoPath (log ++ more) a l b := by
  induction h with
  | here lsa => exact .here lsa
  | undo hrec hundoes hlink _ ih => exact .undo (recordAt_append hrec) hundoes hlink ih
  | pass hrec hundoes hlink _ ih => exact .pass (recordAt_append hrec) hundoes hlink ih

section

variable (h : UndoPath log a l b)
include h

theorem end_le : b <= a := by
  induction h with
  | here _ => exact Nat.le_refl _
  | undo _ _ hlink _ ih | pass _ _ hlink _ ih => omega

theorem mem_bounds {x : Nat} (hx : x ∈ l) : b < x ∧ x <= a := by
  induction h with
  | here _ => cases hx
  | undo _ _ hlink hpath ih =>
    have hend := hpath.end_le
    cases hx with
    | head => omega
    | tail _ hx =>
      have hbounds := ih hx
      omega
  | pass _ _ hlink _ ih =>
    have hbounds := ih hx
    omega

theorem decreasing : l.Pairwise (fun x y => y < x) := by
  induction h with
  | here _ => exact .nil
  | undo _ _ hlink hpath ih =>
    refine .cons ?_ ih
    intro x hx
    have hbounds := hpath.mem_bounds hx
    omega
  | pass _ _ _ _ ih => exact ih

end

end UndoPath

/-!
## What rolling back does

Only changes of pages are met here; every one of them that lies beyond the
limit gets one compensating record, in the order of the path.
-/

/-- The changes that the compensating records among the given ones restore. -/
def compensated (records : List LogRecord) : List Nat :=
  records.filterMap fun rec =>
    match rec.data with
    | .compensate target _ => some target
    | _ => none

theorem compensated_append (records more : List LogRecord) :
    compensated (records ++ more) = compensated records ++ compensated more :=
  filterMap_append

/-- An address that rolling back with the limit goes over. -/
def beyond (uptoLsa : Option Nat) (lsa : Nat) : Bool :=
  !uptoLsa.any (fun upto => decide (lsa <= upto))

/-- What is left of the state and what is new in it when the targets have been compensated. -/
structure RolledBack (s t : LogState) (targets : List Nat) : Prop where
  log : exists more, t.log = s.log ++ more ∧ compensated more = targets
  tdes : exists last undo, t.tdes = { s.tdes with lastLsa := last, undoNxlsa := undo } ∧
    s.tdes.lastLsa <= last ∧ (last = s.tdes.lastLsa ∨ last <= t.log.length)

namespace RolledBack

variable {s t u : LogState} {targets more : List Nat}

theorem refl (s : LogState) : RolledBack s s [] where
  log := ⟨[], (append_nil _).symm, rfl⟩
  tdes := ⟨_, _, rfl, Nat.le_refl _, .inl rfl⟩

theorem setUndoNxlsa (h : RolledBack s t targets) (lsa : Nat) :
    RolledBack s (t.setUndoNxlsa lsa) targets := by
  obtain ⟨last, undo, htdes, hlast⟩ := h.tdes
  constructor
  · exact h.log
  · exact ⟨last, lsa, by simp [LogState.setUndoNxlsa, htdes], hlast⟩

theorem trans (hst : RolledBack s t targets) (htu : RolledBack t u more) :
    RolledBack s u (targets ++ more) := by
  obtain ⟨first, hfirst, htargets⟩ := hst.log
  obtain ⟨second, hsecond, hmore⟩ := htu.log
  obtain ⟨last, undo, htdes, hlast⟩ := hst.tdes
  obtain ⟨last', undo', htdes', hlast'⟩ := htu.tdes
  have hlen : t.log.length <= u.log.length := by
    rw [hsecond, length_append]
    omega
  constructor
  · refine ⟨first ++ second, ?_, ?_⟩
    · rw [hsecond, hfirst, append_assoc]
    · rw [compensated_append, htargets, hmore]
  refine ⟨last', undo', ?_, ?_⟩
  · rw [htdes', htdes]
  · rw [htdes] at hlast'
    simp only at hlast'
    omega

theorem compensate (s : LogState) (lsa : Nat) (hlast : s.tdes.lastLsa <= s.log.length) :
    RolledBack s (logAppendCompensate s lsa) [lsa] where
  log := ⟨_, rfl, rfl⟩
  tdes := by
    refine ⟨s.log.length + 1, s.tdes.undoNxlsa, rfl, by omega, .inr ?_⟩
    simp [logAppendCompensate, priorLsaNextRecord, LogState.setUndoNxlsa]

end RolledBack

def Physical (log : List LogRecord) (changes : List Nat) : Prop :=
  forall lsa, lsa ∈ changes -> (recordAt log lsa).map LogRecord.data = some .undoredoData

theorem Physical.mono (h : Physical log changes) (more : List LogRecord) :
    Physical (log ++ more) changes := by
  intro lsa hmem
  have hdata := h lsa hmem
  cases hrec : recordAt log lsa with
  | none =>
    rw [hrec] at hdata
    cases hdata
  | some rec =>
    rw [hrec] at hdata
    rw [recordAt_append hrec]
    exact hdata

theorem logRollbackLoop_rolledBack {uptoLsa : Option Nat} {s : LogState} {a : Nat} {turns : Nat}
    (hpath : UndoPath s.log a changes 0) (hphysical : Physical s.log changes)
    (hturns : a <= turns) (hlast : s.tdes.lastLsa <= s.log.length) :
    RolledBack s (logRollbackLoop uptoLsa turns a s) (changes.filter (beyond uptoLsa)) := by
  -- The turns run along the path; at the first address within the limit the rest is within it.
  induction turns generalizing a changes s with
  | zero =>
    have hzero : a = 0 := by omega
    subst hzero
    cases hpath with
    | here => exact (RolledBack.refl s).setUndoNxlsa 0
    | undo hrec | pass hrec => exact absurd (recordAt_bounds hrec).1 (Nat.lt_irrefl 0)
  | succ turns ih =>
    unfold logRollbackLoop
    by_cases hstop : a = 0 ∨ uptoLsa.any (fun upto => decide (a <= upto)) = true
    · rw [if_pos hstop]
      have hnone : changes.filter (beyond uptoLsa) = [] := by
        rw [filter_eq_nil_iff]
        intro x hx
        have hbounds := hpath.mem_bounds hx
        cases hstop with
        | inl hzero => omega
        | inr hany =>
          cases uptoLsa with
          | none => cases hany
          | some upto =>
            have hle : a <= upto := by simpa using hany
            have : x <= upto := by omega
            simp [beyond, this]
      rw [hnone]
      exact (RolledBack.refl s).setUndoNxlsa a
    rw [if_neg hstop]
    have hbeyond : beyond uptoLsa a = true := by
      have := fun h => hstop (.inr h)
      simp only [beyond, Bool.not_eq_true'] at this ⊢
      exact eq_false_of_ne_true this
    cases hpath with
    | here => exact absurd (.inl rfl) hstop
    | undo hrec hundoes hlink hrest =>
      rename_i rec rest
      rw [hrec]
      have hdata : rec.data = .undoredoData := by
        have h := hphysical a mem_cons_self
        rw [hrec] at h
        exact Option.some.inj h
      have hstep : RolledBack s ((logRollbackRecord s a rec).setUndoNxlsa rec.undoLink) [a] := by
        unfold logRollbackRecord
        rw [hdata]
        have hset := (RolledBack.refl s).setUndoNxlsa rec.prevTranlsa
        exact (hset.trans (.compensate _ a hlast)).setUndoNxlsa _
      obtain ⟨more, hmore, _⟩ := hstep.log
      rw [filter_cons_of_pos hbeyond]
      refine hstep.trans (ih (a := rec.undoLink) ?_ ?_ ?_ ?_)
      · rw [hmore]
        exact hrest.mono more
      · rw [hmore]
        refine Physical.mono ?_ more
        intro lsa hmem
        exact hphysical lsa (mem_cons_of_mem _ hmem)
      · omega
      · obtain ⟨last, undo, htdes, hlast'⟩ := hstep.tdes
        rw [htdes]
        have hlen : s.log.length <= (s.log ++ more).length := by simp
        rw [hmore] at hlast' ⊢
        simp only at hlast' ⊢
        omega
    | pass hrec hundoes hlink hrest =>
      rename_i rec
      rw [hrec]
      have hstep : logRollbackRecord s a rec = s.setUndoNxlsa rec.prevTranlsa := by
        unfold logRollbackRecord
        cases hdata : rec.data <;> rw [hdata] at hundoes <;> first | rfl | cases hundoes
      have hset : RolledBack s ((logRollbackRecord s a rec).setUndoNxlsa rec.undoLink) [] := by
        rw [hstep]
        exact ((RolledBack.refl s).setUndoNxlsa _).setUndoNxlsa _
      refine hset.trans (ih (a := rec.undoLink) ?_ ?_ ?_ ?_)
      · rw [hstep]
        exact hrest
      · rw [hstep]
        exact hphysical
      · omega
      · rw [hstep]
        exact hlast

theorem logRollback_rolledBack {s : LogState} (uptoLsa : Option Nat)
    (hpath : UndoPath s.log s.tdes.undoNxlsa changes 0) (hphysical : Physical s.log changes)
    (hundo : s.tdes.undoNxlsa = s.tdes.lastLsa) (hlast : s.tdes.lastLsa <= s.log.length) :
    RolledBack s (logRollback s uptoLsa) (changes.filter (beyond uptoLsa)) := by
  unfold logRollback
  by_cases hnull : s.tdes.lastLsa = 0
  · rw [if_pos hnull]
    have hnil : changes = [] := by
      cases changes with
      | nil => rfl
      | cons x rest =>
        have hbounds := hpath.mem_bounds (x := x) mem_cons_self
        omega
    rw [hnil]
    exact .refl s
  · rw [if_neg hnull]
    exact logRollbackLoop_rolledBack hpath hphysical (Nat.le_refl _) hlast

end Rye.Transaction.Log
