import Rye.Transaction.LogPage.Checkpoint

/-!
# Archives that are removed are not needed

All archives below `last_arv_num_for_syscrashes` lie below the redo start of the last completed
checkpoint and below the first record of every transaction that it has seen or that has begun
since.  Archive creation and checkpoints keep this, and a removal stays below that archive as long
as its arithmetic stays in the range of an `int`.
-/

namespace Rye.Transaction.LogPage

open Foundation List LogLsa

namespace LogLsa

variable {a b : LogLsa}

theorem pageid_le_of_le (h : a.le b = true) : a.pageid <= b.pageid := by
  simp only [le, Bool.or_eq_true, Bool.and_eq_true, decide_eq_true_eq, beq_iff_eq] at h
  omega

theorem pageid_le_of_lt (h : a.lt b = true) : a.pageid <= b.pageid := by
  simp only [lt, Bool.or_eq_true, Bool.and_eq_true, decide_eq_true_eq, beq_iff_eq] at h
  omega

theorem pageid_le_of_not_lt (h : ¬ a.lt b = true) : b.pageid <= a.pageid := by
  simp only [lt, Bool.or_eq_true, Bool.and_eq_true, decide_eq_true_eq, beq_iff_eq] at h
  omega

end LogLsa

theorem int32_eq {x : Int} (hlow : -(2 ^ 31) <= x) (hhigh : x <= intMax) : int32 x = x := by
  rw [int32]
  rw [intMax] at hhigh
  exact Int.bmod_eq_of_le_mul_two (by omega) (by omega)

def LogState.redoStart (w : LogState) : LogLsa :=
  w.chkptRedoLsa.getD ⟨0, 0⟩

/-- Recovery from the last completed checkpoint does not read the page or any page before it. -/
structure LogState.Unneeded (w : LogState) (pageid : Int) : Prop where
  redo : pageid < w.redoStart.pageid
  first : forall lsa, lsa ∈ w.firsts -> pageid < lsa.pageid

/-- The removed archives are needed neither by recovery nor by a log writer, and there are not
more of them than asked for. -/
structure LogState.Spared (w : LogState) (removal : Removal) : Prop where
  unneeded : forall hdr, hdr ∈ w.arvs -> removal.first <= hdr.arvNum ->
    hdr.arvNum <= removal.last -> w.Unneeded hdr.lastPageid
  copied : forall hdr, hdr ∈ w.arvs -> removal.first <= hdr.arvNum ->
    hdr.arvNum <= removal.last -> forall fpageid, fpageid ∈ removal.writers ->
      hdr.lastPageid < fpageid
  count : 0 < removal.maxCount -> removal.last - removal.first + 1 <= removal.maxCount

/-- The arithmetic of a call stays in the range of an `int`. -/
def LogState.fits (w : LogState) : LogLabel -> Prop
  | .archive => w.hdr.nxarvNum < intMax
  | .remove _ maxCount _ _ => w.hdr.lastDeletedArvNum + 1 + maxCount <= intMax
  | _ => True

instance (w : LogState) (label : LogLabel) : Decidable (w.fits label) :=
  match label with
  | .archive => inferInstanceAs (Decidable (_ < _))
  | .remove _ _ _ _ => inferInstanceAs (Decidable (_ <= _))
  | .beginTran _ => .isTrue trivial
  | .log _ _ => .isTrue trivial
  | .endTran _ => .isTrue trivial
  | .drain _ _ => .isTrue trivial
  | .startChkpt _ => .isTrue trivial
  | .recordChkpt _ _ => .isTrue trivial
  | .trimChkpt _ => .isTrue trivial
  | .failChkpt => .isTrue trivial

structure LogState.Counters (w : LogState) : Prop where
  archived : Archived 0 w.arvs w.hdr.nxarvPageid
  nxarvNum : w.hdr.nxarvNum = w.arvs.length
  small : w.hdr.nxarvNum <= intMax
  syscrashes : w.hdr.lastArvNumForSyscrashes = -1 ∧ w.arvs = [] ∨
    0 <= w.hdr.lastArvNumForSyscrashes ∧ w.hdr.lastArvNumForSyscrashes <= w.hdr.nxarvNum
  deleted : -1 <= w.hdr.lastDeletedArvNum ∧ w.hdr.lastDeletedArvNum < w.hdr.nxarvNum ∨
    w.hdr.lastDeletedArvNum = -1
  unneeded : forall hdr, hdr ∈ w.arvs -> hdr.arvNum < w.hdr.lastArvNumForSyscrashes ->
    w.Unneeded hdr.lastPageid

/-- A transaction has begun before its first record, which is noted once it is written. -/
structure Tdes.Noted (w : LogState) (tdes : Tdes) : Prop where
  logged : tdes.lastLsa = none <-> tdes.first = none
  begun : tdes.beginLsa.pageid <= w.priorLsa.pageid
  first : forall lsa, tdes.first = some lsa -> tdes.beginLsa.pageid <= lsa.pageid ∧
    lsa.pageid <= w.priorLsa.pageid ∧ lsa ∈ w.firsts

def Phase.Knows (w : LogState) : Phase -> Prop
  | .idle => True
  | .started newchkptLsa =>
    w.redoStart.pageid <= newchkptLsa.pageid ∧ newchkptLsa.pageid <= w.priorLsa.pageid
  | .recorded redoLsa smallestLsa =>
    w.chkptRedoLsa = some redoLsa ∧ forall lsa, lsa ∈ w.firsts ->
      redoLsa.pageid <= lsa.pageid ∨
        exists smallest, smallestLsa = some smallest ∧ smallest.pageid <= lsa.pageid

structure LogState.Inv (w : LogState) : Prop where
  counters : w.Counters
  redo : w.redoStart.pageid <= w.priorLsa.pageid
  noted : forall tdes, tdes ∈ w.trantable -> tdes.Noted w
  phase : w.phase.Knows w
  spared : forall removal, removal ∈ w.removals -> w.Spared removal ∧ removal.last < w.hdr.nxarvNum

/-!
## Steps that leave the header alone
-/

section

variable {w t : LogState}

theorem LogState.Unneeded.advance {pageid : Int} (h : w.Unneeded pageid)
    (hredo : w.redoStart.pageid <= t.redoStart.pageid)
    (hfirsts : forall lsa, lsa ∈ t.firsts -> lsa ∈ w.firsts ∨ w.redoStart.pageid <= lsa.pageid) :
    t.Unneeded pageid := by
  have hlt := h.redo
  refine ⟨by omega, ?_⟩
  intro lsa hmem
  rcases hfirsts lsa hmem with hold | hnew
  · exact h.first lsa hold
  · omega

/-- The header, the archives and the removals are the same, and what was not needed still is
not. -/
structure LogState.Advances (w t : LogState) : Prop where
  hdr : t.hdr = w.hdr
  arvs : t.arvs = w.arvs
  removals : t.removals = w.removals
  unneeded : forall pageid, w.Unneeded pageid -> t.Unneeded pageid

theorem LogState.Advances.of_firsts (hhdr : t.hdr = w.hdr) (harvs : t.arvs = w.arvs)
    (hremovals : t.removals = w.removals) (hredo : w.redoStart.pageid <= t.redoStart.pageid)
    (hfirsts : forall lsa, lsa ∈ t.firsts ->
      lsa ∈ w.firsts ∨ w.redoStart.pageid <= lsa.pageid) : w.Advances t :=
  ⟨hhdr, harvs, hremovals, fun _ h => h.advance hredo hfirsts⟩

theorem LogState.Counters.advance (h : w.Counters) (hadv : w.Advances t) : t.Counters := by
  obtain ⟨harchived, hnxarvNum, hsmall, hsyscrashes, hdeleted, hunneeded⟩ := h
  rw [← hadv.hdr] at harchived hnxarvNum hsmall hsyscrashes hdeleted hunneeded
  rw [← hadv.arvs] at harchived hnxarvNum hsyscrashes hunneeded
  exact ⟨harchived, hnxarvNum, hsmall, hsyscrashes, hdeleted,
    fun hdr hmem hlt => hadv.unneeded _ (hunneeded hdr hmem hlt)⟩

theorem LogState.Spared.advance {removal : Removal} (h : w.Spared removal)
    (harvs : forall hdr, hdr ∈ t.arvs -> hdr.arvNum <= removal.last -> hdr ∈ w.arvs)
    (hunneeded : forall pageid, w.Unneeded pageid -> t.Unneeded pageid) : t.Spared removal where
  unneeded := fun hdr hmem hfirst hlast =>
    hunneeded _ (h.unneeded hdr (harvs hdr hmem hlast) hfirst hlast)
  copied := fun hdr hmem hfirst hlast => h.copied hdr (harvs hdr hmem hlast) hfirst hlast
  count := h.count

theorem LogState.Inv.advance (h : w.Inv) (hadv : w.Advances t)
    (hredo : t.redoStart.pageid <= t.priorLsa.pageid)
    (hnoted : forall tdes, tdes ∈ t.trantable -> tdes.Noted t) (hphase : t.phase.Knows t) :
    t.Inv where
  counters := h.counters.advance hadv
  redo := hredo
  noted := hnoted
  phase := hphase
  spared := by
    intro removal hmem
    rw [hadv.removals] at hmem
    rw [hadv.hdr]
    refine ⟨(h.spared removal hmem).1.advance ?_ hadv.unneeded, (h.spared removal hmem).2⟩
    exact fun hdr hmem _ => hadv.arvs ▸ hmem

theorem Tdes.Noted.advance {tdes : Tdes} (h : tdes.Noted w)
    (hprior : w.priorLsa.pageid <= t.priorLsa.pageid)
    (hfirsts : forall lsa, lsa ∈ w.firsts -> tdes.first = some lsa -> lsa ∈ t.firsts) :
    tdes.Noted t where
  logged := h.logged
  begun := le_trans h.begun hprior
  first := by
    intro lsa hlsa
    obtain ⟨hbegin, hle, hmem⟩ := h.first lsa hlsa
    exact ⟨hbegin, le_trans hle hprior, hfirsts lsa hmem hlsa⟩

theorem Phase.Knows.advance {phase : Phase} (h : phase.Knows w)
    (hchkpt : t.chkptRedoLsa = w.chkptRedoLsa) (hprior : w.priorLsa.pageid <= t.priorLsa.pageid)
    (hfirsts : forall lsa, lsa ∈ t.firsts -> lsa ∈ w.firsts ∨ w.redoStart.pageid <= lsa.pageid) :
    phase.Knows t := by
  cases phase with
  | idle => trivial
  | started newchkptLsa =>
    refine ⟨?_, le_trans h.2 hprior⟩
    rw [LogState.redoStart, hchkpt]
    exact h.1
  | recorded redoLsa smallestLsa =>
    refine ⟨hchkpt.trans h.1, ?_⟩
    intro lsa hmem
    rcases hfirsts lsa hmem with hold | hnew
    · exact h.2 lsa hold
    · rw [LogState.redoStart, h.1] at hnew
      exact .inl hnew

/-- What does not change with the header, the archives and the buffers. -/
theorem LogState.Inv.frame (h : w.Inv) (hprior : t.priorLsa = w.priorLsa)
    (hchkpt : t.chkptRedoLsa = w.chkptRedoLsa) (hfirsts : t.firsts = w.firsts) :
    (forall pageid, w.Unneeded pageid -> t.Unneeded pageid) ∧
      t.redoStart.pageid <= t.priorLsa.pageid ∧
      (forall tdes, tdes ∈ w.trantable -> tdes.Noted t) ∧ w.phase.Knows t := by
  have hredo : t.redoStart = w.redoStart := by rw [redoStart, redoStart, hchkpt]
  have hmem : forall lsa, lsa ∈ t.firsts -> lsa ∈ w.firsts ∨ w.redoStart.pageid <= lsa.pageid :=
    fun lsa hlsa => .inl (hfirsts ▸ hlsa)
  have hle : w.priorLsa.pageid <= t.priorLsa.pageid := by rw [hprior]
  refine ⟨fun _ hpage => hpage.advance (by rw [hredo]) hmem, ?_, ?_, h.phase.advance hchkpt hle hmem⟩
  · rw [hredo]
    exact le_trans h.redo hle
  · exact fun tdes htdes => (h.noted tdes htdes).advance hle fun _ hlsa _ => hfirsts ▸ hlsa

end

section

variable {w : LogState}

theorem LogState.Inv.beginTran (h : w.Inv) (trid : Nat) : (w.beginTran trid).Inv := by
  obtain ⟨hunneeded, hredo, hnoted, hphase⟩ := h.frame (t := w.beginTran trid) rfl rfl rfl
  refine h.advance ⟨rfl, rfl, rfl, hunneeded⟩ hredo ?_ hphase
  intro tdes hmem
  rcases mem_cons.mp hmem with rfl | hmem
  · refine ⟨by simp, le_refl _, ?_⟩
    intro lsa hlsa
    cases hlsa
  · exact hnoted tdes hmem

variable {next lsa : LogLsa} {smallestLsa : Option LogLsa} {redoLsa : LogLsa} {trid : Nat}

namespace LogState

/-- The first records after a log record: the ones before it, and its own if it is one. -/
theorem mem_firsts_log (h : lsa ∈ (w.log trid next).firsts) :
    lsa ∈ w.firsts ∨ lsa = w.priorLsa := by
  simp only [log] at h
  split at h
  · rcases mem_cons.mp h with rfl | h
    · exact .inr rfl
    · exact .inl h
  · exact .inl h

theorem mem_firsts_log_of_mem (h : lsa ∈ w.firsts) : lsa ∈ (w.log trid next).firsts := by
  simp only [log]
  split
  · exact mem_cons_of_mem _ h
  · exact h

theorem priorLsa_mem_firsts_log {tdes : Tdes} (hmem : tdes ∈ w.trantable)
    (htrid : tdes.trid = trid) (hfirst : tdes.first = none) :
    w.priorLsa ∈ (w.log trid next).firsts := by
  simp only [log]
  rw [if_pos]
  · exact mem_cons_self
  · rw [any_eq_true]
    exact ⟨tdes, hmem, by simp [htrid, hfirst]⟩

theorem Inv.log (h : w.Inv) (trid : Nat) (hnext : w.priorLsa.lt next = true) :
    (w.log trid next).Inv := by
  have hprior : w.priorLsa.pageid <= next.pageid := pageid_le_of_lt hnext
  have hfirsts : forall lsa, lsa ∈ (w.log trid next).firsts ->
      lsa ∈ w.firsts ∨ w.redoStart.pageid <= lsa.pageid := by
    intro lsa hmem
    rcases mem_firsts_log hmem with hold | rfl
    · exact .inl hold
    · exact .inr h.redo
  refine h.advance (.of_firsts rfl rfl rfl (le_refl _) hfirsts) (le_trans h.redo hprior) ?_ ?_
  · intro tdes hmem
    obtain ⟨old, hold, rfl⟩ := mem_map.mp hmem
    have hnoted : old.Noted (w.log trid next) :=
      (h.noted old hold).advance hprior fun _ hlsa _ => mem_firsts_log_of_mem hlsa
    split_ifs with htrid
    · refine ⟨by simp [logTdes], hnoted.begun, ?_⟩
      intro lsa hlsa
      cases hfirst : old.first with
      | none =>
        simp only [logTdes, hfirst, Option.getD_none, Option.some.injEq] at hlsa
        subst hlsa
        exact ⟨(h.noted old hold).begun, hprior, priorLsa_mem_firsts_log hold htrid hfirst⟩
      | some first =>
        simp only [logTdes, hfirst, Option.getD_some] at hlsa
        exact hnoted.first lsa (hfirst.trans hlsa)
    · exact hnoted
  · exact h.phase.advance rfl hprior hfirsts

theorem Inv.endTran (h : w.Inv) (trid : Nat) : (w.endTran trid).Inv := by
  obtain ⟨hunneeded, hredo, hnoted, hphase⟩ := h.frame (t := w.endTran trid) rfl rfl rfl
  exact h.advance ⟨rfl, rfl, rfl, hunneeded⟩ hredo
    (fun tdes hmem => hnoted tdes (mem_filter.mp hmem).1) hphase

theorem Inv.drain (h : w.Inv) (appendPageid prevPageid : Int) :
    ({ w with appendPageid := appendPageid, prevPageid := prevPageid } : LogState).Inv := by
  obtain ⟨hunneeded, hredo, hnoted, hphase⟩ :=
    h.frame (t := { w with appendPageid := appendPageid, prevPageid := prevPageid }) rfl rfl rfl
  exact h.advance ⟨rfl, rfl, rfl, hunneeded⟩ hredo hnoted hphase

theorem Inv.failChkpt (h : w.Inv) : ({ w with phase := .idle } : LogState).Inv := by
  obtain ⟨hunneeded, hredo, hnoted, _⟩ := h.frame (t := { w with phase := .idle }) rfl rfl rfl
  exact h.advance ⟨rfl, rfl, rfl, hunneeded⟩ hredo hnoted trivial

end LogState

/-!
## Checkpoints
-/

theorem LogState.Inv.startChkpt (h : w.Inv) (hnext : w.priorLsa.lt next = true) :
    (w.startChkpt next).Inv := by
  have hprior : w.priorLsa.pageid <= next.pageid := pageid_le_of_lt hnext
  refine h.advance (.of_firsts rfl rfl rfl (le_refl _) fun _ => .inl) (le_trans h.redo hprior) ?_
    ⟨h.redo, hprior⟩
  intro tdes hmem
  exact (h.noted tdes hmem).advance hprior fun _ hlsa _ => hlsa

/-- An address between the redo start of the last checkpoint and the end of the log. -/
def LogState.Within (w : LogState) (lsa : LogLsa) : Prop :=
  w.redoStart.pageid <= lsa.pageid ∧ lsa.pageid <= w.priorLsa.pageid

variable {flushUptoLsa : LogLsa}

theorem within_flushCheckpointPage {page : DirtyPage}
    (hsmallest : forall lsa, smallestLsa = some lsa -> w.Within lsa)
    (hpage : page.isCurrent w.priorLsa = true)
    (h : flushCheckpointPage flushUptoLsa w.chkptRedoLsa smallestLsa page = some lsa) :
    w.Within lsa := by
  rw [flushCheckpointPage] at h
  split at h
  · exact hsmallest lsa h
  rename_i before hbefore
  split_ifs at h with hskip
  · exact hsmallest lsa h
  split at h
  · exact hsmallest lsa h
  rename_i oldest hagain
  split_ifs at h with hsmaller
  · subst h
    rw [DirtyPage.isCurrent, hbefore, hagain] at hpage
    rw [Bool.and_eq_true] at hpage
    obtain ⟨hnow, hlogged⟩ := hpage
    have hnow := pageid_le_of_le hnow
    refine ⟨?_, pageid_le_of_le hlogged⟩
    -- an older change than the last redo start has been passed over
    rw [not_or, not_or] at hskip
    have hprev := hskip.2.2
    rw [LogState.redoStart]
    cases hchkpt : w.chkptRedoLsa with
    | none => exact Nat.zero_le _
    | some redoLsa =>
      rw [hchkpt] at hprev
      exact le_trans (pageid_le_of_not_lt hprev) hnow
  · exact hsmallest lsa h

variable {pages : List DirtyPage}

theorem within_pgbufFlushCheckpoint
    (hpages : forall page, page ∈ pages -> page.isCurrent w.priorLsa = true)
    (h : pgbufFlushCheckpoint flushUptoLsa w.chkptRedoLsa pages = some lsa) : w.Within lsa := by
  suffices hfold : forall smallestLsa : Option LogLsa,
      (forall lsa, smallestLsa = some lsa -> w.Within lsa) ->
        pages.foldl (flushCheckpointPage flushUptoLsa w.chkptRedoLsa) smallestLsa = some lsa ->
          w.Within lsa from
    hfold none (fun _ hnone => by cases hnone) h
  clear h
  induction pages with
  | nil => exact fun smallestLsa hsmallest h => hsmallest lsa h
  | cons page pages ih =>
    intro smallestLsa hsmallest h
    refine ih (fun page hmem => hpages page (mem_cons_of_mem _ hmem)) _ ?_ h
    intro lsa hlsa
    exact within_flushCheckpointPage hsmallest (hpages page mem_cons_self) hlsa

theorem smallestBegin_le (trantable : List Tdes) (smallest : LogLsa) :
    exists lsa, trantable.foldl smallestBeginStep (some smallest) = some lsa ∧
      lsa.pageid <= smallest.pageid := by
  induction trantable generalizing smallest with
  | nil => exact ⟨smallest, rfl, le_refl _⟩
  | cons tdes trantable ih =>
    rw [foldl_cons, smallestBeginStep]
    split_ifs with hlast hlt
    · exact ih _
    · obtain ⟨lsa, hlsa, hle⟩ := ih tdes.beginLsa
      refine ⟨lsa, hlsa, le_trans hle ?_⟩
      rcases hlt with hlt | hlt
      · cases hlt
      · exact pageid_le_of_lt hlt
    · exact ih _

theorem smallestBeginLsa_le {trantable : List Tdes} {tdes : Tdes} (hmem : tdes ∈ trantable)
    (hlast : tdes.lastLsa ≠ none) (start : Option LogLsa) :
    exists lsa, trantable.foldl smallestBeginStep start = some lsa ∧
      lsa.pageid <= tdes.beginLsa.pageid := by
  induction trantable generalizing start with
  | nil => cases hmem
  | cons first trantable ih =>
    rw [foldl_cons]
    rcases mem_cons.mp hmem with rfl | hmem
    · rw [smallestBeginStep, if_neg hlast]
      split_ifs with hlt
      · exact smallestBegin_le _ _
      rw [not_or] at hlt
      obtain ⟨smallest, rfl⟩ := Option.ne_none_iff_exists'.mp hlt.1
      obtain ⟨lsa, hlsa, hle⟩ := smallestBegin_le trantable smallest
      exact ⟨lsa, hlsa, le_trans hle (pageid_le_of_not_lt hlt.2)⟩
    · exact ih hmem _

theorem LogState.Inv.recordChkpt (h : w.Inv) {newchkptLsa : LogLsa}
    (hphase : w.phase = .started newchkptLsa) (hnext : w.priorLsa.lt next = true)
    (hpages : forall page, page ∈ pages -> page.isCurrent w.priorLsa = true) :
    (w.recordChkpt newchkptLsa pages next).Inv := by
  have hprior : w.priorLsa.pageid <= next.pageid := pageid_le_of_lt hnext
  have hknows := h.phase
  rw [hphase] at hknows
  have hwithin : w.Within
      ((pgbufFlushCheckpoint newchkptLsa w.chkptRedoLsa pages).getD newchkptLsa) := by
    cases hflush : pgbufFlushCheckpoint newchkptLsa w.chkptRedoLsa pages with
    | none => exact hknows
    | some redoLsa => exact within_pgbufFlushCheckpoint hpages hflush
  -- the transactions of the checkpoint are active, so their first records have been noted
  have hfirsts : forall lsa, lsa ∈ w.trantable.filterMap Tdes.first ->
      exists tdes, tdes ∈ w.trantable ∧ tdes.first = some lsa := by
    intro lsa hmem
    exact mem_filterMap.mp hmem
  refine h.advance (.of_firsts rfl rfl rfl hwithin.1 ?_) (le_trans hwithin.2 hprior) ?_ ⟨rfl, ?_⟩
  · intro lsa hmem
    obtain ⟨tdes, htdes, hfirst⟩ := hfirsts lsa hmem
    exact .inl ((h.noted tdes htdes).first lsa hfirst).2.2
  · intro tdes hmem
    refine (h.noted tdes hmem).advance hprior ?_
    intro lsa _ hfirst
    exact mem_filterMap.mpr ⟨tdes, hmem, hfirst⟩
  intro lsa hmem
  obtain ⟨tdes, htdes, hfirst⟩ := hfirsts lsa hmem
  have hnoted := h.noted tdes htdes
  have hlast : tdes.lastLsa ≠ none := by
    rw [ne_eq, hnoted.logged, hfirst]
    exact Option.some_ne_none lsa
  obtain ⟨smallest, hsmallest, hle⟩ := smallestBeginLsa_le htdes hlast none
  exact .inr ⟨smallest, hsmallest, le_trans hle (hnoted.first lsa hfirst).1⟩

/-!
## Archives
-/

theorem LogState.view_sees (w : LogState) (answers : Answers) : (w.view answers).Sees w.arvs := by
  refine ⟨?_, ?_⟩
  · intro hdr hcached
    obtain ⟨i, _, hi⟩ := Option.bind_eq_some_iff.mp hcached
    exact mem_of_getElem? hi
  intro arvNum hdr hmount
  change w.mountOf answers arvNum = _ at hmount
  rw [LogState.mountOf] at hmount
  split at hmount
  · cases hmount
  rename_i found hfind
  split_ifs at hmount
  cases hmount
  exact ⟨mem_of_find?_eq_some hfind, by simpa using find?_some hfind⟩

theorem LogState.Counters.addArchive (h : w.Counters) {lastPageid : Int}
    (hlast : w.hdr.nxarvPageid <= lastPageid) (hfits : w.hdr.nxarvNum < intMax) :
    (w.addArchive lastPageid).Counters := by
  have hnum := h.nxarvNum
  have hint : int32 (w.hdr.nxarvNum + 1) = w.hdr.nxarvNum + 1 :=
    int32_eq (by omega) (by omega)
  have hdeleted := h.deleted
  have hsyscrashes := h.syscrashes
  refine ⟨?_, ?_, ?_, ?_, ?_, ?_⟩
  · have hsnoc : Archived 0
        (w.arvs ++ [⟨w.arvs.length, w.hdr.nxarvPageid, lastPageid - w.hdr.nxarvPageid + 1⟩])
        (w.hdr.nxarvPageid + (lastPageid - w.hdr.nxarvPageid + 1)) :=
      h.archived.snoc (by omega)
    rw [← hnum] at hsnoc
    have hend : w.hdr.nxarvPageid + (lastPageid - w.hdr.nxarvPageid + 1) = lastPageid + 1 := by
      omega
    rw [hend] at hsnoc
    exact hsnoc
  · simp only [LogState.addArchive, hint, length_append, length_singleton]
    omega
  · simp only [LogState.addArchive, hint]
    omega
  · simp only [LogState.addArchive, hint]
    right
    split_ifs with hnull <;> omega
  · simp only [LogState.addArchive, hint]
    omega
  · intro hdr hmem hlt
    simp only [LogState.addArchive] at hmem hlt
    rcases mem_append.mp hmem with hmem | hmem
    · split_ifs at hlt with hnull
      · rcases hsyscrashes with ⟨_, hnil⟩ | hsyscrashes
        · rw [hnil] at hmem
          cases hmem
        · omega
      · exact (h.unneeded hdr hmem hlt).advance (le_refl _) fun _ => .inl
    · rw [mem_singleton] at hmem
      rw [hmem] at hlt
      dsimp only at hlt
      split_ifs at hlt <;> omega

theorem LogState.Inv.archive (h : w.Inv) (hfits : w.hdr.nxarvNum < intMax) :
    w.archiveActiveLog.Inv := by
  rw [LogState.archiveActiveLog]
  split_ifs with happend
  · exact h
  have hnum := h.counters.nxarvNum
  obtain ⟨hunneeded, hredo, hnoted, hphase⟩ :=
    h.frame (t := w.addArchive (max (w.prevPageid - 1) w.hdr.nxarvPageid)) rfl rfl rfl
  refine ⟨h.counters.addArchive (le_max_right _ _) hfits, hredo, hnoted, hphase, ?_⟩
  intro removal hmem
  obtain ⟨hspared, hlt⟩ := h.spared removal hmem
  refine ⟨hspared.advance ?_ hunneeded, ?_⟩
  · -- the new archive has a larger number than any that was removed
    intro hdr hhdr hle
    rcases mem_append.mp hhdr with hhdr | hhdr
    · exact hhdr
    · rw [mem_singleton] at hhdr
      rw [hhdr] at hle
      exact absurd hle (not_le.mpr hlt)
  · simp only [LogState.addArchive]
    rw [int32_eq (by omega) (by omega)]
    omega

/-!
## The first archive that is needed
-/

/-- The page at which recovery begins is not above the redo start or the first record of a
transaction. -/
theorem LogState.smallestPageid_le (h : (Phase.recorded redoLsa smallestLsa).Knows w) :
    w.smallestPageid redoLsa smallestLsa <= w.redoStart.pageid ∧
      forall lsa, lsa ∈ w.firsts -> w.smallestPageid redoLsa smallestLsa <= lsa.pageid := by
  have hredo : w.smallestPageid redoLsa smallestLsa <= redoLsa.pageid := by
    simp only [LogState.smallestPageid]
    cases w.flushedLsaLowerBound <;> cases smallestLsa <;> dsimp only <;> omega
  refine ⟨?_, ?_⟩
  · rw [LogState.redoStart, h.1]
    exact hredo
  intro lsa hmem
  rcases h.2 lsa hmem with hle | ⟨smallest, rfl, hle⟩
  · omega
  have hsmallest : w.smallestPageid redoLsa (some smallest) <= smallest.pageid := by
    simp only [LogState.smallestPageid]
    exact min_le_right _ _
  omega

theorem LogState.neg_one_le_smallestPageid (w : LogState) (redoLsa : LogLsa)
    (smallestLsa : Option LogLsa) : -1 <= w.smallestPageid redoLsa smallestLsa := by
  simp only [LogState.smallestPageid]
  cases w.flushedLsaLowerBound <;> cases smallestLsa <;> dsimp only <;> omega

theorem LogState.unneeded_of_lt (h : (Phase.recorded redoLsa smallestLsa).Knows w) {pageid : Int}
    (hlt : pageid < w.smallestPageid redoLsa smallestLsa) : w.Unneeded pageid := by
  obtain ⟨hredo, hfirsts⟩ := LogState.smallestPageid_le h
  exact ⟨lt_of_lt_of_le hlt hredo, fun lsa hmem => lt_of_lt_of_le hlt (hfirsts lsa hmem)⟩

/-- The archive that recovery begins with, as `logpb_checkpoint` computes it. -/
def LogState.trimmed (w : LogState) (redoLsa : LogLsa) (smallestLsa : Option LogLsa)
    (answers : Answers) : Int :=
  (w.trimChkpt redoLsa smallestLsa answers).hdr.lastArvNumForSyscrashes

theorem LogState.trimmed_spec (h : w.Counters)
    (hknows : (Phase.recorded redoLsa smallestLsa).Knows w) (answers : Answers) :
    w.trimmed redoLsa smallestLsa answers = w.hdr.lastArvNumForSyscrashes ∨
      (w.hdr.lastArvNumForSyscrashes <= w.trimmed redoLsa smallestLsa answers ∧
        w.trimmed redoLsa smallestLsa answers <= w.hdr.nxarvNum ∧
        w.hdr.lastArvNumForSyscrashes ≠ -1 ∧
        forall hdr, hdr ∈ w.arvs -> hdr.arvNum < w.trimmed redoLsa smallestLsa answers ->
          w.Unneeded hdr.lastPageid) := by
  have hsyscrashes := h.syscrashes
  simp only [LogState.trimmed, LogState.trimChkpt]
  split_ifs with hneeds hin
  · split
    · exact .inl rfl
    rename_i found hfetch
    obtain ⟨hmem, hnum, hholds⟩ := fetchFromArchive_sound (w.view_sees answers) hfetch
    split_ifs with hle
    · exact .inl rfl
    have hbounds := h.archived.bounds hmem
    have hlen := h.nxarvNum
    refine .inr ⟨by omega, by omega, hneeds.2, ?_⟩
    intro hdr hhdr hlt
    rw [← hnum] at hlt
    apply LogState.unneeded_of_lt hknows
    exact lt_of_lt_of_le (h.archived.ordered hhdr hmem hlt) hholds.1
  · refine .inr ⟨by omega, le_refl _, hneeds.2, ?_⟩
    intro hdr hhdr _
    apply LogState.unneeded_of_lt hknows
    have hbounds := h.archived.bounds hhdr
    simp only [LogState.isPageInArchive, Bool.and_eq_true, bne_iff_ne, ne_eq,
      decide_eq_true_eq, not_and, not_lt] at hin
    have hlow := w.neg_one_le_smallestPageid redoLsa smallestLsa
    exact lt_of_lt_of_le hbounds.2.1 (hin (by omega))
  · exact .inl rfl

theorem LogState.Inv.trimChkpt (h : w.Inv) (hphase : w.phase = .recorded redoLsa smallestLsa)
    (answers : Answers) : (w.trimChkpt redoLsa smallestLsa answers).Inv := by
  have hknows := h.phase
  rw [hphase] at hknows
  have hspec := LogState.trimmed_spec h.counters hknows answers
  have hc := h.counters
  have hsyscrashes := hc.syscrashes
  obtain ⟨hframe, hredo, hnoted, _⟩ :=
    h.frame (t := w.trimChkpt redoLsa smallestLsa answers) rfl rfl rfl
  refine ⟨⟨hc.archived, hc.nxarvNum, hc.small, ?_, hc.deleted, ?_⟩, hredo, hnoted, trivial, ?_⟩
  · change w.trimmed redoLsa smallestLsa answers = -1 ∧ w.arvs = [] ∨
      0 <= w.trimmed redoLsa smallestLsa answers ∧
        w.trimmed redoLsa smallestLsa answers <= w.hdr.nxarvNum
    rcases hspec with hsame | ⟨hle, hnum, hset, _⟩
    · rw [hsame]
      exact hsyscrashes
    · omega
  · intro hdr hmem hlt
    change hdr.arvNum < w.trimmed redoLsa smallestLsa answers at hlt
    apply hframe
    rcases hspec with hsame | ⟨_, _, _, hbelow⟩
    · rw [hsame] at hlt
      exact hc.unneeded hdr hmem hlt
    · exact hbelow hdr hmem hlt
  · intro removal hmem
    obtain ⟨hspared, hlt⟩ := h.spared removal hmem
    exact ⟨hspared.advance (fun _ hhdr _ => hhdr) hframe, hlt⟩

/-!
## Removal
-/

theorem foldl_min_le (writers : List Int) (start : Int) :
    writers.foldl min start <= start ∧
      forall fpageid, fpageid ∈ writers -> writers.foldl min start <= fpageid := by
  induction writers generalizing start with
  | nil => exact ⟨le_refl _, fun _ hmem => by cases hmem⟩
  | cons fpageid writers ih =>
    obtain ⟨hstart, hall⟩ := ih (min start fpageid)
    refine ⟨le_trans hstart (min_le_left _ _), ?_⟩
    intro fpageid' hmem
    rcases mem_cons.mp hmem with rfl | hmem
    · exact le_trans hstart (min_le_right _ _)
    · exact hall fpageid' hmem

variable {writers : List Int}

theorem logwrGetMinCopiedFpageid_le {pageid : Int}
    (h : logwrGetMinCopiedFpageid writers = some pageid) :
    pageid ≠ -9 ∧ forall fpageid, fpageid ∈ writers -> pageid <= fpageid := by
  simp only [logwrGetMinCopiedFpageid] at h
  split_ifs at h with hnull
  rw [not_or, not_or] at hnull
  cases h
  exact ⟨hnull.2.1, (foldl_min_le writers _).2⟩

namespace LogState

theorem numRemoveArvNum_spec (h : w.Counters) {logMaxArchives numRemove : Int}
    {answers : Answers} (hnum : w.numRemoveArvNum logMaxArchives writers answers = some numRemove)
    (hlow : 0 <= logMaxArchives) (hhigh : logMaxArchives <= intMax) :
    0 <= numRemove ∧ numRemove <= intMax ∧
      forall hdr, hdr ∈ w.arvs -> hdr.arvNum < w.hdr.nxarvNum - numRemove ->
        forall fpageid, fpageid ∈ writers -> hdr.lastPageid < fpageid := by
  have hsmall := h.small
  rw [numRemoveArvNum] at hnum
  split at hnum
  · cases hnum
  rename_i minCopied hmin
  obtain ⟨hheader, hmin⟩ := logwrGetMinCopiedFpageid_le hmin
  by_cases hin : w.isPageInArchive minCopied = true
  · rw [if_pos hin] at hnum
    by_cases hnone : getArchiveNumber w.hdr.nxarvNum (w.view answers) minCopied = -1
    · rw [if_pos hnone] at hnum
      cases hnum
    rw [if_neg hnone, Option.some.injEq] at hnum
    obtain ⟨found, hmem, hfound, hholds⟩ :=
      getArchiveNumber_sound h.archived (w.view_sees answers) hnone
    rw [← hfound] at hnum
    have hbounds := h.archived.bounds hmem
    -- one archive more is kept, unless it is one of the first two
    have hkeep : w.hdr.nxarvNum - found.arvNum <= numRemove ∧ 0 <= numRemove ∧
        numRemove <= intMax := by
      split_ifs at hnum <;> omega
    refine ⟨hkeep.2.1, hkeep.2.2, ?_⟩
    intro hdr hhdr hlt fpageid hwriter
    have hordered := h.archived.ordered hhdr hmem (by omega)
    exact lt_of_lt_of_le hordered (le_trans hholds.1 (hmin fpageid hwriter))
  · rw [if_neg hin] at hnum
    cases hnum
    refine ⟨hlow, hhigh, ?_⟩
    intro hdr hhdr _ fpageid hwriter
    have hbounds := h.archived.bounds hhdr
    simp only [isPageInArchive, Bool.and_eq_true, bne_iff_ne, ne_eq,
      decide_eq_true_eq, not_and, not_lt] at hin
    exact lt_of_lt_of_le hbounds.2.1 (le_trans (hin hheader) (hmin fpageid hwriter))

theorem lastArvNumToDelete_le (h : w.Counters) {numRemove maxCount : Int}
    (hlow : 0 <= numRemove) (hhigh : numRemove <= intMax)
    (hfits : w.hdr.lastDeletedArvNum + 1 + maxCount <= intMax) :
    w.lastArvNumToDelete numRemove maxCount < w.hdr.nxarvNum - numRemove ∧
      (w.hdr.lastArvNumForSyscrashes ≠ -1 ->
        w.lastArvNumToDelete numRemove maxCount < w.hdr.lastArvNumForSyscrashes) ∧
      (0 < maxCount -> w.lastArvNumToDelete numRemove maxCount <
        w.hdr.lastDeletedArvNum + 1 + maxCount) := by
  have hsmall := h.small
  have hnum := h.nxarvNum
  have hdeleted := h.deleted
  have hsyscrashes := h.syscrashes
  have hmax : intMax = 2 ^ 31 - 1 := rfl
  simp only [lastArvNumToDelete]
  by_cases hcount : maxCount > 0
  · rw [if_pos hcount, int32_eq (x := w.hdr.lastDeletedArvNum + 1 + maxCount) (by omega) hfits]
    split_ifs <;> rw [int32_eq (by omega) (by omega)] <;> omega
  · rw [if_neg hcount]
    split_ifs <;> rw [int32_eq (by omega) (by omega)] <;> omega

theorem Inv.remove (h : w.Inv) {logMaxArchives maxCount : Int} {answers : Answers}
    (hlow : 0 <= logMaxArchives) (hhigh : logMaxArchives <= intMax)
    (hfits : w.hdr.lastDeletedArvNum + 1 + maxCount <= intMax) :
    (w.removeArchiveLogsExceedLimit logMaxArchives maxCount writers answers).Inv := by
  have hc := h.counters
  simp only [removeArchiveLogsExceedLimit]
  split_ifs
  · exact h
  split
  · exact h
  rename_i numRemove hnumRemove
  split_ifs with hexceeds
  · obtain ⟨hkeep, hkeep', hcopied⟩ :=
      numRemoveArvNum_spec hc hnumRemove hlow hhigh
    obtain ⟨hnum, hsys, hcount⟩ := lastArvNumToDelete_le hc hkeep hkeep' hfits
    have hdeleted := hc.deleted
    have hsyscrashes := hc.syscrashes
    obtain ⟨hframe, hredo, hnoted, hphase⟩ := h.frame
      (t := { w with
        hdr := { w.hdr with lastDeletedArvNum := w.lastArvNumToDelete numRemove maxCount }
        removals := w.removals ++ [⟨w.hdr.lastDeletedArvNum + 1,
          w.lastArvNumToDelete numRemove maxCount, maxCount, writers⟩] }) rfl rfl rfl
    refine ⟨⟨hc.archived, hc.nxarvNum, hc.small, hc.syscrashes, ?_, ?_⟩, hredo, hnoted, hphase, ?_⟩
    · left
      dsimp only
      omega
    · exact fun hdr hmem hlt => hframe _ (hc.unneeded hdr hmem hlt)
    intro removal hmem
    rcases mem_append.mp hmem with hmem | hmem
    · obtain ⟨hspared, hlt⟩ := h.spared removal hmem
      exact ⟨hspared.advance (fun _ hhdr _ => hhdr) hframe, hlt⟩
    rw [mem_singleton] at hmem
    subst hmem
    refine ⟨⟨?_, ?_, ?_⟩, ?_⟩
    · intro hdr hhdr hfirst hlast
      dsimp only at hfirst hlast
      have hset : w.hdr.lastArvNumForSyscrashes ≠ -1 := by
        intro hnull
        rcases hsyscrashes with ⟨_, hnil⟩ | hset
        · rw [hnil] at hhdr
          cases hhdr
        · omega
      exact hframe _ (hc.unneeded hdr hhdr (by omega))
    · intro hdr hhdr _ hlast
      dsimp only at hlast
      exact hcopied hdr hhdr (by omega)
    · intro hpos
      have := hcount hpos
      dsimp only
      omega
    · dsimp only
      omega
  · exact h

end LogState

end

/-!
## Runs
-/

theorem LogState.Inv.step {w : LogState} (h : w.Inv) {label : LogLabel} (hfits : w.fits label)
    (henabled : w.enabled label = true) : (w.next label).Inv := by
  cases label with
  | beginTran trid => exact h.beginTran trid
  | log trid next =>
    simp only [LogState.enabled, Bool.and_eq_true] at henabled
    exact h.log trid henabled.2
  | endTran trid => exact h.endTran trid
  | drain appendPageid prevPageid => exact h.drain appendPageid prevPageid
  | archive => exact h.archive hfits
  | startChkpt next =>
    simp only [LogState.enabled, Bool.and_eq_true] at henabled
    exact h.startChkpt henabled.2
  | recordChkpt pages next =>
    cases hphase : w.phase with
    | idle | recorded redoLsa smallestLsa => simp [LogState.enabled, hphase] at henabled
    | started newchkptLsa =>
      simp only [LogState.enabled, hphase, Bool.and_eq_true, all_eq_true] at henabled
      simp only [LogState.next, hphase]
      exact h.recordChkpt hphase henabled.1 henabled.2
  | trimChkpt answers =>
    cases hphase : w.phase with
    | idle | started newchkptLsa => simp [LogState.enabled, hphase] at henabled
    | recorded redoLsa smallestLsa =>
      simp only [LogState.next, hphase]
      exact h.trimChkpt hphase answers
  | failChkpt => exact h.failChkpt
  | remove logMaxArchives maxCount writers answers =>
    simp only [LogState.enabled, decide_eq_true_eq] at henabled
    exact h.remove (Int.natCast_nonneg _) henabled hfits

theorem LogState.inv_start : LogState.start.Inv := by
  refine ⟨⟨.nil, rfl, by decide, .inl ⟨rfl, rfl⟩, .inr rfl, ?_⟩, le_refl _, ?_, trivial, ?_⟩
  · intro hdr hmem
    cases hmem
  · intro tdes hmem
    cases hmem
  · intro removal hmem
    cases hmem

/-- In every run whose archive numbers stay in the range of an `int`, every archive removed so
far lies below what recovery from the last completed checkpoint reads and below what the log
writers had still to copy, and no call has removed more archives than its maximum. -/
theorem removed_archives_unneeded {w : LogState}
    (h : (archiving.guarded LogState.fits).Reachable w) :
    forall removal, removal ∈ w.removals -> w.Spared removal := by
  have hinv : w.Inv := by
    refine h.guarded_invariant LogState.Inv ?_ ?_
    · rintro w rfl
      exact LogState.inv_start
    · rintro w label t hw hfits ⟨henabled, rfl⟩
      exact hw.step hfits henabled
  intro removal hmem
  exact (hinv.spared removal hmem).1

/-- One archive is created, a checkpoint finds that it is not needed, and it is removed. -/
def firstRemoval : List LogLabel :=
  [.beginTran 1, .log 1 ⟨10, 0⟩, .endTran 1, .drain 10 9, .archive, .startChkpt ⟨11, 0⟩,
    .recordChkpt [] ⟨12, 0⟩, .trimChkpt ⟨none, 0, [], []⟩, .remove 0 1 [100] ⟨none, 0, [], []⟩]

theorem removed_archives_unneeded_first :
    let w := firstRemoval.foldl LogState.next .start
    w.removals = [⟨0, 0, 1, [100]⟩] ∧ w.Spared ⟨0, 0, 1, [100]⟩ :=
  ⟨by decide +kernel, removed_archives_unneeded
    (System.reachable_guarded_of_follows firstRemoval (by decide +kernel)) _ (by decide +kernel)⟩

/-- After one more archive a call asks for at most 2147483647 archives.  The sum with the first
one to delete overflows, the decrement overflows back, and the archive that recovery begins with
is removed. -/
theorem removal_overflow :
    let labels := firstRemoval ++ [.beginTran 2, .log 2 ⟨20, 0⟩, .drain 20 19, .archive,
      .remove 0 2147483647 [100] ⟨none, 0, [], []⟩]
    let w := labels.foldl LogState.next .start
    archiving.Reachable w ∧ ⟨1, 2147483647, 2147483647, [100]⟩ ∈ w.removals ∧
      ⟨1, 9, 10⟩ ∈ w.arvs ∧ w.redoStart = ⟨10, 0⟩ ∧
      ¬ w.Spared ⟨1, 2147483647, 2147483647, [100]⟩ := by
  refine ⟨System.reachable_of_follows _ (by decide +kernel), by decide +kernel, by decide +kernel,
    by decide +kernel, ?_⟩
  intro h
  have hunneeded := h.unneeded ⟨1, 9, 10⟩ (by decide +kernel) (by decide) (by decide)
  have hredo := hunneeded.redo
  revert hredo
  decide +kernel

end Rye.Transaction.LogPage
