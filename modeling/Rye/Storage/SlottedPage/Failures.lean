import Rye.Storage.SlottedPage.Undo

/-!
# Calls that fail

A call that does not succeed may have compacted the page, which only moves records.  There is one
exception: `spage_update` saves the space it has freed after the record is in its place, and when
no memory is left for that it reports an error with the new record on the page.
-/

namespace Rye.Storage

open Foundation SpageOp

/-- What callers see of a page; the offsets of the records are not part of it. -/
structure SameContent (page page' : SpagePage) : Prop where
  numSlots : page'.numSlots = page.numSlots
  numRecords : page'.numRecords = page.numRecords
  totalFree : page'.totalFree = page.totalFree
  type : forall i : Nat, i < page.numSlots -> (page'.slot i).recordType = (page.slot i).recordType
  length : forall i : Nat, i < page.numSlots ->
    (page'.slot i).recordLength = (page.slot i).recordLength
  record : forall i : Nat, i < page.numSlots ->
    recordOf page'.bytes (page'.slot i) = recordOf page.bytes (page.slot i)

/-- If the call does not return `SP_SUCCESS`, the content of the page is as before. -/
def SpageOp.FailsUnseen (thread : ThreadEntry) (page : SpagePage) : SpageOp -> Prop
  | .insert recdes =>
    (spageInsert thread page recdes).1 ≠ .success ->
      SameContent page (spageInsert thread page recdes).2.1
  | .insertAt slotId recdes =>
    (spageInsertAt thread page slotId recdes).1 ≠ .success ->
      SameContent page (spageInsertAt thread page slotId recdes).2
  | .update slotId recdes =>
    (spageUpdate thread page slotId recdes).1 ≠ .success ->
      SameContent page (spageUpdate thread page slotId recdes).2
  | .insertForRecovery _ _ | .delete _ | .compact => True

/-- The space that an update frees can be saved for the transaction. -/
def SpageOp.CanSave (thread : ThreadEntry) (page : SpagePage) : SpageOp -> Prop
  | .update slotId recdes =>
    page.isSaving = true -> forall slot space,
      spageCheckUpdatable thread page slotId recdes = .ok (slot, space) ->
        (spageSaveSpace thread page (-space)).1 = true
  | _ => True

/-!
## Failures before the change
-/

variable {page page' : SpagePage} {space : Int}

theorem MaybeCompacted.sameContent (h : MaybeCompacted page page') : SameContent page page' := by
  cases h with
  | inl h =>
    subst h
    exact ⟨rfl, rfl, rfl, fun _ _ => rfl, fun _ _ => rfl, fun _ _ => rfl⟩
  | inr h =>
    refine ⟨h.numSlots, ?_, ?_, h.type, h.length, h.record⟩
    · rw [h.same]
    · rw [h.same]

theorem Effect.sameContent {types : List RecType} (h : Effect page page' page.contents types)
    (hpage : Accounts page.area page.slots) (hslots : page'.slots = page.slots) :
    SameContent page page' := by
  have hnum : page'.numSlots = page.numSlots := by
    rw [← page'.length_slots, hslots, page.length_slots]
  have hslot : forall i : Nat, i < page.numSlots -> page'.slot i = page.slot i := by
    intro i hi
    have hlt : i < page.slots.length := by rwa [page.length_slots]
    have hlt' : i < page'.slots.length := by rwa [hslots]
    rw [← SpagePage.getElem_slots hlt, ← SpagePage.getElem_slots hlt']
    simp only [hslots]
  refine ⟨hnum, ?_, ?_, ?_, ?_, ?_⟩
  · have hold : page.numRecords = page.slots.countP SpageSlot.occupied := hpage.numRecords
    have hnew : page'.numRecords = page'.slots.countP SpageSlot.occupied := h.accounts.numRecords
    rw [hnew, hslots, hold]
  · have hold : page.totalFree = dbPagesize - sizeofSpageHeader - 4 * page.slots.length -
        usedSpace page.alignment page.slots := hpage.totalFree
    have hnew : page'.totalFree = dbPagesize - sizeofSpageHeader - 4 * page'.slots.length -
        usedSpace page'.alignment page'.slots := h.accounts.totalFree
    rw [hnew, hslots, h.alignment, hold]
  · intro i hi
    rw [hslot i hi]
  · intro i hi
    rw [hslot i hi]
  · intro i hi
    have hlt : i < page.contents.length := by rwa [length_contents]
    have hlt' : i < page'.contents.length := by rwa [length_contents, hnum]
    rw [← getElem_contents hlt, ← getElem_contents hlt']
    simp only [h.contents]

/-!
## Saving the freed space

The saved space depends on the savings of the page only, which the update leaves alone.
-/

variable (thread : ThreadEntry)

theorem spageSaveSpace_congr (space : Int) (h : page'.saveHead = page.saveHead) :
    (spageSaveSpace thread page' space).1 = (spageSaveSpace thread page space).1 := by
  unfold spageSaveSpace
  rw [h]
  cases page.saveHead <;> dsimp only <;> split_ifs <;> rfl

theorem spageSaveSpace_page (page : SpagePage) (space : Int) :
    (spageSaveSpace thread page space).2.totalFree = page.totalFree := by
  unfold spageSaveSpace
  cases page.saveHead <;> dsimp only <;> split_ifs <;> rfl

theorem spageSaveSpace_of_nonpos (page : SpagePage) (h : space <= 0) :
    (spageSaveSpace thread page space).1 = true := by
  unfold spageSaveSpace
  by_cases hzero : (space = 0 || thread.inCrashRecovery) = true
  · rw [if_pos hzero]
  rw [if_neg hzero, if_pos]
  simp only [Bool.or_eq_true, decide_eq_true_eq, not_or] at hzero
  simp only [Bool.or_eq_true, decide_eq_true_eq]
  left
  omega

/-- After the record has been replaced, the page has `space` less. -/
theorem Effect.totalFree_updated {after : SpagePage} {k : Nat} {recdes : RecDes} {type : RecType}
    (hpage : Accounts page.area page.slots) (hk : k < page.numSlots)
    (hocc : (page.slot k).occupied = true) (h0 : 0 <= recdes.length)
    (hspace : space = dbAlign recdes.length page.alignment - (page.slot k).size page.alignment)
    (h : Effect page after (page.contents.set k (some (recdes.record type))) page.types) :
    after.totalFree - page.totalFree = -space := by
  have hold : page.sizes k = some ((page.slot k).size page.alignment) := by
    rw [sizes_eq hk, if_pos hocc]
  have hnew : Record.space page.alignment (recdes.record type) =
      dbAlign recdes.length page.alignment := by
    rw [Record.space, RecDes.record, List.length_map, List.length_range, Int.toNat_of_nonneg h0]
  have hfree : after.totalFree = page.totalFree + (page.slot k).size page.alignment -
      dbAlign recdes.length page.alignment := by
    rw [h.totalFree_set hpage hk, spaceOf, Option.map_some, hnew, hold]
    rfl
  omega

/-- How an update ends once the record is in its place. -/
def savedUpdate (thread : ThreadEntry) (page after : SpagePage) : SpStatus × SpagePage :=
  if page.isSaving then
    match spageSaveSpace thread after (after.totalFree - page.totalFree) with
    | (true, page) => (.success, page)
    | (false, page) => (.error, page)
  else (.success, after)

theorem savedUpdate_failsUnseen_iff {after : SpagePage} (hhead : after.saveHead = page.saveHead)
    (hfree : after.totalFree - page.totalFree = -space) :
    ((savedUpdate thread page after).1 ≠ .success ->
        SameContent page (savedUpdate thread page after).2) <->
      (page.isSaving = true -> (spageSaveSpace thread page (-space)).1 = true) := by
  unfold savedUpdate
  rw [hfree, ← spageSaveSpace_congr thread (-space) hhead]
  by_cases hsaving : page.isSaving = true
  · rw [if_pos hsaving]
    have hpage := spageSaveSpace_page thread after (-space)
    rcases hsave : spageSaveSpace thread after (-space) with ⟨saved, page'⟩
    rw [hsave] at hpage
    cases saved with
    | true => exact ⟨fun _ _ => rfl, fun _ hfail => absurd rfl hfail⟩
    | false =>
      refine ⟨fun hsame => ?_, fun hsaved => absurd (hsaved hsaving) Bool.false_ne_true⟩
      -- Only a positive amount has to be saved, so the free space has changed.
      have htotal := (hsame nofun).totalFree
      change page'.totalFree = page.totalFree at htotal
      change page'.totalFree = after.totalFree at hpage
      have htrue := spageSaveSpace_of_nonpos thread after (le_of_eq (show -space = 0 by omega))
      rw [hsave] at htrue
      cases htrue
  · rw [if_neg hsaving]
    exact ⟨fun _ h => absurd h hsaving, fun _ hfail => absurd rfl hfail⟩

/-!
## All failures
-/

section

variable {page : SpagePage} (hpage : Consistent page) (thread : ThreadEntry)
include hpage

theorem spageUpdate_failsUnseen_iff (slotId : Int) (recdes : RecDes) :
    (update slotId recdes).FailsUnseen thread page <->
      (update slotId recdes).CanSave thread page := by
  dsimp only [FailsUnseen, CanSave]
  rcases spageUpdate_spec thread hpage slotId recdes with
    ⟨status, page', hrun, _, heffect, hslots, hspace⟩ |
    ⟨k, after, rfl, hk, hocc, h0, heffect, hrun, hcheck⟩
  · -- The record would get longer, so there is nothing to save.
    have hsave (slot space) (h : spageCheckUpdatable thread page slotId recdes = .ok (slot, space)) :=
      spageSaveSpace_of_nonpos thread page (Int.neg_nonpos_of_nonneg (hspace slot space h))
    rw [hrun]
    exact ⟨fun _ _ => hsave, fun _ _ => heffect.sameContent hpage.accounts hslots⟩
  · have hfree := heffect.totalFree_updated hpage.accounts hk hocc h0 rfl
    rw [hrun, hcheck]
    refine (savedUpdate_failsUnseen_iff thread heffect.saveHead hfree).trans
      (imp_congr_right fun _ => ⟨fun h slot space heq => ?_, fun h => h _ _ rfl⟩)
    cases heq
    exact h

theorem SpageOp.failsUnseen_iff {op : SpageOp} (hop : op.Regular page) :
    op.FailsUnseen thread page <-> op.CanSave thread page := by
  cases op with
  | insert recdes =>
    refine ⟨fun _ => trivial, fun _ => ?_⟩
    rcases spageInsert_spec thread hpage hop.1 hop.2 with ⟨status, page', slotId, hrun, hcases⟩
    dsimp only [FailsUnseen]
    rw [hrun]
    intro hfail
    rcases hcases with ⟨_, hmid, _⟩ | ⟨hok, _⟩
    · exact hmid.sameContent
    · exact absurd hok hfail
  | insertAt slotId recdes =>
    refine ⟨fun _ => trivial, fun _ => ?_⟩
    obtain ⟨h0, hfits⟩ := hop
    lift slotId to Nat using h0
    rcases spageInsertAt_spec thread hpage slotId hfits with ⟨status, page', hrun, hcases⟩
    dsimp only [FailsUnseen]
    rw [hrun]
    intro hfail
    rcases hcases with ⟨_, hmid⟩ | ⟨hok, _⟩
    · exact hmid.sameContent
    · exact absurd hok hfail
  | update slotId recdes => exact spageUpdate_failsUnseen_iff hpage thread slotId recdes
  | insertForRecovery | delete | compact => exact Iff.rfl

end

/-- In every run of regular calls, a regular call that fails leaves the content of the page alone
exactly if an update can save the space it frees. -/
theorem spage_failure_unseen_iff (bytes : Memory) (slotType : AnchorType) (alignment : Alignment)
    (isSaving : Bool) (page : SpagePage)
    (h : ((spageSystem bytes slotType alignment isSaving).guarded
      fun page call => call.2.Regular page).Reachable page)
    (thread : ThreadEntry) (op : SpageOp) (hop : op.Regular page) :
    op.FailsUnseen thread page <-> op.CanSave thread page :=
  failsUnseen_iff (reachable_consistent h) thread hop

/-- A page that saves space, with one record of 16 bytes. -/
def savingPage : SpagePage :=
  (insert (zeroRecord 16)).run (activeThread 1)
    (spageInitialize (fun _ => 0) .anchored .double true)

theorem reachable_savingPage :
    ((spageSystem (fun _ => 0) .anchored .double true).guarded
      fun page call => call.2.Regular page).Reachable savingPage :=
  System.reachable_guarded_of_follows [(activeThread 1, insert (zeroRecord 16))]
    ⟨⟨⟨by decide, nofun⟩, trivial⟩, trivial⟩

theorem spage_failure_unseen_iff_saving :
    (update 0 (zeroRecord 8)).FailsUnseen (activeThread 1) savingPage <->
      (update 0 (zeroRecord 8)).CanSave (activeThread 1) savingPage :=
  spage_failure_unseen_iff (fun _ => 0) .anchored .double true savingPage reachable_savingPage
    (activeThread 1) (.update 0 (zeroRecord 8)) trivial

/-- The record is shortened to 8 bytes, the entry for the saved space cannot be allocated, and
`spage_update` returns `SP_ERROR`. -/
theorem spage_failure_seen :
    exists page, ((spageSystem (fun _ => 0) .anchored .double true).guarded
        fun page call => call.2.Regular page).Reachable page ∧
      ¬ (update 0 (zeroRecord 8)).FailsUnseen
        { activeThread 1 with mallocEntry := false } page := by
  refine ⟨savingPage, reachable_savingPage, fun h => ?_⟩
  have htotal := (h (by decide +kernel)).totalFree
  revert htotal
  decide +kernel

end Rye.Storage
