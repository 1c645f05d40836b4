import Rye.Storage.SlottedPage.Undo

/-!
# Operations of active transactions

An active transaction gets space only outside of the savings of all transactions, and what
it sets free itself is saved for it.  So after each of its operations either more is free
than before, by as much as was saved, or the savings are still free.
-/

namespace Rye.Storage

open Foundation List

structure Unchanged (page page' : SpagePage) : Prop where
  consistent : Consistent page'
  anchorType : page'.anchorType = page.anchorType
  alignment : page'.alignment = page.alignment
  isSaving : page'.isSaving = page.isSaving
  saveHead : page'.saveHead = page.saveHead
  numSlots : page'.numSlots = page.numSlots
  types : page'.types = page.types
  sizes : page'.sizes = page.sizes
  totalFree : page'.totalFree = page.totalFree

/-- An operation that is undone by `u` has given its slot the size `x`.  It saved what it
set free, or left the savings alone. -/
structure Performed (page page' : SpagePage) (tranid : Tranid) (u : Undo) (x : Option Int) :
    Prop where
  consistent : Consistent page'
  anchorType : page'.anchorType = page.anchorType
  alignment : page'.alignment = page.alignment
  isSaving : page'.isSaving = page.isSaving
  numSlots_le : page.numSlots <= page'.numSlots
  slotId_lt : u.slotId < page'.numSlots
  types : forall type, type ∈ page'.types -> type ∈ page.types ∨ type ≠ .deletedWillReuse
  old : u.size page.alignment = page.sizes u.slotId
  sizes : page'.sizes = Function.update page.sizes u.slotId x
  ready : u.Ready page'.sizes
  saved : Saved page.saveHead page'.saveHead tranid
    (max ((page.sizes u.slotId).getD 0 - x.getD 0) 0)
  totalFree : page.totalFree + max ((page.sizes u.slotId).getD 0 - x.getD 0) 0 <= page'.totalFree ∨
    ((page.sizes u.slotId).getD 0 <= x.getD 0 ∧ totalSavedSpace page.saveHead <= page'.totalFree)

theorem Effect.unchanged {page page' : SpagePage} (hpage : Consistent page)
    (h : Effect page page' page.contents page.types) : Unchanged page page' where
  consistent := Effect.consistent_same hpage h
  anchorType := h.anchorType
  alignment := h.alignment
  isSaving := h.isSaving
  saveHead := h.saveHead
  numSlots := by rw [h.numSlots, length_contents]
  types := h.types
  sizes := h.sizes_same
  totalFree := h.totalFree_same hpage.accounts

section

variable {thread : ThreadEntry} {page page' : SpagePage} {space : Int}

theorem spageHasEnoughTotalSpace_active (hactive : thread.isActive = true)
    (hcrash : thread.inCrashRecovery = false) (hsaving : page.isSaving = true)
    (h : spageHasEnoughTotalSpace thread page space = true) :
    space <= 0 ∨ space <= page.totalFree - totalSavedSpace page.saveHead := by
  unfold spageHasEnoughTotalSpace spageGetTotalSavedSpaces at h
  rw [hactive, hsaving, hcrash, if_pos rfl, if_pos rfl, if_neg Bool.false_ne_true] at h
  by_cases hpos : space <= 0
  · exact .inl hpos
  rw [if_neg hpos, if_pos rfl] at h
  right
  exact of_decide_eq_true h

variable {recdes : RecDes}

theorem spageInsert_space {slotId : Int} (hlast : spageFindFreeSlot page = page.numSlots)
    (h : spageInsert thread page recdes = (.success, page', slotId)) :
    spageHasEnoughTotalSpace thread page
      (dbAlign recdes.length page.alignment + sizeofSpageSlot) = true := by
  by_contra hspace
  have hfind (type : RecType) :
      (spageFindEmptySlot thread page recdes.length type).1 = .doesntFit := by
    unfold spageFindEmptySlot
    dsimp only
    rw [add_dbWastedAlign, hlast, if_pos rfl, spageCheckSpace, if_neg hspace, ite_self]
  have hstatus : (spageInsert thread page recdes).1 = .doesntFit := by
    unfold spageInsert spageFindSlotForInsert
    rw [spageCheckRecordForInsert_eq]
    by_cases hmax : recdes.length > spageMaxRecordSize
    · rw [if_pos hmax]
    rw [if_neg hmax]
    dsimp only
    have hrun := hfind (insertedType recdes.type)
    rcases hempty : spageFindEmptySlot thread page recdes.length (insertedType recdes.type) with
      ⟨status, after, k⟩
    rw [hempty] at hrun
    cases hrun
    rfl
  rw [h] at hstatus
  cases hstatus

end

/-- A transaction at work: it is active and gets the memory for its savings. -/
structure ThreadEntry.AtWork (thread : ThreadEntry) : Prop where
  isActive : thread.isActive = true
  notRecovering : thread.inCrashRecovery = false
  mallocHead : thread.mallocHead = true
  mallocEntry : thread.mallocEntry = true

/-- The record that a transaction keeps for undoing a deletion or an update. -/
def oldRecord (page : SpagePage) (slotId : Int) : RecDes :=
  (spageGetRecord page slotId ⟨-1, 0, .unknown, fun _ => 0⟩ true).2

section

variable {thread : ThreadEntry} {page : SpagePage} (hpage : Consistent page)
  (hanchor : page.anchorType = .anchored) (hsaving : page.isSaving = true)

theorem oldRecord_length {k : Nat} (hfind : spageFindSlot page k = some (page.slot k)) :
    (oldRecord page k).length = (page.slot k).recordLength := by
  unfold oldRecord spageGetRecord
  rw [hfind]
  rfl

include hpage in
theorem slot_length_le {k : Nat} (hk : k < page.numSlots) (hocc : (page.slot k).occupied = true) :
    ((page.slot k).recordLength : Int) <= spageMaxRecordSize := by
  have hperm := hpage.accounts.perm (SpagePage.slots_perm hk)
  have htotal := hperm.totalFree
  have hcont := hpage.accounts.page_contFree_nonneg
  have hle := hpage.accounts.page_contFree_le
  have hrest := usedSpace_nonneg page.alignment (page.slots.eraseIdx k)
  have hlen := (page.slot k).length_le_size page.alignment
  change page.totalFree = _ - usedSpace page.alignment _ at htotal
  rw [usedSpace_cons, SpageSlot.room_of_occupied hocc, Accounts.slotSpace_cons] at htotal
  have hslots : 0 <= sizeofSpageSlot * (page.slots.eraseIdx k).length := by
    rw [show sizeofSpageSlot = 4 from rfl]
    omega
  unfold spageMaxRecordSize
  omega

theorem spageFindFreeSlot_last (htypes : RecType.deletedWillReuse ∉ page.types) :
    spageFindFreeSlot page = page.numSlots := by
  rcases spageFindFreeSlot_spec page with hlast | ⟨hk, hdead⟩
  · exact hlast
  · exact absurd (mem_map.mpr ⟨_, SpagePage.slot_mem_slots hk, hdead⟩) htypes

include hpage hanchor hsaving in
theorem spageInsert_performed (hthread : thread.AtWork)
    (htypes : RecType.deletedWillReuse ∉ page.types) {recdes : RecDes} (h0 : 0 <= recdes.length)
    (hfits : AddressFits page.alignment recdes) :
    exists status page' slotId, spageInsert thread page recdes = (status, page', slotId) ∧
      ((status ≠ .success ∧ Unchanged page page') ∨
        (status = .success ∧ slotId = page.numSlots ∧
          exists x, Performed page page' thread.tranid (.insert page.numSlots) x)) := by
  have hlast := spageFindFreeSlot_last htypes
  rcases spageInsert_spec thread hpage h0 hfits with ⟨status, page', slotId, hrun, hcases⟩
  refine ⟨status, page', slotId, hrun, ?_⟩
  rcases hcases with ⟨hfail, hmid, _⟩ | ⟨rfl, rfl, ⟨r, hr, heffect⟩, _⟩
  · exact .inl ⟨hfail, (hmid.effect hpage.accounts).unchanged hpage⟩
  right
  refine ⟨rfl, by rw [hlast], some (r.space page.alignment), ?_⟩
  have hspace := spageHasEnoughTotalSpace_active hthread.isActive hthread.notRecovering hsaving
    (spageInsert_space hlast hrun)
  have hnew : takesNewSlot page page.numSlots = true := decide_eq_true (.inl rfl)
  have happend : putAt true page.contents page.numSlots (some r) = page.contents ++ [some r] := by
    rw [← length_contents]
    exact insertIdx_length_self
  have hsize : r.space page.alignment = dbAlign recdes.length page.alignment := by
    rw [Record.space, hr.2.1, Int.toNat_of_nonneg h0]
  have hnonneg : 0 <= dbAlign recdes.length page.alignment := dbAlign_nonneg h0
  rw [hlast, hnew, happend] at heffect
  have hnone : page.sizes page.numSlots = none := sizes_of_le (le_refl _)
  have hnum : page'.numSlots = page.numSlots + 1 := by
    rw [heffect.numSlots, length_append, length_contents, length_singleton]
  have hfree := heffect.totalFree_append hpage.accounts
  have hslot : sizeofSpageSlot = 4 := rfl
  constructor
  · exact hpage.of_effect heffect fun hne => absurd hanchor hne
  · exact heffect.anchorType
  · exact heffect.alignment
  · exact heffect.isSaving
  · omega
  · change page.numSlots < _
    omega
  · rw [heffect.types]
    intro type htype
    rcases eq_or_mem_of_mem_insertIdx htype with rfl | hmem
    · exact .inr (insertedType_live recdes.type).2
    · exact .inl hmem
  · exact hnone.symm
  · exact heffect.sizes_append
  · trivial
  · change Saved _ _ _ (max ((page.sizes page.numSlots).getD 0 - r.space page.alignment) 0)
    rw [hnone, heffect.saveHead, Option.getD_none, max_eq_right (by omega)]
    exact saved_zero _ _
  · right
    change (page.sizes page.numSlots).getD 0 <= r.space page.alignment ∧ _
    rw [hnone, Option.getD_none]
    refine ⟨by omega, ?_⟩
    change page'.totalFree = page.totalFree - sizeofSpageSlot - r.space page.alignment at hfree
    omega

include hpage in
theorem Saved.consistent {head : Option SpageSaveHead} {tranid : Tranid} {space : Int}
    (h : Saved page.saveHead head tranid (max space 0)) :
    Consistent { page with saveHead := head } := by
  apply hpage.withSaved
  intro head' hhead
  have htotal := h.total
  rw [hhead] at htotal
  change head'.totalSaved = _ at htotal
  have hold : 0 <= totalSavedSpace page.saveHead := by
    cases hsave : page.saveHead with
    | none => exact le_refl 0
    | some old => exact hpage.saved old hsave
  omega

include hpage hanchor in
theorem performed_of_effect {k : Nat} (hk : k < page.numSlots)
    (hfind : spageFindSlot page k = some (page.slot k)) (hocc : (page.slot k).occupied = true)
    {after : SpagePage} {r : Option Record} {types : List RecType}
    (heffect : Effect page after (page.contents.set k r) types)
    (htypes : forall type, type ∈ types -> type ∈ page.types ∨ type ≠ .deletedWillReuse)
    {tranid : Tranid} {head : Option SpageSaveHead}
    (hsaved : Saved after.saveHead head tranid (max (after.totalFree - page.totalFree) 0))
    (hfree : page.totalFree <= after.totalFree ∨ totalSavedSpace page.saveHead <= after.totalFree)
    {u : Undo} (hu : u.slotId = k ∧ forall a, u.size a = some (dbAlign (oldRecord page k).length a))
    (hready : 0 <= (oldRecord page k).length -> (oldRecord page k).length <= spageMaxRecordSize ->
      u.Ready (Function.update page.sizes k (r.map (Record.space page.alignment)))) :
    Performed page { after with saveHead := head } tranid u
      (r.map (Record.space page.alignment)) := by
  have hlength := oldRecord_length hfind
  have hold : u.size page.alignment = page.sizes k := by
    rw [sizes_eq hk, if_pos hocc, hu.2, hlength]
    rfl
  have hsizes := heffect.sizes_set hk
  have hnum : after.numSlots = page.numSlots := by
    rw [heffect.numSlots, length_set, length_contents]
  have htotal := heffect.totalFree_set hpage.accounts hk
  have hdiff : after.totalFree - page.totalFree =
      (page.sizes k).getD 0 - (r.map (Record.space page.alignment)).getD 0 := by
    rw [htotal, spaceOf]
    omega
  have hafter : Consistent after := hpage.of_effect heffect fun hne => absurd hanchor hne
  rcases hu with ⟨rfl, _⟩
  rw [hlength] at hready
  constructor
  · exact Saved.consistent hafter hsaved
  · exact heffect.anchorType
  · exact heffect.alignment
  · exact heffect.isSaving
  · exact le_of_eq hnum.symm
  · exact lt_of_lt_of_eq hk hnum.symm
  · exact fun type htype => htypes type (heffect.types ▸ htype)
  · exact hold
  · exact hsizes
  · change u.Ready after.sizes
    rw [hsizes]
    exact hready (Int.natCast_nonneg _) (slot_length_le hpage hk hocc)
  · rwa [hdiff, heffect.saveHead] at hsaved
  · change _ <= after.totalFree ∨ _ ∧ _ <= after.totalFree
    omega

include hpage hanchor hsaving in
theorem spageDelete_performed (hthread : thread.AtWork) (slotId : Int) :
    exists deleted page', spageDelete thread page slotId = (deleted, page') ∧
      ((deleted = nullSlotid ∧ Unchanged page page') ∨
        (deleted ≠ nullSlotid ∧ exists k : Nat, slotId = k ∧
          Performed page page' thread.tranid (.delete k (oldRecord page k)) none)) := by
  rcases spageDelete_spec thread hpage slotId with
    ⟨_, hrun⟩ | ⟨k, removed, rfl, hk, hocc, hfind, heffect, hrun⟩
  · exact ⟨_, _, hrun, .inl ⟨rfl, (Effect.refl hpage.accounts).unchanged hpage⟩⟩
  rcases spageSaveSpace_saved hthread.isActive hthread.notRecovering hthread.mallocHead
    hthread.mallocEntry removed (deletedSpace page k) with ⟨head, hsave, hsaved⟩
  rw [if_pos hsaving, hsave] at hrun
  refine ⟨_, _, hrun, .inr ⟨by unfold nullSlotid; omega, k, rfl, ?_⟩⟩
  unfold removedContents removedTypes at heffect
  rw [if_pos hanchor, if_pos hanchor] at heffect
  have hfree : removed.totalFree = page.totalFree + deletedSpace page k := by
    rw [heffect.totalFree_set hpage.accounts hk, sizes_eq hk, if_pos hocc, deletedSpace,
      if_pos hanchor, Option.getD_some, Int.add_zero]
    exact Int.sub_zero _
  have hnonneg := (page.slot k).size_nonneg page.alignment
  have hspace : removed.totalFree - page.totalFree = deletedSpace page k := by omega
  refine performed_of_effect hpage hanchor hk hfind hocc heffect (types_set_live nofun)
    (hspace.symm ▸ hsaved) (.inl ?_) ⟨rfl, fun _ => rfl⟩ ?_
  · rw [hfree, deletedSpace, if_pos hanchor]
    omega
  · exact fun h0 hmax => ⟨Function.update_self .., h0, hmax⟩

include hpage hanchor hsaving in
theorem spageUpdate_performed (hthread : thread.AtWork) (slotId : Int) (recdes : RecDes) :
    exists status page', spageUpdate thread page slotId recdes = (status, page') ∧
      ((status ≠ .success ∧ Unchanged page page') ∨
        (status = .success ∧ exists (k : Nat) (x : Option Int), slotId = k ∧
          Performed page page' thread.tranid (.update k (oldRecord page k)) x)) := by
  rcases spageUpdate_spec thread hpage slotId recdes with
    ⟨status, page', hrun, hfail, heffect, _⟩ | ⟨k, after, rfl, hk, hocc, h0, heffect, hrun, hcheck⟩
  · exact ⟨_, _, hrun, .inl ⟨hfail, heffect.unchanged hpage⟩⟩
  rcases spageSaveSpace_saved hthread.isActive hthread.notRecovering hthread.mallocHead
    hthread.mallocEntry after (after.totalFree - page.totalFree) with ⟨head, hsave, hsaved⟩
  rw [if_pos hsaving, hsave] at hrun
  rcases spageCheckUpdatable_ok hcheck with ⟨_, _, hfind, _, htotal⟩
  have hspace := spageHasEnoughTotalSpace_active hthread.isActive hthread.notRecovering hsaving
    htotal
  have hfree : after.totalFree = page.totalFree + (page.slot k).size page.alignment -
      dbAlign recdes.length page.alignment := by
    rw [heffect.totalFree_set hpage.accounts hk, spaceOf, sizes_eq hk, if_pos hocc,
      Option.map_some, Record.space, RecDes.record, length_map, length_range,
      Int.toNat_of_nonneg h0]
    rfl
  exact ⟨_, _, hrun, .inr ⟨rfl, k, _, rfl,
    performed_of_effect hpage hanchor hk hfind hocc heffect (fun _ => .inl) hsaved (by omega)
      ⟨rfl, fun _ => rfl⟩ fun h0 hmax => ⟨h0, hmax⟩⟩⟩

end

end Rye.Storage
