import Rye.Storage.SlottedPage.Insertion

/-!
# Removal

A deletion empties one slot, or takes it out of the list on a page without anchors.
The area of the record becomes a hole, or belongs to the free area again if the record
was the last one.
-/

namespace Rye.Storage

open Foundation List SpagePage

variable {page : SpagePage}

theorem spageFindSlot_some {slotId : Int} {slot : SpageSlot}
    (h : spageFindSlot page slotId = some slot) :
    exists k : Nat, slotId = k ∧ k < page.numSlots ∧ slot = page.slot k ∧ slot.occupied = true ∧
      slot.offsetToRecord <= dbPagesize - page.numSlots * sizeofSpageSlot := by
  unfold spageFindSlot at h
  split_ifs at h with hunknown
  cases h
  unfold spageIsUnknownSlot at hunknown
  simp only [Bool.or_eq_true, decide_eq_true_eq, not_or] at hunknown
  rcases hunknown with ⟨⟨⟨⟨hneg, hlarge⟩, hempty⟩, _⟩, hbehind⟩
  have hk : slotId = slotId.toNat := by omega
  refine ⟨slotId.toNat, hk, by omega, by rw [← hk], ?_, Int.not_lt.mp hbehind⟩
  rw [SpageSlot.occupied_iff]
  exact hempty

section

variable {page : SpagePage} {k : Nat}

theorem releaseArea_accounts (hpage : Accounts page.area page.slots) (hk : k < page.numSlots)
    (hocc : (page.slot k).occupied = true) {t : SpageSlot} (ht : t.occupied = false) :
    Accounts (releaseArea page (page.slot k)).area (t :: page.slots.eraseIdx k) := by
  have hperm := hpage.perm (slots_perm hk)
  have hhide := hperm.hide hocc ht
  have hsize := (page.slot k).size_nonneg page.alignment
  have hadd := add_dbWastedAlign (page.slot k).recordLength page.alignment
  unfold releaseArea
  dsimp only
  rw [hadd]
  by_cases hend : spageIsRecordLocatedAtEnd page (page.slot k) = true
  · rw [if_pos hend]
    have hfree := of_decide_eq_true hend
    rw [Int.add_assoc, hadd] at hfree
    have hplaced := hpage.placed _ (slot_mem_slots hk) hocc
    have hheader := hplaced.header_le
    have hle := hpage.page_contFree_le
    change _ + (page.slot k).size page.alignment = page.offsetToFreeArea at hfree
    refine hhide.retract hsize (dbAlign_dvd _ _) ?_ ?_ ?_
    · change _ <= page.offsetToFreeArea - (page.slot k).size page.alignment
      omega
    · intro u hu huocc hlen
      rcases mem_cons.mp hu with rfl | hu
      · rw [ht] at huocc
        cases huocc
      have hbelow := hperm.below_last hocc hfree hu huocc hlen
      change _ + u.size page.alignment <= _ at hbelow
      change _ + u.size page.alignment <= page.offsetToFreeArea - (page.slot k).size page.alignment
      omega
    · change page.contFree + (page.slot k).size page.alignment <=
        page.totalFree + (page.slot k).size page.alignment
      omega
  · rw [if_neg hend]
    exact hhide

theorem releaseArea_same (page : SpagePage) (slot : SpageSlot) :
    exists numRecords totalFree contFree offsetToFreeArea, releaseArea page slot =
      { page with
        numRecords := numRecords
        totalFree := totalFree
        contFree := contFree
        offsetToFreeArea := offsetToFreeArea } := by
  unfold releaseArea
  split_ifs
  · exact ⟨_, _, _, _, rfl⟩
  · exact ⟨_, _, _, _, rfl⟩

theorem map_recordOf_eq (hpage : Accounts page.area page.slots) {m : Memory}
    (h : forall x, x < slotAddress (page.numSlots - 1) -> m x = page.bytes x) :
    page.slots.map (recordOf m) = page.contents := by
  have hfree := hpage.free_add_contFree
  have hcont := hpage.page_contFree_nonneg
  apply map_congr_left
  intro t ht
  apply hpage.recordOf_eq _ ht
  intro x _ hx
  change x < page.offsetToFreeArea at hx
  exact h x (by omega)

def deletedSlot (slot : SpageSlot) : SpageSlot where
  offsetToRecord := 0
  recordLength := slot.recordLength
  recordType := .markdeleted

def hiddenSlot (slot : SpageSlot) : SpageSlot :=
  { slot with offsetToRecord := bits14 spageEmptyOffset }

theorem hiddenSlot_fits : (hiddenSlot (page.slot k)).Fits :=
  ⟨bits14_lt spageEmptyOffset, (page.slot_fits k).length⟩

theorem types_set_self (hk : k < page.numSlots) :
    page.types.set k (page.slot k).recordType = page.types := by
  have hlt : k < page.types.length := by rwa [types, length_map, page.length_slots]
  have hself : (page.slot k).recordType = page.types[k] := by
    simp only [types, getElem_map, getElem_slots]
  rw [hself, set_getElem_self]

theorem hidden_effect (hpage : Accounts page.area page.slots) (hk : k < page.numSlots)
    {numRecords totalFree contFree free : Int}
    (haccounts : Accounts ⟨page.alignment, numRecords, totalFree, contFree, free⟩
      (hiddenSlot (page.slot k) :: page.slots.eraseIdx k)) :
    Effect page
      { page.setOffset k spageEmptyOffset with
        numRecords := numRecords
        totalFree := totalFree
        contFree := contFree
        offsetToFreeArea := free } (page.contents.set k none) page.types := by
  have hslots : (page.setOffset k spageEmptyOffset).slots =
      page.slots.set k (hiddenSlot (page.slot k)) := slots_setSlot hiddenSlot_fits
  rw [← types_set_self hk]
  exact Effect.of_set (s := hiddenSlot (page.slot k)) hk ⟨rfl, rfl, rfl, rfl, rfl⟩ hslots haccounts
    (fun _ hu => recordOf_setSlot hpage hk (mem_of_mem_eraseIdx hu)) nofun

theorem emptied_effect (hpage : Accounts page.area page.slots) (hk : k < page.numSlots)
    (hocc : (page.slot k).occupied = true) :
    Effect page
      (((releaseArea page (page.slot k)).setOffset k spageEmptyOffset).setType k .markdeleted)
      (page.contents.set k none) (page.types.set k .markdeleted) := by
  have haccounts := releaseArea_accounts hpage hk hocc (t := hiddenSlot (page.slot k)) rfl
  rcases releaseArea_same page (page.slot k) with
    ⟨numRecords, totalFree, contFree, offsetToFreeArea, hrel⟩
  rw [hrel] at haccounts ⊢
  have hhidden := hidden_effect hpage hk haccounts
  have hslot : (page.setOffset k spageEmptyOffset).slot k = hiddenSlot (page.slot k) :=
    slot_setSlot hiddenSlot_fits
  have hdeleted := setType_effect hhidden.accounts (k := k) hk
    (congrArg SpageSlot.occupied hslot) .markdeleted
  have heffect := hhidden.trans hdeleted rfl
  rwa [hhidden.contents, hhidden.types] at heffect

/-!
## Pages without anchors
-/

theorem erased_effect (hpage : Accounts page.area page.slots) (hk : k < page.numSlots)
    (hocc : (page.slot k).occupied = true) :
    Effect page (spageReduceASlot (spageShiftSlotDown (releaseArea page (page.slot k)) k))
      (page.contents.eraseIdx k) (page.types.eraseIdx k) := by
  have haccounts := releaseArea_accounts hpage hk hocc (t := deletedSlot (page.slot k)) rfl
  have hdrop := haccounts.dropEmpty rfl
  rcases releaseArea_same page (page.slot k) with
    ⟨numRecords, totalFree, contFree, offsetToFreeArea, hrel⟩
  rw [hrel] at hdrop ⊢
  let rel : SpagePage := { page with
    numRecords := numRecords
    totalFree := totalFree
    contFree := contFree
    offsetToFreeArea := offsetToFreeArea }
  have hcount : ((page.numSlots - 1 - k : Int).toNat : Int) = page.numSlots - 1 - k := by omega
  rcases shiftSlotDownLoop_spec rel k (page.numSlots - 1 - k : Int).toNat with
    ⟨m, hrun, hbytes, hslot⟩
  rw [hcount] at hbytes hslot
  -- the last slot is emptied twice
  let e : SpageSlot := ⟨bits14 spageEmptyOffset, bits14 0, .unknown⟩
  let cleared : SpagePage :=
    (({ rel with bytes := m } : SpagePage).setSlot (page.numSlots - 1 : Int) e).setSlot
      (page.numSlots - 1 : Int) e
  have hresult : spageReduceASlot (spageShiftSlotDown rel k) =
      { cleared with
        numSlots := page.numSlots - 1
        totalFree := totalFree + sizeofSpageSlot
        contFree := contFree + sizeofSpageSlot } := by
    unfold spageShiftSlotDown
    dsimp only
    rw [show (rel.numSlots - 1 - k : Int).toNat = (page.numSlots - 1 - k : Int).toNat from rfl, hrun]
    rfl
  have hcleared : forall j : Nat, j < page.numSlots - 1 ->
      cleared.slot j = ({ rel with bytes := m } : SpagePage).slot j := by
    intro j hj
    exact (slot_setSlot_of_ne (by omega)).trans (slot_setSlot_of_ne (by omega))
  have hbytes' : forall x, x < slotAddress (page.numSlots - 1) -> cleared.bytes x = page.bytes x := by
    intro x hx
    rw [setSlot_outside (.inl hx), setSlot_outside (.inl hx)]
    rw [slotAddress_eq] at hx
    exact hbytes x (by rw [slotAddress_eq]; omega)
  have hslots : ({ cleared with
      numSlots := page.numSlots - 1
      totalFree := totalFree + sizeofSpageSlot
      contFree := contFree + sizeofSpageSlot } : SpagePage).slots = page.slots.eraseIdx k := by
    apply slots_erase
    · change page.numSlots - 1 + 1 = page.numSlots
      omega
    · exact hk
    · intro j hj
      exact ((hcleared j (by omega)).trans (hslot j)).trans (if_neg (by omega))
    intro j hlow hhigh
    change j < page.numSlots - 1 at hhigh
    refine ((hcleared j hhigh).trans (hslot j)).trans ((if_pos (by omega)).trans ?_)
    rw [Int.natCast_add]
    rfl
  rw [hresult]
  refine ⟨?_, rfl, rfl, rfl, rfl, ?_, ?_, ?_⟩
  · rw [hslots]
    exact hdrop
  · unfold contents
    rw [hslots, ← eraseIdx_map]
    exact congrArg (fun l => l.eraseIdx k) (map_recordOf_eq hpage hbytes')
  · unfold types
    rw [hslots, eraseIdx_map]
  intro _ hvisible s hs hocc
  rw [hslots] at hs
  have hstart := hvisible s (mem_of_mem_eraseIdx hs) hocc
  rw [slotAddress_eq] at hstart ⊢
  omega

end

/-!
## Savings
-/

variable (thread : ThreadEntry)

theorem spageSaveSpace_same (page : SpagePage) (space : Int) :
    exists saved head, spageSaveSpace thread page space = (saved, { page with saveHead := head }) ∧
      ((forall head, page.saveHead = some head -> 0 <= head.totalSaved) ->
        forall head', head = some head' -> 0 <= head'.totalSaved) := by
  unfold spageSaveSpace
  by_cases hzero : (space = 0 || thread.inCrashRecovery) = true
  · rw [if_pos hzero]
    exact ⟨_, _, rfl, id⟩
  by_cases hneg : (space < 0 || !thread.isActive) = true
  · rw [if_neg hzero, if_pos hneg]
    exact ⟨_, _, rfl, id⟩
  rw [if_neg hzero, if_neg hneg]
  rw [Bool.or_eq_true, not_or, decide_eq_true_eq] at hneg
  have hpos := Int.not_lt.mp hneg.1
  cases hhead : page.saveHead with
  | none =>
    dsimp only
    split_ifs
    · refine ⟨_, _, rfl, fun _ head' hhead => ?_⟩
      cases hhead
      exact hpos
    · refine ⟨_, _, rfl, fun _ head' hhead' => ?_⟩
      cases hhead.symm.trans hhead'
  | some head =>
    have hadd : (forall head', some head = some head' -> 0 <= head'.totalSaved) ->
        0 <= head.totalSaved + space := by
      intro h
      have := h head rfl
      omega
    dsimp only
    split_ifs
    · refine ⟨_, _, rfl, fun h head' hhead' => ?_⟩
      cases hhead'
      exact hadd h
    · refine ⟨_, _, rfl, fun h head' hhead' => ?_⟩
      cases hhead'
      exact hadd h
    · exact ⟨_, _, rfl, fun h head' hhead' => h head' (hhead.symm.trans hhead')⟩

theorem Consistent.withSaved (h : Consistent page) {head : Option SpageSaveHead}
    (hsaved : forall head', head = some head' -> 0 <= head'.totalSaved) :
    Consistent { page with saveHead := head } where
  accounts := h.accounts
  full := h.full
  saved := hsaved

/-- The records after the deletion of slot `k`. -/
def removedContents (page : SpagePage) (k : Nat) : List (Option Record) :=
  if page.anchorType = .anchored then page.contents.set k none else page.contents.eraseIdx k

def removedTypes (page : SpagePage) (k : Nat) : List RecType :=
  if page.anchorType = .anchored then page.types.set k .markdeleted else page.types.eraseIdx k

def deletedSpace (page : SpagePage) (k : Nat) : Int :=
  (page.slot k).size page.alignment +
    if page.anchorType = .anchored then 0 else sizeofSpageSlot

theorem spageDelete_spec (hpage : Consistent page) (slotId : Int) :
    (spageFindSlot page slotId = none ∧ spageDelete thread page slotId = (nullSlotid, page)) ∨
      exists (k : Nat) (removed : SpagePage), slotId = k ∧ k < page.numSlots ∧
        (page.slot k).occupied = true ∧ spageFindSlot page slotId = some (page.slot k) ∧
        Effect page removed (removedContents page k) (removedTypes page k) ∧
        spageDelete thread page slotId =
          if page.isSaving then
            match spageSaveSpace thread removed (deletedSpace page k) with
            | (true, page) => (slotId, page)
            | (false, page) => (nullSlotid, page)
          else (slotId, removed) := by
  unfold spageDelete
  cases hfind : spageFindSlot page slotId with
  | none => exact .inl ⟨rfl, rfl⟩
  | some slot =>
    rcases spageFindSlot_some hfind with ⟨k, rfl, hk, rfl, hocc, _⟩
    right
    unfold removedContents removedTypes deletedSpace
    dsimp only
    rw [add_dbWastedAlign]
    cases hanchor : page.anchorType with
    | anchored =>
      refine ⟨k, _, rfl, hk, hocc, rfl, emptied_effect hpage.accounts hk hocc, ?_⟩
      rw [if_pos rfl, Int.add_zero]
      rfl
    | unanchoredKeepSequence | unanchoredKeepSequenceBtree =>
      exact ⟨k, _, rfl, hk, hocc, rfl, erased_effect hpage.accounts hk hocc, rfl⟩

end Rye.Storage
