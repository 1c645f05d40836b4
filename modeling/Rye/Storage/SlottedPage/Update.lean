import Rye.Storage.SlottedPage.Removal

/-!
# Update

An update writes a record that is not longer than the old one in its place.  A longer
record is put at the end of the record area, after the old one has been given up there
or after a compaction without the old one where that is necessary.  All ways lead to the
same records.
-/

namespace Rye.Storage

open Foundation List SpagePage

section

variable {page mid : SpagePage} {k : Nat}

/-- The page before the new record is placed: without the record it would be in order. -/
structure Vacated (page mid : SpagePage) (k : Nat) (totalFree : Int) : Prop where
  accounts : exists e, e.occupied = false ∧
    Accounts { mid.area with numRecords := mid.numRecords - 1, totalFree := totalFree }
      (e :: mid.slots.eraseIdx k)
  anchorType : mid.anchorType = page.anchorType
  alignment : mid.alignment = page.alignment
  isSaving : mid.isSaving = page.isSaving
  saveHead : mid.saveHead = page.saveHead
  numSlots : mid.numSlots = page.numSlots
  contents : forall x, mid.contents.set k x = page.contents.set k x
  types : mid.types = page.types
  visible : page.Visible -> mid.Visible

theorem placeRecord_effect (recdes : RecDes) (space : Int) (hk : k < page.numSlots)
    {totalFree : Int} (h : Vacated page mid k totalFree) (hlive : (mid.slot k).Live)
    (h0 : 0 <= recdes.length) (hmax : recdes.length <= spageMaxRecordSize)
    (hroom : dbAlign recdes.length mid.alignment <= mid.contFree)
    (hspace : mid.totalFree - space = totalFree - dbAlign recdes.length mid.alignment) :
    exists page', placeRecord mid k recdes space = (.success, page') ∧
      Effect page page' (page.contents.set k (some (recdes.record (mid.slot k).recordType)))
        page.types := by
  rcases h.accounts with ⟨e, he, haccounts⟩
  let t : SpageSlot := endSlot mid recdes.length (mid.slot k).recordType
  have hlt : recdes.length < 16384 := lt_of_le_of_lt hmax (by decide)
  have hsize : t.size mid.alignment = dbAlign recdes.length mid.alignment :=
    endSlot_size mid _ h0 hlt mid.alignment
  have hheader : sizeofSpageHeader <= mid.offsetToFreeArea := haccounts.header_le
  have hpos : (0 : Int) < sizeofSpageHeader := by decide
  have hle := le_dbAlign recdes.length mid.alignment
  have hkmid : k < mid.slots.length := by rw [mid.length_slots, h.numSlots]; exact hk
  have hfree : mid.offsetToFreeArea + mid.contFree = slotAddress (mid.numSlots - 1) := by
    have hcont := haccounts.contFree
    change mid.contFree = dbPagesize - mid.offsetToFreeArea - 4 * _ at hcont
    rw [length_cons, length_eraseIdx_of_lt hkmid, mid.length_slots] at hcont
    rw [mid.length_slots] at hkmid
    rw [slotAddress_eq]
    omega
  have hfree' := hfree
  rw [slotAddress_eq, show dbPagesize = 16376 from rfl] at hfree'
  have hoffset : (t.offsetToRecord : Int) = mid.offsetToFreeArea := bits14_eq (by omega) (by omega)
  -- the page with the slot and the bytes of the record
  let placed : SpagePage := mid.setSlot k t
  let m : Memory := placed.bytes.write mid.offsetToFreeArea recdes.length.toNat recdes.data
  let after : SpagePage := { mid with
    bytes := m
    totalFree := mid.totalFree - space
    contFree := mid.contFree - dbAlign recdes.length mid.alignment
    offsetToFreeArea := mid.offsetToFreeArea + dbAlign recdes.length mid.alignment }
  have hplace : placeRecord mid k recdes space = (.success, after) := by
    unfold placeRecord
    dsimp only
    rw [add_dbWastedAlign]
    change (if mid.offsetToFreeArea + recdes.length > dbPagesize then _ else _) = _
    rw [if_neg (by rw [show dbPagesize = 16376 from rfl]; omega)]
    rfl
  have hslots : after.slots = mid.slots.set k t := by
    rw [← slots_setSlot (endSlot_fits _ _ _)]
    change ({ placed with bytes := m } : SpagePage).slots = placed.slots
    apply slots_congr
    intro x hx
    apply Memory.write_outside
    change slotAddress (mid.numSlots - 1) <= x at hx
    omega
  have hrecord : recordOf m t = some (recdes.record (mid.slot k).recordType) := by
    rw [recordOf_endSlot hoffset (by omega) h0 hlt, Memory.read_write]
    rfl
  have hothers : forall s, s ∈ mid.slots.eraseIdx k -> recordOf m s = recordOf mid.bytes s := by
    intro s hs
    apply haccounts.recordOf_eq _ (mem_cons_of_mem _ hs)
    intro x _ hx
    change x < mid.offsetToFreeArea at hx
    have hout : m x = placed.bytes x := Memory.write_outside (.inl hx)
    rw [hout]
    apply setSlot_outside
    rw [mid.length_slots] at hkmid
    rw [slotAddress_eq, show dbPagesize = 16376 from rfl]
    omega
  have hfill := haccounts.fill he hoffset hlive (by rw [← hsize] at hroom; exact hroom)
  change Accounts ⟨mid.alignment, mid.numRecords - 1 + 1, totalFree - t.size mid.alignment,
    mid.contFree - t.size mid.alignment, mid.offsetToFreeArea + t.size mid.alignment⟩ _ at hfill
  rw [hsize, ← hspace, Int.sub_add_cancel] at hfill
  have heffect : Effect mid after _ _ :=
    .of_set (by rwa [h.numSlots]) ⟨rfl, rfl, rfl, rfl, rfl⟩ hslots hfill hothers
      (by intro _ _; rw [slotAddress_eq, show dbPagesize = 16376 from rfl]; omega)
  refine ⟨_, hplace, heffect.accounts, h.anchorType, h.alignment, h.isSaving, h.saveHead, ?_, ?_,
    fun hle hvisible => heffect.visible (h.numSlots ▸ hle) (h.visible hvisible)⟩
  · rw [heffect.contents, hrecord]
    exact h.contents _
  · rw [heffect.types, ← h.types]
    exact types_set_self (h.numSlots ▸ hk)

variable (hpage : Accounts page.area page.slots) (hk : k < page.numSlots)
  (hocc : (page.slot k).occupied = true)
include hpage hk hocc

theorem slot_live : (page.slot k).Live :=
  (hpage.placed _ (slot_mem_slots hk) hocc).live

theorem vacated_hole :
    Vacated page page k (page.totalFree + (page.slot k).size page.alignment) where
  accounts := by
    refine ⟨deletedSlot (page.slot k), rfl, ?_⟩
    exact (hpage.perm (slots_perm hk)).hide hocc rfl
  anchorType := rfl
  alignment := rfl
  isSaving := rfl
  saveHead := rfl
  numSlots := rfl
  contents _ := rfl
  types := rfl
  visible h := h

theorem vacated_end (hend : spageIsRecordLocatedAtEnd page (page.slot k) = true) :
    Vacated page (spageAddContiguousFreeSpace page ((page.slot k).size page.alignment)) k
      (page.totalFree + (page.slot k).size page.alignment) where
  accounts := by
    refine ⟨deletedSlot (page.slot k), rfl, ?_⟩
    have haccounts := releaseArea_accounts hpage hk hocc (t := deletedSlot (page.slot k)) rfl
    have hrel : (releaseArea page (page.slot k)).area =
        { (spageAddContiguousFreeSpace page ((page.slot k).size page.alignment)).area with
          numRecords := page.numRecords - 1
          totalFree := page.totalFree + (page.slot k).size page.alignment } := by
      unfold releaseArea
      rw [if_pos hend, add_dbWastedAlign]
      rfl
    rw [hrel] at haccounts
    exact haccounts
  anchorType := rfl
  alignment := rfl
  isSaving := rfl
  saveHead := rfl
  numSlots := rfl
  contents _ := rfl
  types := rfl
  visible h := h

end

/-!
## Compaction without the record
-/

def hiddenPage (page : SpagePage) (k : Nat) : SpagePage :=
  { page.setOffset k spageEmptyOffset with
    totalFree := page.totalFree + (page.slot k).size page.alignment
    numRecords := page.numRecords - 1 }

section

variable {page : SpagePage} {k : Nat}

theorem hiddenPage_slot : (hiddenPage page k).slot k =
    { page.slot k with offsetToRecord := bits14 spageEmptyOffset } :=
  slot_setSlot hiddenSlot_fits

theorem hiddenPage_slots : (hiddenPage page k).slots =
    page.slots.set k { page.slot k with offsetToRecord := bits14 spageEmptyOffset } :=
  slots_setSlot hiddenSlot_fits

theorem hiddenPage_effect (hpage : Accounts page.area page.slots) (hk : k < page.numSlots)
    (hocc : (page.slot k).occupied = true) :
    Effect page (hiddenPage page k) (page.contents.set k none) page.types := by
  exact hidden_effect hpage hk ((hpage.perm (slots_perm hk)).hide hocc rfl)

theorem vacated_compacted (hpage : Accounts page.area page.slots) (hk : k < page.numSlots)
    (hocc : (page.slot k).occupied = true) {mid : SpagePage}
    (h : Compacted (hiddenPage page k) mid) :
    Vacated page { mid with numRecords := mid.numRecords + 1 } k mid.totalFree := by
  have hhidden := hiddenPage_effect hpage hk hocc
  have heffect := hhidden.trans (MaybeCompacted.effect (.inr h) hhidden.accounts) rfl
  have hnum : mid.numSlots = page.numSlots := h.numSlots
  constructor
  · refine ⟨mid.slot k, ?_, ?_⟩
    · rw [h.occupied k hk]
      rw [hiddenPage_slot]
      rfl
    have haccounts := h.accounts.perm (slots_perm (hnum.symm ▸ hk))
    rw [Int.add_sub_cancel]
    exact haccounts
  · exact heffect.anchorType
  · exact heffect.alignment
  · exact heffect.isSaving
  · exact heffect.saveHead
  · exact hnum
  · intro x
    change mid.contents.set k x = _
    rw [heffect.contents, hhidden.contents, set_set]
  · exact heffect.types.trans hhidden.types
  · exact heffect.visible (le_of_eq hnum)

theorem restored_slots (hk : k < page.numSlots) :
    ((hiddenPage page k).setOffset k (page.slot k).offsetToRecord).slots = page.slots := by
  have hoffset : bits14 (page.slot k).offsetToRecord = (page.slot k).offsetToRecord := by
    have hbits : (bits14 (page.slot k).offsetToRecord : Int) = (page.slot k).offsetToRecord :=
      bits14_eq (by omega) (by have := (page.slot_fits k).offset; omega)
    exact_mod_cast hbits
  unfold setOffset
  rw [hiddenPage_slot, hoffset, slots_setSlot (page.slot_fits k), hiddenPage_slots, set_set]
  have hlt : k < page.slots.length := by rwa [page.length_slots]
  rw [← getElem_slots hlt, set_getElem_self]

theorem restored_effect (hpage : Accounts page.area page.slots) (hk : k < page.numSlots) :
    Effect page
      { (hiddenPage page k).setOffset k (page.slot k).offsetToRecord with
        totalFree := (hiddenPage page k).totalFree - (page.slot k).size page.alignment
        numRecords := (hiddenPage page k).numRecords + 1 }
      page.contents page.types := by
  have hslots := restored_slots hk
  have hbytes : forall x, x < slotAddress (page.numSlots - 1) ->
      ((hiddenPage page k).setOffset k (page.slot k).offsetToRecord).bytes x = page.bytes x := by
    intro x hx
    rw [slotAddress_eq] at hx
    have hout : x < slotAddress k ∨ slotAddress k + 4 <= x := by
      rw [slotAddress_eq]
      omega
    exact (setSlot_outside hout).trans (setSlot_outside hout)
  refine ⟨?_, rfl, rfl, rfl, rfl, ?_, ?_, ?_⟩
  · change Accounts ⟨page.alignment, page.numRecords - 1 + 1,
      page.totalFree + (page.slot k).size page.alignment - (page.slot k).size page.alignment,
      page.contFree, page.offsetToFreeArea⟩
      ((hiddenPage page k).setOffset k (page.slot k).offsetToRecord).slots
    rw [Int.sub_add_cancel, Int.add_sub_cancel, hslots]
    exact hpage
  · change List.map (recordOf _)
      ((hiddenPage page k).setOffset k (page.slot k).offsetToRecord).slots = _
    rw [hslots]
    exact map_recordOf_eq hpage hbytes
  · change List.map SpageSlot.recordType
      ((hiddenPage page k).setOffset k (page.slot k).offsetToRecord).slots = _
    rw [hslots]
    rfl
  · intro _ hvisible s hs hocc
    change s ∈ ((hiddenPage page k).setOffset k (page.slot k).offsetToRecord).slots at hs
    rw [hslots] at hs
    exact hvisible s hs hocc

theorem compactWithout_spec (thread : ThreadEntry) (hpage : Accounts page.area page.slots)
    (hk : k < page.numSlots) (hocc : (page.slot k).occupied = true) :
    (exists page', compactWithout thread page k
        (dbWastedAlign (page.slot k).recordLength page.alignment) = (false, page') ∧
      page'.slots = page.slots ∧ Effect page page' page.contents page.types) ∨
    exists mid, compactWithout thread page k
        (dbWastedAlign (page.slot k).recordLength page.alignment) =
          (true, { mid with numRecords := mid.numRecords + 1 }) ∧
      Compacted (hiddenPage page k) mid := by
  have hhidden := hiddenPage_effect hpage hk hocc
  have hargs : spageCompact thread (hiddenPage page k) =
      spageCompact thread { page.setOffset k spageEmptyOffset with
        totalFree := (page.setOffset k spageEmptyOffset).totalFree +
          dbAlign (page.slot k).recordLength page.alignment
        numRecords := (page.setOffset k spageEmptyOffset).numRecords - 1 } := rfl
  unfold compactWithout
  dsimp only
  rw [Int.add_comm (dbWastedAlign _ _), add_dbWastedAlign, ← hargs]
  rcases spageCompact_spec thread hhidden.accounts with ⟨_, hfail⟩ | ⟨mid, hok, hcompacted⟩
  · left
    rw [hfail]
    refine ⟨_, rfl, ?_, restored_effect hpage hk⟩
    change ((hiddenPage page k).setOffset k (page.slot k).offsetToRecord).slots = page.slots
    exact restored_slots hk
  · right
    rw [hok]
    exact ⟨mid, rfl, hcompacted⟩

end

/-!
## Updates
-/

section

variable {page : SpagePage} {k : Nat} {recdes : RecDes} {space : Int}
  (hpage : Accounts page.area page.slots) (hk : k < page.numSlots)
  (hocc : (page.slot k).occupied = true) (h0 : 0 <= recdes.length)
  (hmax : recdes.length <= spageMaxRecordSize)
  (hspace : space = dbAlign recdes.length page.alignment - (page.slot k).size page.alignment)
include hpage hk hocc h0 hmax hspace

theorem spageUpdateRecordAfterCompact_spec (thread : ThreadEntry) (hfits : space <= page.totalFree) :
    exists status page', spageUpdateRecordAfterCompact thread page k recdes space =
        (status, page') ∧
      ((status ≠ .success ∧ page'.slots = page.slots ∧
          Effect page page' page.contents page.types) ∨
        (status = .success ∧ Effect page page'
          (page.contents.set k (some (recdes.record (page.slot k).recordType))) page.types)) := by
  have hlive := slot_live hpage hk hocc
  unfold spageUpdateRecordAfterCompact
  rw [if_neg (by omega), add_dbWastedAlign,
    Int.add_comm (dbWastedAlign (page.slot k).recordLength _), add_dbWastedAlign]
  by_cases hend : spageIsRecordLocatedAtEnd page (page.slot k) = true ∧ space <= page.contFree
  · rw [if_pos hend]
    have hroom : dbAlign recdes.length page.alignment <=
        page.contFree + (page.slot k).size page.alignment := by
      omega
    rcases placeRecord_effect recdes _ hk (vacated_end hpage hk hocc hend.1) hlive h0 hmax hroom rfl
      with ⟨page', hrun, heffect⟩
    exact ⟨_, _, hrun, .inr ⟨rfl, heffect⟩⟩
  rw [if_neg hend]
  by_cases hcont : dbAlign recdes.length page.alignment > page.contFree
  · rw [if_pos hcont]
    rcases compactWithout_spec thread hpage hk hocc with
      ⟨page', hrun, hslots, heffect⟩ | ⟨mid, hrun, hcompacted⟩
    · rw [hrun]
      exact ⟨_, _, rfl, .inl ⟨nofun, hslots, heffect⟩⟩
    rw [hrun]
    have halign : mid.alignment = page.alignment := by
      rw [hcompacted.same]
      rfl
    have htype : (mid.slot k).recordType = (page.slot k).recordType := by
      rw [hcompacted.type k hk]
      rw [hiddenPage_slot]
    have hcontmid : mid.contFree = page.totalFree + (page.slot k).size page.alignment := by
      rw [hcompacted.same]
      rfl
    have hlivemid : (mid.slot k).Live := by
      unfold SpageSlot.Live
      rw [htype]
      exact hlive
    rcases placeRecord_effect recdes (dbAlign recdes.length page.alignment) hk
      (vacated_compacted hpage hk hocc hcompacted) hlivemid h0 hmax
      (by change dbAlign _ mid.alignment <= mid.contFree; rw [halign]; omega)
      (by change mid.totalFree - _ = mid.totalFree - dbAlign _ mid.alignment; rw [halign])
      with ⟨page', hplace, heffect⟩
    change Effect page page'
      (page.contents.set k (some (recdes.record (mid.slot k).recordType))) _ at heffect
    rw [htype] at heffect
    exact ⟨_, _, hplace, .inr ⟨rfl, heffect⟩⟩
  · rw [if_neg hcont]
    rcases placeRecord_effect recdes space hk (vacated_hole hpage hk hocc) hlive h0 hmax
      (Int.not_lt.mp hcont) (by omega) with ⟨page', hrun, heffect⟩
    exact ⟨_, _, hrun, .inr ⟨rfl, heffect⟩⟩

omit h0 hmax in
theorem shortened_accounts {t : SpageSlot} (hoffset : t.offsetToRecord = (page.slot k).offsetToRecord)
    (hlength : (t.recordLength : Int) = recdes.length)
    (htype : t.recordType = (page.slot k).recordType)
    (hshort : recdes.length <= (page.slot k).recordLength) :
    Accounts
      { page.area with
        totalFree := page.totalFree - space
        contFree := if spageIsRecordLocatedAtEnd page (page.slot k) then page.contFree - space
          else page.contFree
        free := if spageIsRecordLocatedAtEnd page (page.slot k) then page.offsetToFreeArea + space
          else page.offsetToFreeArea }
      (t :: page.slots.eraseIdx k) := by
  have hperm := hpage.perm (slots_perm hk)
  have htsize : t.size page.alignment = dbAlign recdes.length page.alignment := by
    unfold SpageSlot.size
    rw [hlength]
  have hshrink := hperm.shrink hocc hoffset (by omega) htype
  change Accounts { page.area with totalFree := page.totalFree -
    (t.size page.alignment - (page.slot k).size page.alignment) } _ at hshrink
  rw [htsize, ← hspace] at hshrink
  have hmono : dbAlign recdes.length page.alignment <= (page.slot k).size page.alignment :=
    dbAlign_mono hshort
  by_cases hend : spageIsRecordLocatedAtEnd page (page.slot k) = true
  · rw [if_pos hend, if_pos hend]
    have hfree := of_decide_eq_true hend
    rw [Int.add_assoc, add_dbWastedAlign] at hfree
    change _ + (page.slot k).size page.alignment = page.offsetToFreeArea at hfree
    have hheader := (hpage.placed _ (slot_mem_slots hk) hocc).header_le
    have hle := hpage.page_contFree_le
    have htnonneg := t.size_nonneg page.alignment
    have hretract := hshrink.retract (d := -space) (by omega)
      (by rw [hspace]; exact Int.dvd_neg.mpr (Int.dvd_sub (dbAlign_dvd _ _) (dbAlign_dvd _ _)))
      (by change _ <= page.offsetToFreeArea - -space; omega)
      (by
        intro u hu huocc hlen
        change _ + u.size page.alignment <= page.offsetToFreeArea - -space
        rcases mem_cons.mp hu with rfl | hu
        · omega
        · have hbelow := hperm.below_last hocc hfree hu huocc hlen
          change _ + u.size page.alignment <= _ at hbelow
          omega)
      (by change page.contFree + -space <= page.totalFree - space; omega)
    rw [Int.sub_neg, ← Int.sub_eq_add_neg] at hretract
    exact hretract
  · rw [if_neg hend, if_neg hend]
    exact hshrink

theorem spageUpdateRecordInPlace_spec (hshort : recdes.length <= (page.slot k).recordLength)
    (hbehind : (page.slot k).offsetToRecord <= dbPagesize) :
    exists page', spageUpdateRecordInPlace page k recdes space = (.success, page') ∧
      Effect page page' (page.contents.set k (some (recdes.record (page.slot k).recordType)))
        page.types := by
  let t : SpageSlot := { page.slot k with recordLength := bits14 recdes.length }
  have hlt : recdes.length < 16384 := lt_of_le_of_lt hmax (by decide)
  have hbits : (bits14 recdes.length : Int) = recdes.length := bits14_eq h0 hlt
  have htfits : t.Fits := ⟨(page.slot_fits k).offset, bits14_lt recdes.length⟩
  have hplaced := hpage.placed _ (slot_mem_slots hk) hocc
  have hfree := hpage.free_add_contFree
  have hcont := hpage.page_contFree_nonneg
  have hslotsize := (page.slot k).length_le_size page.alignment
  -- the record ends below the slots, unless it is empty
  have hbelow : 0 < recdes.length ->
      (page.slot k).offsetToRecord + recdes.length <= page.offsetToFreeArea := by
    intro hpos
    have hend := hplaced.below (by omega)
    change _ + (page.slot k).size page.alignment <= page.offsetToFreeArea at hend
    omega
  let marked : SpagePage := page.setSlot k t
  let m : Memory :=
    marked.bytes.write (page.slot k).offsetToRecord recdes.length.toNat recdes.data
  let after : SpagePage := { page with
    bytes := m
    totalFree := page.totalFree - space
    contFree := if spageIsRecordLocatedAtEnd page (page.slot k) then page.contFree - space
      else page.contFree
    offsetToFreeArea := if spageIsRecordLocatedAtEnd page (page.slot k) then
      page.offsetToFreeArea + space else page.offsetToFreeArea }
  have hrun : spageUpdateRecordInPlace page k recdes space = (.success, after) := by
    have hslot : (page.setLength k recdes.length).slot k = t := slot_setSlot htfits
    unfold spageUpdateRecordInPlace
    dsimp only
    rw [if_neg (by omega), hslot, if_neg]
    · dsimp only [after]
      split_ifs <;> rfl
    change ¬ ((page.slot k).offsetToRecord + recdes.length > dbPagesize)
    rw [slotAddress_eq] at hfree
    by_cases hzero : recdes.length = 0
    · omega
    · omega
  have hslots : after.slots = page.slots.set k t := by
    rw [← slots_setSlot htfits]
    change ({ marked with bytes := m } : SpagePage).slots = marked.slots
    apply slots_congr
    intro x hx
    change slotAddress (page.numSlots - 1) <= x at hx
    apply Memory.write_outside
    by_cases hzero : recdes.length = 0
    · rw [hzero]
      omega
    · omega
  have hothers : forall s, s ∈ page.slots.eraseIdx k -> recordOf m s = recordOf page.bytes s := by
    intro s hs
    by_cases hsocc : s.occupied = true
    · apply recordOf_congr
      intro x hlow hhigh
      have hslen : 0 < s.recordLength := by omega
      have hssize := s.length_le_size page.alignment
      have hperm := hpage.perm (slots_perm hk)
      have hsbelow := (hperm.placed s (mem_cons_of_mem _ hs) hsocc).below hslen
      change _ + s.size page.alignment <= page.offsetToFreeArea at hsbelow
      have hout : m x = marked.bytes x := by
        apply Memory.write_outside
        by_cases hzero : recdes.length = 0
        · rw [hzero]
          omega
        have hapart := (pairwise_cons.mp hperm.apart).1 s hs hocc hsocc (by omega) hslen
        change _ + (page.slot k).size page.alignment <= _ ∨
          _ + s.size page.alignment <= _ at hapart
        omega
      rw [hout]
      apply setSlot_outside
      rw [slotAddress_eq] at hfree ⊢
      omega
    · rw [Bool.not_eq_true] at hsocc
      rw [recordOf_empty hsocc, recordOf_empty hsocc]
  have hrecord : recordOf m t = some (recdes.record (page.slot k).recordType) := by
    have hread : m.read (page.slot k).offsetToRecord recdes.length.toNat =
        (List.range recdes.length.toNat).map recdes.data := Memory.read_write _ _ _ _
    have hlength : bits14 recdes.length = recdes.length.toNat := by omega
    have htocc : t.occupied = true := hocc
    unfold recordOf
    rw [if_pos htocc]
    change some (Record.mk _ (m.read (page.slot k).offsetToRecord (bits14 recdes.length))) = _
    rw [hlength, hread]
    rfl
  refine ⟨_, hrun, ?_⟩
  rw [← hrecord, ← types_set_self hk]
  exact Effect.of_set hk ⟨rfl, rfl, rfl, rfl, rfl⟩ hslots
    (shortened_accounts hpage hk hocc hspace rfl hbits rfl hshort) hothers
    (fun hvisible _ => hvisible (page.slot k) (slot_mem_slots hk) hocc)

end

variable {page : SpagePage} {thread : ThreadEntry}

theorem spageCheckUpdatable_error {slotId : Int} {recdes : RecDes} {status : SpStatus}
    (h : spageCheckUpdatable thread page slotId recdes = .error status) : status ≠ .success := by
  unfold spageCheckUpdatable at h
  grind

theorem spageCheckUpdatable_ok {slotId : Int} {recdes : RecDes} {slot : SpageSlot} {space : Int}
    (h : spageCheckUpdatable thread page slotId recdes = .ok (slot, space)) :
    0 <= recdes.length ∧ recdes.length <= spageMaxRecordSize ∧
      spageFindSlot page slotId = some slot ∧
      space = dbAlign recdes.length page.alignment - slot.size page.alignment ∧
      spageHasEnoughTotalSpace thread page space = true := by
  have hspace (slot : SpageSlot) : recdes.length + dbWastedAlign recdes.length page.alignment -
      slot.recordLength - dbWastedAlign slot.recordLength page.alignment =
      dbAlign recdes.length page.alignment - slot.size page.alignment := by
    rw [add_dbWastedAlign, Int.sub_sub, add_dbWastedAlign]
    rfl
  unfold spageCheckUpdatable at h
  grind

theorem spageUpdate_spec (thread : ThreadEntry) (hpage : Consistent page) (slotId : Int)
    (recdes : RecDes) :
    (exists status page', spageUpdate thread page slotId recdes = (status, page') ∧
      status ≠ .success ∧ Effect page page' page.contents page.types ∧ page'.slots = page.slots ∧
      forall slot space, spageCheckUpdatable thread page slotId recdes = .ok (slot, space) ->
        0 <= space) ∨
    exists (k : Nat) (after : SpagePage), slotId = k ∧ k < page.numSlots ∧
      (page.slot k).occupied = true ∧ 0 <= recdes.length ∧
      Effect page after (page.contents.set k (some (recdes.record (page.slot k).recordType)))
        page.types ∧
      spageUpdate thread page slotId recdes = (if page.isSaving then
          match spageSaveSpace thread after (after.totalFree - page.totalFree) with
          | (true, page) => (.success, page)
          | (false, page) => (.error, page)
        else (.success, after)) ∧
      spageCheckUpdatable thread page slotId recdes = .ok (page.slot k,
        dbAlign recdes.length page.alignment - (page.slot k).size page.alignment) := by
  have hrefl := Effect.refl hpage.accounts
  unfold spageUpdate
  cases hcheck : spageCheckUpdatable thread page slotId recdes with
  | error status =>
    have hstatus := spageCheckUpdatable_error hcheck
    left
    by_cases h0 : recdes.length < 0
    · exact ⟨_, _, if_pos h0, nofun, hrefl, rfl, fun _ _ h => by cases h⟩
    · exact ⟨_, _, if_neg h0, hstatus, hrefl, rfl, fun _ _ h => by cases h⟩
  | ok found =>
    obtain ⟨slot, space⟩ := found
    obtain ⟨h0, hmax, hfind, rfl, htotal⟩ := spageCheckUpdatable_ok hcheck
    rcases spageFindSlot_some hfind with ⟨k, rfl, hk, rfl, hocc, hbehind⟩
    rw [if_neg (Int.not_lt.mpr h0)]
    dsimp only
    by_cases hshort : recdes.length <= (page.slot k).recordLength
    · have hslot : sizeofSpageSlot = 4 := rfl
      rcases spageUpdateRecordInPlace_spec hpage.accounts hk hocc h0 hmax rfl hshort
        (by rw [hslot] at hbehind; omega) with ⟨after, hrun, heffect⟩
      rw [if_pos hshort, hrun]
      exact .inr ⟨k, after, rfl, hk, hocc, h0, heffect, rfl, rfl⟩
    rcases spageUpdateRecordAfterCompact_spec hpage.accounts hk hocc h0 hmax rfl thread
      (spageHasEnoughTotalSpace_le hpage htotal) with ⟨status, after, hrun, hcases⟩
    rw [if_neg hshort, hrun]
    rcases hcases with ⟨hfail, hslots, heffect⟩ | ⟨rfl, heffect⟩
    · have hmono : (page.slot k).size page.alignment <= dbAlign recdes.length page.alignment :=
        dbAlign_mono (by omega)
      have hspace (slot' space') (h : (.ok (page.slot k, dbAlign recdes.length page.alignment -
            (page.slot k).size page.alignment) : Except SpStatus (SpageSlot × Int)) =
            .ok (slot', space')) : 0 <= space' := by
        cases h
        omega
      left
      cases status with
      | success => exact absurd rfl hfail
      | error | doesntFit => exact ⟨_, _, rfl, nofun, heffect, hslots, hspace⟩
    · exact .inr ⟨k, after, rfl, hk, hocc, h0, heffect, rfl, rfl⟩

end Rye.Storage
