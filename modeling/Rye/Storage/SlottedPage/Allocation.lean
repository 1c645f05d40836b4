import Rye.Storage.SlottedPage.Compaction

/-!
# Allocation

The routines that look for a slot and an area for a record.  They may compact the
page first; after that one slot is filled or added, and the record area grows by the
size of the record.
-/

namespace Rye.Storage

open Foundation List SpagePage

def MaybeCompacted (page page' : SpagePage) : Prop :=
  page' = page ∨ Compacted page page'

theorem MaybeCompacted.accounts {page page' : SpagePage} (h : MaybeCompacted page page')
    (hpage : Accounts page.area page.slots) : Accounts page'.area page'.slots := by
  cases h with
  | inl h =>
    rw [h]
    exact hpage
  | inr h => exact h.accounts

/-- A record of slot `k` has been given the area behind the others. -/
structure Allocated (page page' : SpagePage) (k : Nat) (t : SpageSlot) (isNew : Bool) : Prop where
  same : page' = { page with
    numSlots := page.numSlots + isNew.toNat
    numRecords := page.numRecords + 1
    totalFree := page.totalFree - (t.size page.alignment + sizeofSpageSlot * isNew.toNat)
    contFree := page.contFree - (t.size page.alignment + sizeofSpageSlot * isNew.toNat)
    offsetToFreeArea := page.offsetToFreeArea + t.size page.alignment
    bytes := page'.bytes }
  slots_new : isNew = true -> k <= page.numSlots ∧ page'.slots = page.slots.insertIdx k t
  slots_old : isNew = false ->
    k < page.numSlots ∧ (page.slot k).occupied = false ∧ page'.slots = page.slots.set k t
  offset : (t.offsetToRecord : Int) = page.offsetToFreeArea
  live : t.Live
  room : t.size page.alignment + sizeofSpageSlot * isNew.toNat <= page.contFree
  outside : forall x, x < page.offsetToFreeArea -> page'.bytes x = page.bytes x

namespace Allocated

variable {page page' : SpagePage} {k : Nat} {t : SpageSlot} {isNew : Bool}

section

variable (h : Allocated page page' k t isNew)
include h

theorem area_eq :
    page'.area = { page.area with
      numRecords := page.numRecords + 1
      totalFree := page.totalFree - (t.size page.alignment + sizeofSpageSlot * isNew.toNat)
      contFree := page.contFree - (t.size page.alignment + sizeofSpageSlot * isNew.toNat)
      free := page.offsetToFreeArea + t.size page.alignment } := by
  rw [h.same]
  rfl

section

variable (hpage : Accounts page.area page.slots)
include hpage

theorem accounts : Accounts page'.area page'.slots := by
  rw [h.area_eq]
  have hroom := h.room
  cases isNew with
  | false =>
    rcases h.slots_old rfl with ⟨hk, hempty, hslots⟩
    rw [hslots]
    apply Accounts.perm _ (set_perm hk).symm
    rw [Bool.toNat_false, Int.natCast_zero, Int.mul_zero, Int.add_zero] at hroom ⊢
    exact (hpage.perm (slots_perm hk)).fill hempty h.offset h.live hroom
  | true =>
    rcases h.slots_new rfl with ⟨hk, hslots⟩
    rw [hslots]
    apply Accounts.perm _ (perm_insertIdx t _ (by rwa [page.length_slots])).symm
    have hsize := t.size_nonneg page.alignment
    rw [Bool.toNat_true, Int.natCast_one, Int.mul_one] at hroom ⊢
    have hempty : (⟨0, 0, .unknown⟩ : SpageSlot).occupied = false := rfl
    have hadd := hpage.addEmpty hempty (by change _ <= page.contFree; omega)
    have hfill := hadd.fill hempty h.offset h.live
      (by change t.size page.alignment <= page.contFree - _; omega)
    have hsplit (n : Int) : n - (t.size page.alignment + sizeofSpageSlot) =
        n - sizeofSpageSlot - t.size page.alignment := by
      omega
    rw [hsplit, hsplit]
    exact hfill

theorem contents_eq :
    page'.contents =
      if isNew then page.contents.insertIdx k (recordOf page'.bytes t)
      else page.contents.set k (recordOf page'.bytes t) := by
  have hrecords : page.slots.map (recordOf page'.bytes) = page.contents := by
    apply map_congr_left
    intro s hs
    exact hpage.recordOf_eq (fun x _ hx => h.outside x hx) hs
  unfold contents
  cases isNew with
  | false =>
    rw [(h.slots_old rfl).2.2, map_set, hrecords]
    rfl
  | true =>
    rw [(h.slots_new rfl).2, map_insertIdx, hrecords]
    rfl

theorem write {n : Nat} (hn : n <= t.size page.alignment) (src : Nat -> UInt8) :
    Allocated page { page' with bytes := page'.bytes.write page.offsetToFreeArea n src } k t
      isNew := by
  have hfree := (h.accounts hpage).free_add_contFree
  have hcont := (h.accounts hpage).page_contFree_nonneg
  have hend : page'.offsetToFreeArea = page.offsetToFreeArea + t.size page.alignment := by
    rw [h.same]
  have hslots : ({ page' with bytes := page'.bytes.write page.offsetToFreeArea n src } :
      SpagePage).slots = page'.slots := by
    apply slots_congr
    intro x hx
    apply Memory.write_outside
    omega
  constructor
  · have hsame := h.same
    rw [hsame]
  · intro hnew
    rw [hslots]
    exact h.slots_new hnew
  · intro hold
    rw [hslots]
    exact h.slots_old hold
  · exact h.offset
  · exact h.live
  · exact h.room
  · intro x hx
    rw [← h.outside x hx]
    exact Memory.write_outside (.inl hx)

end

end

end Allocated

/-!
## Separating an area
-/

/-- The slot of a record at the end of the record area. -/
def endSlot (page : SpagePage) (recordLength : Int) (recordType : RecType) : SpageSlot where
  offsetToRecord := bits14 page.offsetToFreeArea
  recordLength := bits14 recordLength
  recordType := recordType

theorem endSlot_fits (page : SpagePage) (recordLength : Int) (recordType : RecType) :
    (endSlot page recordLength recordType).Fits :=
  ⟨bits14_lt _, bits14_lt _⟩

variable {recordLength : Int}

theorem endSlot_size (page : SpagePage) (recordType : RecType) (h0 : 0 <= recordLength)
    (h : recordLength < 16384) (a : Alignment) :
    (endSlot page recordLength recordType).size a = dbAlign recordLength a := by
  unfold SpageSlot.size endSlot
  rw [bits14_eq h0 h]

/-- The page that is handed to the separation: a slot may have been added. -/
structure Prepared (page page1 : SpagePage) (k : Nat) (isNew : Bool) : Prop where
  same : page1 = { page with numSlots := page.numSlots + isNew.toNat, bytes := page1.bytes }
  bytes : forall x, x < slotAddress (page.numSlots - 1 + isNew.toNat) ->
    page1.bytes x = page.bytes x
  slots_new : isNew = true -> k <= page.numSlots ∧ exists e, page1.slots = page.slots.insertIdx k e
  slots_old : isNew = false ->
    k < page.numSlots ∧ (page.slot k).occupied = false ∧ page1.slots = page.slots

variable {page page1 : SpagePage} {k : Nat} {recordType : RecType}

theorem allocated_separateArea {isNew : Bool} (hpage : Accounts page.area page.slots)
    (hprepared : Prepared page page1 k isNew) (h0 : 0 <= recordLength)
    (hmax : recordLength <= spageMaxRecordSize)
    (hlive : recordType ≠ .markdeleted ∧ recordType ≠ .deletedWillReuse)
    (hroom : dbAlign recordLength page.alignment + sizeofSpageSlot * isNew.toNat <= page.contFree) :
    Allocated page (separateArea page1 k recordLength recordType
        (dbAlign recordLength page.alignment + sizeofSpageSlot * isNew.toNat))
      k (endSlot page recordLength recordType) isNew := by
  have hlt : recordLength < 16384 := lt_of_le_of_lt hmax (by decide)
  have hsize := endSlot_size page recordType h0 hlt page.alignment
  have hfree := hpage.free_add_contFree
  have hcont := hpage.page_contFree_nonneg
  have hheader : sizeofSpageHeader <= page.offsetToFreeArea := hpage.header_le
  have hpos : (0 : Int) < sizeofSpageHeader := by decide
  have hsize0 := dbAlign_nonneg (a := page.alignment) h0
  have hslotsize : sizeofSpageSlot = 4 := rfl
  rw [slotAddress_eq, show dbPagesize = 16376 from rfl] at hfree
  have hend : (endSlot page recordLength recordType) = endSlot page1 recordLength recordType := by
    rw [hprepared.same]
    rfl
  have hseparate : separateArea page1 k recordLength recordType
      (dbAlign recordLength page.alignment + sizeofSpageSlot * isNew.toNat) =
      { page with
        numSlots := page.numSlots + isNew.toNat
        numRecords := page.numRecords + 1
        totalFree := page.totalFree -
          (dbAlign recordLength page.alignment + sizeofSpageSlot * isNew.toNat)
        contFree := page.contFree -
          (dbAlign recordLength page.alignment + sizeofSpageSlot * isNew.toNat)
        offsetToFreeArea := page.offsetToFreeArea + dbAlign recordLength page.alignment
        bytes := (page1.setSlot k (endSlot page recordLength recordType)).bytes } := by
    rw [hend, hprepared.same]
    unfold separateArea
    dsimp only
    rw [add_dbWastedAlign]
    rfl
  have hslots : (separateArea page1 k recordLength recordType
      (dbAlign recordLength page.alignment + sizeofSpageSlot * isNew.toNat)).slots =
      page1.slots.set k (endSlot page recordLength recordType) := by
    rw [← slots_setSlot (endSlot_fits _ _ _), hseparate]
    have hnum : page1.numSlots = page.numSlots + isNew.toNat := by
      rw [hprepared.same]
    unfold slots
    rw [show (page1.setSlot k (endSlot page recordLength recordType)).numSlots = page1.numSlots from
      rfl, hnum]
    rfl
  constructor
  · rw [hsize, hseparate]
  · intro hnew
    rcases hprepared.slots_new hnew with ⟨hk, e, hinsert⟩
    refine ⟨hk, ?_⟩
    have hne : k ≠ (page.slots.insertIdx k e).length := by
      rw [length_insertIdx_of_le_length (by rwa [page.length_slots]), page.length_slots]
      omega
    rw [hslots, hinsert, ← insertIdx_eraseIdx_self hne, eraseIdx_insertIdx_self]
  · intro hold
    rcases hprepared.slots_old hold with ⟨hk, hempty, hsame⟩
    exact ⟨hk, hempty, by rw [hslots, hsame]⟩
  · exact bits14_eq (by omega) (by omega)
  · exact hlive
  · rw [hsize]
    exact hroom
  intro x hx
  rw [hseparate]
  have hk : (k : Int) <= page.numSlots - 1 + isNew.toNat := by
    cases isNew with
    | false =>
      have := (hprepared.slots_old rfl).1
      rw [Bool.toNat_false]
      omega
    | true =>
      have := (hprepared.slots_new rfl).1
      rw [Bool.toNat_true]
      omega
  have hroom' := hroom
  rw [hslotsize] at hroom'
  rw [setSlot_outside (by rw [slotAddress_eq, show dbPagesize = 16376 from rfl]; omega)]
  apply hprepared.bytes
  rw [slotAddress_eq, show dbPagesize = 16376 from rfl]
  omega

theorem allocated_new (hpage : Accounts page.area page.slots)
    (hprepared : Prepared page page1 k true) (h0 : 0 <= recordLength)
    (hmax : recordLength <= spageMaxRecordSize)
    (hlive : recordType ≠ .markdeleted ∧ recordType ≠ .deletedWillReuse)
    (hroom : dbAlign recordLength page.alignment + sizeofSpageSlot <= page.contFree) :
    Allocated page (separateArea page1 k recordLength recordType
        (dbAlign recordLength page.alignment + sizeofSpageSlot))
      k (endSlot page recordLength recordType) true :=
  allocated_separateArea hpage hprepared h0 hmax hlive hroom

variable {page : SpagePage}

theorem allocated_old (hpage : Accounts page.area page.slots) (hk : k < page.numSlots)
    (hempty : (page.slot k).occupied = false) (h0 : 0 <= recordLength)
    (hmax : recordLength <= spageMaxRecordSize)
    (hlive : recordType ≠ .markdeleted ∧ recordType ≠ .deletedWillReuse)
    (hroom : dbAlign recordLength page.alignment <= page.contFree) :
    Allocated page
      (separateArea page k recordLength recordType (dbAlign recordLength page.alignment))
      k (endSlot page recordLength recordType) false := by
  have hprepared : Prepared page page k false :=
    ⟨rfl, fun _ _ => rfl, nofun, fun _ => ⟨hk, hempty, rfl⟩⟩
  have hsep := allocated_separateArea hpage hprepared h0 hmax hlive
  rw [Bool.toNat_false, Int.natCast_zero, Int.mul_zero, Int.add_zero] at hsep
  exact hsep hroom

theorem prepared_end {m : Memory}
    (hpage1 : page1 = { page with numSlots := page.numSlots + 1, bytes := m })
    (hbytes : forall x, x < slotAddress page.numSlots ∨ slotAddress page.numSlots + 4 <= x ->
      m x = page.bytes x) : Prepared page page1 page.numSlots true := by
  subst hpage1
  constructor
  · rfl
  · intro x hx
    rw [slotAddress_eq] at hx
    apply hbytes
    rw [slotAddress_eq, Bool.toNat_true] at *
    omega
  · intro _
    refine ⟨le_refl _, _, slots_insert rfl (le_refl _) ?_ rfl ?_⟩
    · intro j hj
      apply slot_congr
      intro x hlow _
      apply hbytes
      rw [slotAddress_eq] at hlow ⊢
      omega
    · intro j hlow hhigh
      omega
  · intro hold
    cases hold

/-- A page whose slots from `k` on have been shifted. -/
theorem prepared_shift (hk : k <= page.numSlots) :
    Prepared page
      { spageShiftSlotUp page k with numSlots := (spageShiftSlotUp page k).numSlots + 1 } k true := by
  unfold spageShiftSlotUp
  rcases shiftSlotUpLoop_spec page page.numSlots (page.numSlots - k : Int).toNat with
    ⟨m, hrun, hbytes, hslot⟩
  have hcount : ((page.numSlots - k : Int).toNat : Int) = page.numSlots - k := by omega
  rw [hcount] at hslot
  rw [hrun]
  let e : SpageSlot := ⟨bits14 spageEmptyOffset, bits14 0, .unknown⟩
  have hset (j : Nat) (hne : j ≠ k) : (({ page with bytes := m } : SpagePage).setSlot k e).slot j =
      ({ page with bytes := m } : SpagePage).slot j :=
    slot_setSlot_of_ne (by omega)
  constructor
  · rfl
  · intro x hx
    rw [slotAddress_eq, Bool.toNat_true] at hx
    rw [← hbytes x (by rw [slotAddress_eq]; omega)]
    apply setSlot_outside
    rw [slotAddress_eq]
    omega
  · intro _
    refine ⟨hk, _, slots_insert rfl hk ?_ rfl ?_⟩
    · intro j hj
      exact (hset j (by omega)).trans ((hslot j).trans (if_neg (by omega)))
    intro j hlow hhigh
    refine (hset j (by omega)).trans ((hslot j).trans ((if_pos (by omega)).trans ?_))
    rw [Int.natCast_sub (by omega)]
    rfl
  · intro hold
    cases hold

/-!
## Space
-/

/-- The header is right for the slots; without anchors every slot is in use. -/
structure Consistent (page : SpagePage) : Prop where
  accounts : Accounts page.area page.slots
  full : page.anchorType ≠ .anchored -> forall s, s ∈ page.slots -> s.occupied = true
  saved : forall head, page.saveHead = some head -> 0 <= head.totalSaved

variable {page page' : SpagePage}

theorem Compacted.numSlots (h : Compacted page page') : page'.numSlots = page.numSlots := by
  rw [h.same]

structure Kept (page page' : SpagePage) : Prop where
  numSlots : page'.numSlots = page.numSlots
  numRecords : page'.numRecords = page.numRecords
  anchorType : page'.anchorType = page.anchorType
  alignment : page'.alignment = page.alignment
  totalFree : page'.totalFree = page.totalFree
  isSaving : page'.isSaving = page.isSaving
  saveHead : page'.saveHead = page.saveHead
  length : forall i : Nat, i < page.numSlots ->
    (page'.slot i).recordLength = (page.slot i).recordLength
  type : forall i : Nat, i < page.numSlots -> (page'.slot i).recordType = (page.slot i).recordType
  occupied : forall i : Nat, i < page.numSlots -> (page'.slot i).occupied = (page.slot i).occupied
  contents : page'.contents = page.contents

theorem MaybeCompacted.kept (h : MaybeCompacted page page') : Kept page page' := by
  rcases h with rfl | h
  · exact ⟨rfl, rfl, rfl, rfl, rfl, rfl, rfl, fun _ _ => rfl, fun _ _ => rfl, fun _ _ => rfl, rfl⟩
  have hcontents : page'.contents = page.contents := by
    unfold contents slots
    rw [h.numSlots, map_map, map_map]
    apply map_congr_left
    intro i hi
    exact h.record i (mem_range.mp hi)
  refine ⟨h.numSlots, ?_, ?_, ?_, ?_, ?_, ?_, h.length, h.type, h.occupied, hcontents⟩
  all_goals rw [h.same]

theorem Consistent.totalSaved_nonneg (hpage : Consistent page) (thread : ThreadEntry) :
    0 <= spageGetTotalSavedSpaces thread page := by
  unfold spageGetTotalSavedSpaces
  split_ifs
  · exact le_refl 0
  · split
    · exact le_refl 0
    · next head hhead => exact hpage.saved head hhead
  · exact le_refl 0

theorem spageHasEnoughTotalSpace_le {thread : ThreadEntry} {space : Int} (hpage : Consistent page)
    (h : spageHasEnoughTotalSpace thread page space = true) : space <= page.totalFree := by
  have hcont := hpage.accounts.page_contFree_nonneg
  have hle := hpage.accounts.page_contFree_le
  have hsaved := hpage.totalSaved_nonneg thread
  unfold spageHasEnoughTotalSpace at h
  split_ifs at h with hspace hsaving hactive
  · omega
  · have := of_decide_eq_true h
    omega
  · have := of_decide_eq_true h
    omega
  · exact of_decide_eq_true h

variable (thread : ThreadEntry)

theorem spageHasEnoughContiguousSpace_spec {space : Int} (hpage : Consistent page)
    (hspace : space <= page.totalFree) :
    exists enough page', spageHasEnoughContiguousSpace thread page space = (enough, page') ∧
      MaybeCompacted page page' ∧ (enough = true -> space <= page'.contFree) ∧
      (CanCompact thread page -> enough = true) := by
  unfold spageHasEnoughContiguousSpace
  split_ifs with hcont
  · exact ⟨true, page, rfl, .inl rfl, fun _ => hcont, fun _ => rfl⟩
  rcases spageCompact_spec thread hpage.accounts with ⟨hcan, hfail⟩ | ⟨page', hok, hcompacted⟩
  · exact ⟨false, page, hfail, .inl rfl, fun h => (by cases h), fun h => absurd h hcan⟩
  · refine ⟨true, page', hok, .inr hcompacted, fun _ => ?_, fun _ => rfl⟩
    rw [hcompacted.same]
    exact hspace

theorem spageCheckSpace_spec (space : Int) (hpage : Consistent page) :
    exists status page', spageCheckSpace thread page space = (status, page') ∧
      MaybeCompacted page page' ∧ (status = .success -> space <= page'.contFree) ∧
      (CanCompact thread page -> spageHasEnoughTotalSpace thread page space = true ->
        status = .success) := by
  unfold spageCheckSpace
  split_ifs with htotal
  · rcases spageHasEnoughContiguousSpace_spec thread hpage
      (spageHasEnoughTotalSpace_le hpage htotal) with ⟨enough, page', hrun, hmid, hcont, hcan⟩
    rw [hrun]
    cases enough with
    | true => exact ⟨.success, page', rfl, hmid, fun _ => hcont rfl, fun _ _ => rfl⟩
    | false => exact ⟨.error, page', rfl, hmid, fun h => (by cases h), fun h => by cases hcan h⟩
  · exact ⟨.doesntFit, page, rfl, .inl rfl, fun h => (by cases h), fun _ h => absurd h htotal⟩

/-!
## Looking for a slot
-/

/-- A record gets a slot of its own at the end, and on a page without anchors anywhere. -/
def takesNewSlot (page : SpagePage) (k : Nat) : Bool :=
  k = page.numSlots ∨ page.anchorType ≠ .anchored

/-- The record has slot `k` and an area on the page, which may have been compacted. -/
def AllocatedAt (page page' : SpagePage) (k : Nat) (recordLength : Int) (recordType : RecType) :
    Prop :=
  exists mid, MaybeCompacted page mid ∧
    Allocated mid page' k (endSlot mid recordLength recordType) (takesNewSlot page k)

theorem Consistent.dead_empty (hpage : Consistent page) (hk : k < page.numSlots)
    (hdead : (page.slot k).recordType = .deletedWillReuse) : (page.slot k).occupied = false := by
  rw [← Bool.not_eq_true]
  intro hocc
  exact (hpage.accounts.placed _ (slot_mem_slots hk) hocc).live.2 hdead

theorem Consistent.takesNewSlot_of_empty (hpage : Consistent page) (hk : k < page.numSlots)
    (hempty : (page.slot k).occupied = false) : takesNewSlot page k = false := by
  unfold takesNewSlot
  rw [decide_eq_false_iff_not, not_or, not_not]
  refine ⟨Nat.ne_of_lt hk, ?_⟩
  by_contra hanchor
  rw [hpage.full hanchor _ (slot_mem_slots hk)] at hempty
  cases hempty

section

variable {page : SpagePage} {recordLength : Int} {recordType : RecType}

theorem spageFindFreeSlot_spec (page : SpagePage) :
    spageFindFreeSlot page = page.numSlots ∨
      (spageFindFreeSlot page < page.numSlots ∧
        (page.slot (spageFindFreeSlot page)).recordType = .deletedWillReuse) := by
  unfold spageFindFreeSlot
  split_ifs with hfull
  · exact .inl rfl
  cases hfind : (List.range page.numSlots).find? fun i : Nat =>
      decide ((page.slot i).recordType = .deletedWillReuse) with
  | none => exact .inl rfl
  | some i =>
    right
    have hmem := mem_of_find?_eq_some hfind
    have htype := find?_some hfind
    exact ⟨mem_range.mp hmem, of_decide_eq_true htype⟩

/-- The page takes a record of this length with a new slot. -/
def HasRoom (thread : ThreadEntry) (page : SpagePage) (recordLength : Int) : Prop :=
  CanCompact thread page ∧ spageHasEnoughTotalSpace thread page
    (dbAlign recordLength page.alignment + sizeofSpageSlot) = true

theorem spageHasEnoughTotalSpace_mono {thread : ThreadEntry} {space more : Int}
    (hle : space <= more) (h : spageHasEnoughTotalSpace thread page more = true) :
    spageHasEnoughTotalSpace thread page space = true := by
  unfold spageHasEnoughTotalSpace at h ⊢
  grind

variable (thread : ThreadEntry)

theorem spageFindEmptySlot_spec (hpage : Consistent page) (h0 : 0 <= recordLength)
    (hmax : recordLength <= spageMaxRecordSize)
    (hlive : recordType ≠ .markdeleted ∧ recordType ≠ .deletedWillReuse) :
    exists status page' slotId,
      spageFindEmptySlot thread page recordLength recordType = (status, page', slotId) ∧
      ((status ≠ .success ∧ MaybeCompacted page page' ∧ ¬ HasRoom thread page recordLength) ∨
        (status = .success ∧ slotId = spageFindFreeSlot page ∧
          AllocatedAt page page' (spageFindFreeSlot page) recordLength recordType)) := by
  unfold spageFindEmptySlot
  dsimp only
  rw [add_dbWastedAlign]
  split_ifs with htotal hend
  · rcases spageCheckSpace_spec thread (dbAlign recordLength page.alignment + sizeofSpageSlot) hpage
      with ⟨status, mid, hrun, hmid, hcont, hcan⟩
    rw [hrun]
    cases status with
    | success =>
      refine ⟨_, _, _, rfl, .inr ⟨rfl, rfl, mid, hmid, ?_⟩⟩
      have hnew : takesNewSlot page (spageFindFreeSlot page) = true :=
        decide_eq_true (.inl hend)
      rw [hnew, hend, ← hmid.kept.numSlots, ← hmid.kept.alignment]
      rw [← hmid.kept.alignment] at hcont
      exact allocated_new (hmid.accounts hpage.accounts) (prepared_end rfl fun x _ => rfl) h0 hmax
        hlive (hcont rfl)
    | error | doesntFit =>
      exact ⟨_, _, _, rfl, .inl ⟨nofun, hmid, fun h => by cases hcan h.1 h.2⟩⟩
  · rcases spageHasEnoughContiguousSpace_spec thread hpage
      (spageHasEnoughTotalSpace_le hpage htotal) with ⟨enough, mid, hrun, hmid, hcont, hcan⟩
    rw [hrun]
    cases enough with
    | true =>
      refine ⟨_, _, _, rfl, .inr ⟨rfl, rfl, mid, hmid, ?_⟩⟩
      rcases spageFindFreeSlot_spec page with heq | ⟨hk, hdead⟩
      · exact absurd heq hend
      have hempty := hpage.dead_empty hk hdead
      rw [hpage.takesNewSlot_of_empty hk hempty]
      rw [← hmid.kept.occupied _ hk] at hempty
      rw [← hmid.kept.alignment] at hcont ⊢
      exact allocated_old (hmid.accounts hpage.accounts) (hmid.kept.numSlots ▸ hk) hempty h0 hmax
        hlive (hcont rfl)
    | false => exact ⟨_, _, _, rfl, .inl ⟨nofun, hmid, fun h => by cases hcan h.1⟩⟩
  · refine ⟨_, _, _, rfl, .inl ⟨nofun, .inl rfl, fun h => htotal ?_⟩⟩
    exact spageHasEnoughTotalSpace_mono (Int.le_add_of_nonneg_right (by decide)) h.2

/-- A slot is ready for the separation of an area of the given space. -/
def ReadySlot (page : SpagePage) (found : SpStatus × SpagePage × Int) (k : Nat) (size : Int) :
    Prop :=
  (found.1 ≠ .success ∧ MaybeCompacted page found.2.1) ∨
    (found.1 = .success ∧ exists mid, MaybeCompacted page mid ∧
      Prepared mid found.2.1 k (takesNewSlot page k) ∧
      found.2.2 = size + sizeofSpageSlot * (takesNewSlot page k).toNat ∧
      size + sizeofSpageSlot * (takesNewSlot page k).toNat <= mid.contFree)

section

variable (hpage : Consistent page)
include hpage

theorem spageAddNewSlot_spec (size : Int) :
    ReadySlot page (spageAddNewSlot thread page size) page.numSlots size := by
  have hnew : takesNewSlot page page.numSlots = true := decide_eq_true (.inl rfl)
  unfold ReadySlot spageAddNewSlot
  rw [hnew, Bool.toNat_true, Int.natCast_one, Int.mul_one]
  dsimp only
  rcases spageCheckSpace_spec thread (size + sizeofSpageSlot) hpage with
    ⟨status, mid, hrun, hmid, hcont, _⟩
  rw [hrun]
  cases status with
  | success =>
    refine .inr ⟨rfl, mid, hmid, ?_, rfl, hcont rfl⟩
    rw [← hmid.kept.numSlots]
    apply prepared_end
    · rfl
    intro x hx
    apply setSlot_outside
    rw [Int.natCast_add, Int.natCast_one, Int.add_sub_cancel]
    exact hx
  | error | doesntFit => exact .inl ⟨nofun, hmid⟩

theorem spageTakeSlotInUse_spec {k : Nat} (hk : k < page.numSlots) (size : Int) :
    ReadySlot page (spageTakeSlotInUse thread page k size) k size := by
  unfold ReadySlot spageTakeSlotInUse
  split_ifs with hdead hanchor
  · have hempty := hpage.dead_empty hk hdead
    rw [hpage.takesNewSlot_of_empty hk hempty, Bool.toNat_false, Int.natCast_zero, Int.mul_zero,
      Int.add_zero]
    rcases spageCheckSpace_spec thread size hpage with ⟨status, mid, hrun, hmid, hcont, _⟩
    rw [hrun]
    cases status with
    | success =>
      refine .inr ⟨rfl, mid, hmid, ?_, rfl, hcont rfl⟩
      rw [← hmid.kept.occupied k hk] at hempty
      exact ⟨rfl, fun _ _ => rfl, nofun, fun _ => ⟨hmid.kept.numSlots ▸ hk, hempty, rfl⟩⟩
    | error | doesntFit => exact .inl ⟨nofun, hmid⟩
  · exact .inl ⟨nofun, .inl rfl⟩
  · have hnew : takesNewSlot page k = true := decide_eq_true (.inr hanchor)
    rw [hnew, Bool.toNat_true, Int.natCast_one, Int.mul_one]
    rcases spageCheckSpace_spec thread (size + sizeofSpageSlot) hpage with
      ⟨status, mid, hrun, hmid, hcont, _⟩
    dsimp only
    rw [hrun]
    cases status with
    | success =>
      exact .inr ⟨rfl, mid, hmid, prepared_shift (hmid.kept.numSlots ▸ Nat.le_of_lt hk), rfl,
        hcont rfl⟩
    | error | doesntFit => exact .inl ⟨nofun, hmid⟩

theorem spageFindEmptySlotAt_spec (k : Nat) (h0 : 0 <= recordLength)
    (hmax : recordLength <= spageMaxRecordSize)
    (hlive : recordType ≠ .markdeleted ∧ recordType ≠ .deletedWillReuse) :
    exists status page',
      spageFindEmptySlotAt thread page k recordLength recordType = (status, page') ∧
      ((status ≠ .success ∧ MaybeCompacted page page') ∨
        (status = .success ∧ k <= page.numSlots ∧
          AllocatedAt page page' k recordLength recordType)) := by
  unfold spageFindEmptySlotAt
  dsimp only
  rw [add_dbWastedAlign]
  by_cases hlarge : (k : Int) > page.numSlots
  · rw [if_pos hlarge]
    exact ⟨_, _, rfl, .inl ⟨nofun, .inl rfl⟩⟩
  rw [if_neg hlarge]
  have hready : ReadySlot page (if (k : Int) = page.numSlots then
        spageAddNewSlot thread page (dbAlign recordLength page.alignment)
      else spageTakeSlotInUse thread page k (dbAlign recordLength page.alignment)) k
      (dbAlign recordLength page.alignment) := by
    split_ifs with hend
    · have hk : k = page.numSlots := by exact_mod_cast hend
      rw [hk]
      exact spageAddNewSlot_spec thread hpage _
    · exact spageTakeSlotInUse_spec thread hpage (by omega) _
  rcases hfound : (if (k : Int) = page.numSlots then
      spageAddNewSlot thread page (dbAlign recordLength page.alignment)
    else spageTakeSlotInUse thread page k (dbAlign recordLength page.alignment)) with
    ⟨status, page1, space⟩
  rw [hfound] at hready
  rcases hready with ⟨hfail, hmid⟩ | ⟨hok, mid, hmid, hprepared, hspace, hroom⟩
  · cases status with
    | success => exact absurd rfl hfail
    | error | doesntFit => exact ⟨_, _, rfl, .inl ⟨nofun, hmid⟩⟩
  change space = _ at hspace
  subst hok
  refine ⟨_, _, rfl, .inr ⟨rfl, by omega, mid, hmid, ?_⟩⟩
  rw [hspace]
  rw [← hmid.kept.alignment] at hroom ⊢
  exact allocated_separateArea (hmid.accounts hpage.accounts) hprepared h0 hmax hlive hroom

end

end

end Rye.Storage
