import Rye.Storage.SlottedPage.Allocation

/-!
# Insertion

What an operation does to a page is described by the records of the page and by the
types of its slots; the counters follow from them.  An insertion puts one record into
the list, and a failed one leaves the records alone.
-/

namespace Rye.Storage

open Foundation List

def SpagePage.types (page : SpagePage) : List RecType :=
  page.slots.map SpageSlot.recordType

/-- The page has the given records and slot types, and its counters are right. -/
structure Effect (page page' : SpagePage) (contents : List (Option Record))
    (types : List RecType) : Prop where
  accounts : Accounts page'.area page'.slots
  anchorType : page'.anchorType = page.anchorType
  alignment : page'.alignment = page.alignment
  isSaving : page'.isSaving = page.isSaving
  saveHead : page'.saveHead = page.saveHead
  contents : page'.contents = contents
  types : page'.types = types
  visible : page'.numSlots <= page.numSlots -> page.Visible -> page'.Visible

variable {page page' : SpagePage}

theorem Effect.refl (hpage : Accounts page.area page.slots) :
    Effect page page page.contents page.types :=
  ⟨hpage, rfl, rfl, rfl, rfl, rfl, rfl, fun _ h => h⟩

variable {contents : List (Option Record)} {types : List RecType} {k : Nat} {t : SpageSlot}
    {isNew : Bool}

theorem Effect.trans {mid : SpagePage} {contents' : List (Option Record)} {types' : List RecType}
    (h : Effect page mid contents types) (h' : Effect mid page' contents' types')
    (hnum : mid.numSlots = page.numSlots) :
    Effect page page' contents' types' where
  accounts := h'.accounts
  anchorType := h'.anchorType.trans h.anchorType
  alignment := h'.alignment.trans h.alignment
  isSaving := h'.isSaving.trans h.isSaving
  saveHead := h'.saveHead.trans h.saveHead
  contents := h'.contents
  types := h'.types
  visible hle hvisible := h'.visible (by rwa [hnum]) (h.visible (le_of_eq hnum) hvisible)

theorem length_contents (page : SpagePage) : page.contents.length = page.numSlots := by
  rw [SpagePage.contents, length_map, page.length_slots]

theorem Effect.numSlots (h : Effect page page' contents types) :
    page'.numSlots = contents.length := by
  rw [← length_contents, h.contents]

theorem recordOf_isSome (m : Memory) (slot : SpageSlot) :
    (recordOf m slot).isSome = slot.occupied := by
  unfold recordOf
  cases slot.occupied <;> rfl

theorem Consistent.contents_isSome (hpage : Consistent page)
    (hanchor : page.anchorType ≠ .anchored) : forall r, r ∈ page.contents -> r.isSome = true := by
  intro r hr
  rcases mem_map.mp hr with ⟨s, hs, rfl⟩
  rw [recordOf_isSome]
  exact hpage.full hanchor s hs

theorem Consistent.of_effect (hpage : Consistent page) (h : Effect page page' contents types)
    (hfull : page.anchorType ≠ .anchored -> forall r, r ∈ contents -> r.isSome = true) :
    Consistent page' where
  accounts := h.accounts
  full hanchor s hs := by
    rw [h.anchorType] at hanchor
    rw [← recordOf_isSome page'.bytes]
    apply hfull hanchor
    rw [← h.contents]
    exact mem_map_of_mem hs
  saved head hhead := hpage.saved head (h.saveHead ▸ hhead)

theorem StartsUpTo.visible (hpage : Accounts page.area page.slots)
    (h : page.StartsUpTo page.offsetToFreeArea) : page.Visible := by
  intro s hs hocc
  have hstart := h s hs hocc
  have hfree := hpage.free_add_contFree
  have hcont := hpage.page_contFree_nonneg
  omega

theorem MaybeCompacted.effect (h : MaybeCompacted page page')
    (hpage : Accounts page.area page.slots) : Effect page page' page.contents page.types where
  accounts := h.accounts hpage
  anchorType := h.kept.anchorType
  alignment := h.kept.alignment
  isSaving := h.kept.isSaving
  saveHead := h.kept.saveHead
  contents := h.kept.contents
  types := by
    unfold SpagePage.types SpagePage.slots
    rw [h.kept.numSlots, map_map, map_map]
    apply map_congr_left
    intro i hi
    exact h.kept.type i (mem_range.mp hi)
  visible _ hvisible := by
    rcases h with rfl | h
    · exact hvisible
    · exact StartsUpTo.visible h.accounts h.start

/-- Put an element into a list, as a new one or in place of an old one. -/
def putAt {α : Type} (isNew : Bool) (l : List α) (k : Nat) (x : α) : List α :=
  if isNew then l.insertIdx k x else l.set k x

section

variable (h : Allocated page page' k t isNew)
include h

theorem Allocated.visible (hpage : Accounts page.area page.slots)
    (hstart : page.StartsUpTo (slotAddress (page'.numSlots - 1))) : page'.Visible := by
  have hfree := (h.accounts hpage).free_add_contFree
  have hcont := (h.accounts hpage).page_contFree_nonneg
  have hsize := t.size_nonneg page.alignment
  have hend : page'.offsetToFreeArea = page.offsetToFreeArea + t.size page.alignment := by
    rw [h.same]
  have hoffset := h.offset
  intro s hs hocc
  have hmem : s = t ∨ s ∈ page.slots := by
    cases isNew with
    | false =>
      rw [(h.slots_old rfl).2.2] at hs
      exact (mem_or_eq_of_mem_set hs).symm
    | true =>
      rw [(h.slots_new rfl).2] at hs
      exact eq_or_mem_of_mem_insertIdx hs
  cases hmem with
  | inl heq =>
    rw [heq]
    omega
  | inr hmem => exact hstart s hmem hocc

theorem Allocated.effect (hpage : Accounts page.area page.slots) :
    Effect page page' (putAt isNew page.contents k (recordOf page'.bytes t))
      (putAt isNew page.types k t.recordType) where
  accounts := h.accounts hpage
  anchorType := by rw [h.same]
  alignment := by rw [h.same]
  isSaving := by rw [h.same]
  saveHead := by rw [h.same]
  contents := h.contents_eq hpage
  types := by
    unfold SpagePage.types putAt
    cases isNew with
    | false =>
      rw [(h.slots_old rfl).2.2, map_set]
      rfl
    | true =>
      rw [(h.slots_new rfl).2, map_insertIdx]
      rfl
  visible hle hvisible := by
    cases isNew with
    | false =>
      have hnum : page'.numSlots = page.numSlots := by
        rw [h.same]
        rfl
      apply h.visible hpage
      rw [hnum]
      exact hvisible
    | true =>
      have hnum : page'.numSlots = page.numSlots + 1 := by
        rw [h.same]
        rfl
      omega

theorem Allocated.slot_eq : page'.slot k = t := by
  have hnum : page'.numSlots = page.numSlots + isNew.toNat := by
    rw [h.same]
  cases isNew with
  | false =>
    rcases h.slots_old rfl with ⟨hk, _, hslots⟩
    have hlt : k < page'.slots.length := by
      rw [page'.length_slots, hnum]
      exact hk
    rw [← SpagePage.getElem_slots hlt]
    simp only [hslots, getElem_set_self]
  | true =>
    rcases h.slots_new rfl with ⟨hk, hslots⟩
    have hlt : k < page'.slots.length := by
      rw [page'.length_slots, hnum]
      exact Nat.lt_succ_of_le hk
    rw [← SpagePage.getElem_slots hlt]
    simp only [hslots, getElem_insertIdx_self]

end

/-!
## Insertions
-/

def insertedType (type : RecType) : RecType :=
  if type = .markdeleted ∨ type = .deletedWillReuse then .home else type

theorem insertedType_live (type : RecType) :
    insertedType type ≠ .markdeleted ∧ insertedType type ≠ .deletedWillReuse := by
  cases type <;> decide

theorem spageCheckRecordForInsert_eq (recdes : RecDes) :
    spageCheckRecordForInsert recdes =
      if recdes.length > spageMaxRecordSize then (.doesntFit, recdes)
      else (.success, { recdes with type := insertedType recdes.type }) := by
  unfold spageCheckRecordForInsert insertedType
  split_ifs <;> rfl

def RecDes.record (recdes : RecDes) (type : RecType) : Record where
  type := type
  bytes := (List.range recdes.length.toNat).map recdes.data

/-- The record that an insertion leaves; for a new address only its type and length are given. -/
def InsertedRecord (recdes : RecDes) (r : Record) : Prop :=
  r.type = insertedType recdes.type ∧ r.bytes.length = recdes.length.toNat ∧
    (recdes.type ≠ .assignAddress -> r = recdes.record (insertedType recdes.type))

/-- A slot that is added does not reach the start of a record.  After a compaction it
never does, so this is about pages with enough space behind the records. -/
def LeavesVisible (page : SpagePage) (k : Nat) (recordLength : Int) : Prop :=
  takesNewSlot page k = true ->
    dbAlign recordLength page.alignment + sizeofSpageSlot <= page.contFree ->
      page.StartsUpTo (slotAddress page.numSlots)

/-- A record has been put at slot `k`. -/
def Inserted (page page' : SpagePage) (k : Nat) (recdes : RecDes) : Prop :=
  (exists r, InsertedRecord recdes r ∧
    Effect page page' (putAt (takesNewSlot page k) page.contents k (some r))
      (putAt (takesNewSlot page k) page.types k (insertedType recdes.type))) ∧
  (LeavesVisible page k recdes.length -> page.Visible -> page'.Visible)

def AddressFits (alignment : Alignment) (recdes : RecDes) : Prop :=
  recdes.type = .assignAddress -> (sizeofTranid : Int) <= dbAlign recdes.length alignment

theorem recordOf_endSlot {recordLength : Int} {recordType : RecType}
    (hoffset : ((endSlot page recordLength recordType).offsetToRecord : Int) =
      page.offsetToFreeArea) (hpos : 0 < page.offsetToFreeArea)
    (h0 : 0 <= recordLength) (h : recordLength < 16384) (m : Memory) :
    recordOf m (endSlot page recordLength recordType) =
      some ⟨recordType, m.read page.offsetToFreeArea recordLength.toNat⟩ := by
  have hlength : (endSlot page recordLength recordType).recordLength = recordLength.toNat := by
    have hbits : (bits14 recordLength : Int) = recordLength := bits14_eq h0 h
    change bits14 recordLength = _
    omega
  unfold recordOf
  rw [if_pos, hoffset, hlength]
  · rfl
  · rw [SpageSlot.occupied_iff]
    omega

section

variable {page page' : SpagePage} {k : Nat} {isNew : Bool} {recdes : RecDes}

theorem Allocated.end_le (hpage : Accounts page.area page.slots)
    (h : Allocated page page' k (endSlot page recdes.length recdes.type) isNew)
    (h0 : 0 <= recdes.length) (hmax : recdes.length <= spageMaxRecordSize) :
    page.offsetToFreeArea + dbAlign recdes.length page.alignment <= dbPagesize := by
  have hsize := endSlot_size page recdes.type h0 (lt_of_le_of_lt hmax (by decide)) page.alignment
  have hroom := h.room
  rw [hsize] at hroom
  have hfree := hpage.free_add_contFree
  have hslot : (0 : Int) <= sizeofSpageSlot * isNew.toNat := by
    rw [show sizeofSpageSlot = 4 from rfl]
    omega
  rw [slotAddress_eq] at hfree
  omega

theorem Allocated.write_data (hpage : Accounts page.area page.slots)
    (h : Allocated page page' k (endSlot page recdes.length recdes.type) isNew)
    (h0 : 0 <= recdes.length) (hmax : recdes.length <= spageMaxRecordSize) {n : Nat}
    (hn : n <= dbAlign recdes.length page.alignment) (src : Nat -> UInt8) :
    Allocated page { page' with bytes := page'.bytes.write (page'.slot k).offsetToRecord n src } k
      (endSlot page recdes.length recdes.type) isNew := by
  rw [h.slot_eq, h.offset]
  apply h.write hpage
  rwa [endSlot_size page recdes.type h0 (lt_of_le_of_lt hmax (by decide))]

theorem spageInsertData_spec (thread : ThreadEntry) (hpage : Accounts page.area page.slots)
    (h : Allocated page page' k (endSlot page recdes.length recdes.type) isNew)
    (h0 : 0 <= recdes.length) (hmax : recdes.length <= spageMaxRecordSize)
    (hfits : AddressFits page.alignment recdes) :
    exists page'', spageInsertData thread page' recdes k = (.success, page'') ∧
      Allocated page page'' k (endSlot page recdes.length recdes.type) isNew ∧
      (recdes.type ≠ .assignAddress ->
        page''.bytes.read page.offsetToFreeArea recdes.length.toNat =
          (List.range recdes.length.toNat).map recdes.data) := by
  have hend := h.end_le hpage h0 hmax
  have hle := le_dbAlign recdes.length page.alignment
  have hoffset : ((page'.slot k).offsetToRecord : Int) = page.offsetToFreeArea := by
    rw [h.slot_eq]
    exact h.offset
  unfold spageInsertData
  rw [if_neg (by omega)]
  by_cases hassign : recdes.type = .assignAddress
  · have hsize := hfits hassign
    rw [if_neg (not_not.mpr hassign), if_neg (by omega)]
    exact ⟨_, rfl, h.write_data hpage h0 hmax hsize _, fun hne => absurd hassign hne⟩
  rw [if_pos hassign, if_neg (by omega)]
  refine ⟨_, rfl, h.write_data hpage h0 hmax (by omega) _, fun _ => ?_⟩
  rw [← hoffset]
  exact Memory.read_write _ _ _ _

theorem Allocated.inserted (hpage : Accounts page.area page.slots)
    (h : Allocated page page' k (endSlot page recdes.length (insertedType recdes.type)) isNew)
    (h0 : 0 <= recdes.length) (hmax : recdes.length <= spageMaxRecordSize)
    (hdata : recdes.type ≠ .assignAddress ->
      page'.bytes.read page.offsetToFreeArea recdes.length.toNat =
        (List.range recdes.length.toNat).map recdes.data) :
    exists r, InsertedRecord recdes r ∧ Effect page page' (putAt isNew page.contents k (some r))
        (putAt isNew page.types k (insertedType recdes.type)) := by
  have heffect := h.effect hpage
  rw [recordOf_endSlot h.offset (lt_of_lt_of_le (by decide) hpage.header_le) h0
    (lt_of_le_of_lt hmax (by decide))] at heffect
  refine ⟨_, ⟨rfl, ?_, ?_⟩, heffect⟩
  · simp [Memory.read]
  · intro hne
    unfold RecDes.record
    rw [hdata hne]

end

section

variable {page mid page' : SpagePage} {recdes : RecDes} {k : Nat} {type : RecType}

theorem MaybeCompacted.allocated_visible (hmid : MaybeCompacted page mid)
    (hpage : Accounts page.area page.slots)
    (halloc : Allocated mid page' k (endSlot mid recdes.length type) (takesNewSlot page k))
    (h0 : 0 <= recdes.length) (hmax : recdes.length <= spageMaxRecordSize)
    (hleaves : LeavesVisible page k recdes.length) (hvisible : page.Visible) : page'.Visible := by
  have hmidacc := hmid.accounts hpage
  have hnum : page'.numSlots = mid.numSlots + (takesNewSlot page k).toNat := by
    rw [halloc.same]
  have hroom := halloc.room
  rw [endSlot_size mid _ h0 (lt_of_le_of_lt hmax (by decide))] at hroom
  have hsize := dbAlign_nonneg (a := mid.alignment) h0
  apply halloc.visible hmidacc
  cases hnew : takesNewSlot page k with
  | false =>
    rw [hnew, Bool.toNat_false, Nat.add_zero] at hnum
    rw [hnum]
    exact (hmid.effect hpage).visible (le_of_eq hmid.kept.numSlots) hvisible
  | true =>
    rw [hnew, Bool.toNat_true] at hnum hroom
    rw [hnum, Int.natCast_add, Int.natCast_one, Int.add_sub_cancel]
    rw [Int.natCast_one, Int.mul_one] at hroom
    rcases hmid with rfl | hcompacted
    · exact hleaves hnew hroom
    intro s hs hocc
    have hstart := hcompacted.start s hs hocc
    have hfree := hmidacc.free_add_contFree
    rw [slotAddress_eq] at hfree ⊢
    rw [show sizeofSpageSlot = 4 from rfl] at hroom
    omega

theorem MaybeCompacted.inserted (hmid : MaybeCompacted page mid)
    (hpage : Accounts page.area page.slots) (h : exists r, InsertedRecord recdes r ∧
      Effect mid page' (putAt (takesNewSlot page k) mid.contents k (some r))
        (putAt (takesNewSlot page k) mid.types k (insertedType recdes.type)))
    (hvisible : LeavesVisible page k recdes.length -> page.Visible -> page'.Visible) :
    Inserted page page' k recdes := by
  rcases h with ⟨r, hr, heffect⟩
  have hkept := hmid.effect hpage
  refine ⟨⟨r, hr, ?_⟩, hvisible⟩
  rw [← hkept.contents, ← hkept.types]
  exact hkept.trans heffect hmid.kept.numSlots

def RecDes.inserted (recdes : RecDes) : RecDes :=
  { recdes with type := insertedType recdes.type }

theorem insertedType_eq_assignAddress :
    insertedType type = .assignAddress <-> type = .assignAddress := by
  cases type <;> decide

variable (thread : ThreadEntry)

section

variable (hpage : Consistent page)
include hpage

theorem spageInsertData_inserted {page1 : SpagePage} (h0 : 0 <= recdes.length)
    (hmax : recdes.length <= spageMaxRecordSize) (hfits : AddressFits page.alignment recdes)
    (h : AllocatedAt page page1 k recdes.length (insertedType recdes.type)) :
    exists page', spageInsertData thread page1 recdes.inserted k = (.success, page') ∧
      Inserted page page' k recdes := by
  rcases h with ⟨mid, hmid, halloc⟩
  have hfits' : AddressFits mid.alignment recdes.inserted := by
    intro htype
    rw [hmid.kept.alignment]
    exact hfits (insertedType_eq_assignAddress.mp htype)
  have halloc1 : Allocated mid page1 k
      (endSlot mid recdes.inserted.length recdes.inserted.type) (takesNewSlot page k) := halloc
  rcases spageInsertData_spec thread (hmid.accounts hpage.accounts) halloc1 h0 hmax hfits' with
    ⟨page', hrun, halloc', hdata⟩
  refine ⟨page', hrun, hmid.inserted hpage.accounts ?_
    (hmid.allocated_visible hpage.accounts halloc' h0 hmax)⟩
  apply halloc'.inserted (hmid.accounts hpage.accounts) h0 hmax
  intro hne
  exact hdata fun htype => hne (insertedType_eq_assignAddress.mp htype)

theorem spageInsert_spec (h0 : 0 <= recdes.length) (hfits : AddressFits page.alignment recdes) :
    exists status page' slotId, spageInsert thread page recdes = (status, page', slotId) ∧
      ((status ≠ .success ∧ MaybeCompacted page page' ∧
          (recdes.length <= spageMaxRecordSize -> ¬ HasRoom thread page recdes.length)) ∨
        (status = .success ∧ slotId = spageFindFreeSlot page ∧
          Inserted page page' (spageFindFreeSlot page) recdes)) := by
  unfold spageInsert spageFindSlotForInsert
  rw [spageCheckRecordForInsert_eq]
  by_cases hmax : recdes.length > spageMaxRecordSize
  · rw [if_pos hmax]
    exact ⟨_, _, _, rfl, .inl ⟨nofun, .inl rfl, fun h => absurd h (Int.not_le.mpr hmax)⟩⟩
  rw [if_neg hmax]
  dsimp only
  rcases spageFindEmptySlot_spec thread hpage h0 (Int.not_lt.mp hmax)
    (insertedType_live recdes.type) with ⟨status, page1, slotId, hrun, hcases⟩
  rw [hrun]
  rcases hcases with ⟨hfail, hmid, hroom⟩ | ⟨rfl, rfl, halloc⟩
  · cases status with
    | success => exact absurd rfl hfail
    | error | doesntFit => exact ⟨_, _, _, rfl, .inl ⟨nofun, hmid, fun _ => hroom⟩⟩
  rcases spageInsertData_inserted thread hpage h0 (Int.not_lt.mp hmax) hfits halloc with
    ⟨page', hdata, hinserted⟩
  refine ⟨.success, page', _, ?_, .inr ⟨rfl, rfl, hinserted⟩⟩
  change ((spageInsertData thread page1 recdes.inserted (spageFindFreeSlot page : Nat)).1,
    (spageInsertData thread page1 recdes.inserted (spageFindFreeSlot page : Nat)).2, _) = _
  rw [hdata]

theorem spageInsertAt_spec (k : Nat) (hfits : AddressFits page.alignment recdes) :
    exists status page', spageInsertAt thread page k recdes = (status, page') ∧
      ((status ≠ .success ∧ MaybeCompacted page page') ∨
        (status = .success ∧ k <= page.numSlots ∧ 0 <= recdes.length ∧
          Inserted page page' k recdes)) := by
  unfold spageInsertAt
  rw [spageCheckRecordForInsert_eq]
  by_cases h0 : recdes.length < 0
  · rw [if_pos h0]
    exact ⟨_, _, rfl, .inl ⟨nofun, .inl rfl⟩⟩
  rw [if_neg h0]
  by_cases hmax : recdes.length > spageMaxRecordSize
  · rw [if_pos hmax]
    exact ⟨_, _, rfl, .inl ⟨nofun, .inl rfl⟩⟩
  rw [if_neg hmax]
  dsimp only
  by_cases hlarge : (k : Int) > page.numSlots
  · rw [if_pos hlarge]
    exact ⟨_, _, rfl, .inl ⟨nofun, .inl rfl⟩⟩
  rw [if_neg hlarge]
  rcases spageFindEmptySlotAt_spec thread hpage k (Int.not_lt.mp h0) (Int.not_lt.mp hmax)
    (insertedType_live recdes.type) with ⟨status, page1, hrun, hcases⟩
  rw [hrun]
  rcases hcases with ⟨hfail, hmid⟩ | ⟨rfl, hk, halloc⟩
  · cases status with
    | success => exact absurd rfl hfail
    | error | doesntFit => exact ⟨_, _, rfl, .inl ⟨nofun, hmid⟩⟩
  · rcases spageInsertData_inserted thread hpage (Int.not_lt.mp h0) (Int.not_lt.mp hmax) hfits
      halloc with ⟨page', hdata, hinserted⟩
    exact ⟨.success, page', hdata, .inr ⟨rfl, hk, Int.not_lt.mp h0, hinserted⟩⟩

end

/-!
## One slot
-/

theorem map_set_congr {α β : Type} {f f' : α -> β} {l : List α} {k : Nat} (hk : k < l.length)
    (h : forall s, s ∈ l.eraseIdx k -> f' s = f s) (x : β) :
    (l.map f').set k x = (l.map f).set k x := by
  have hset (g : α -> β) : (l.map g).set k x = ((l.eraseIdx k).map g).insertIdx k x := by
    rw [← insertIdx_eraseIdx_self (by rw [length_map]; exact Nat.ne_of_lt hk), eraseIdx_map]
  rw [hset, hset, map_congr_left h]

/-- Only the record of one slot is another one. -/
theorem Effect.of_set {s : SpageSlot} (hk : k < page.numSlots)
    (hsame : page'.anchorType = page.anchorType ∧ page'.alignment = page.alignment ∧
      page'.isSaving = page.isSaving ∧ page'.saveHead = page.saveHead ∧
      page'.numSlots = page.numSlots)
    (hslots : page'.slots = page.slots.set k s)
    (haccounts : Accounts page'.area (s :: page.slots.eraseIdx k))
    (hothers : forall u, u ∈ page.slots.eraseIdx k ->
      recordOf page'.bytes u = recordOf page.bytes u)
    (hstart : page.Visible -> s.occupied = true ->
      s.offsetToRecord <= slotAddress (page.numSlots - 1)) :
    Effect page page' (page.contents.set k (recordOf page'.bytes s))
      (page.types.set k s.recordType) := by
  obtain ⟨hanchor, halignment, hsaving, hhead, hnum⟩ := hsame
  refine ⟨?_, hanchor, halignment, hsaving, hhead, ?_, ?_, ?_⟩
  · rw [hslots]
    exact haccounts.perm (SpagePage.set_perm hk).symm
  · unfold SpagePage.contents
    rw [hslots, map_set, map_set_congr (by rwa [page.length_slots]) hothers]
  · unfold SpagePage.types
    rw [hslots, map_set]
  · exact fun _ hvisible => hvisible.of_set hnum hslots (hstart hvisible)

theorem recordOf_setSlot (hpage : Accounts page.area page.slots) (hk : k < page.numSlots)
    {s u : SpageSlot} (hu : u ∈ page.slots) :
    recordOf (page.setSlot k s).bytes u = recordOf page.bytes u := by
  have hfree := hpage.free_add_contFree
  have hcont := hpage.page_contFree_nonneg
  apply hpage.recordOf_eq _ hu
  intro x _ hx
  change x < page.offsetToFreeArea at hx
  apply SpagePage.setSlot_outside
  rw [slotAddress_eq] at hfree ⊢
  omega

theorem getElem_contents (hk : k < page.contents.length) :
    page.contents[k] = recordOf page.bytes (page.slot k) := by
  simp [SpagePage.contents, SpagePage.slots]

theorem setType_effect (hpage : Accounts page.area page.slots) (hk : k < page.numSlots)
    (hempty : (page.slot k).occupied = false) (type : RecType) :
    Effect page (page.setType k type) page.contents (page.types.set k type) := by
  have hfits : ({ page.slot k with recordType := type } : SpageSlot).Fits :=
    ⟨(page.slot_fits k).offset, (page.slot_fits k).length⟩
  have hlt : k < page.contents.length := by rwa [length_contents]
  have hnone : page.contents[k] = none := by
    rw [getElem_contents, recordOf_empty hempty]
  have heffect : Effect page (page.setType k type) _ _ :=
    .of_set hk ⟨rfl, rfl, rfl, rfl, rfl⟩ (SpagePage.slots_setSlot hfits)
      ((hpage.perm (SpagePage.slots_perm hk)).replaceEmpty hempty hempty)
      (fun _ hu => recordOf_setSlot hpage hk (mem_of_mem_eraseIdx hu))
      (fun _ hocc => by cases hempty.symm.trans hocc)
  have hsame : recordOf (page.setType k type).bytes { page.slot k with recordType := type } =
      none := recordOf_empty hempty
  rwa [hsame, ← hnone, set_getElem_self] at heffect

theorem spageInsertForRecovery_ready (hpage : Consistent page)
    (hempty : k < page.numSlots -> (page.slot k).occupied = false) :
    exists page0, (if (k : Int) < page.numSlots then page.setType k .deletedWillReuse else page) =
        page0 ∧ Effect page page0 page.contents (page.types.set k .deletedWillReuse) ∧
      (k = page.numSlots -> page0 = page) := by
  by_cases hk : k < page.numSlots
  · rw [if_pos (by omega)]
    exact ⟨_, rfl, setType_effect hpage.accounts hk (hempty hk) _, fun heq => by omega⟩
  rw [if_neg (by omega)]
  refine ⟨_, rfl, ?_, fun _ => rfl⟩
  rw [set_eq_of_length_le]
  · exact Effect.refl hpage.accounts
  · rw [SpagePage.types, length_map, page.length_slots]
    omega

theorem spageInsertForRecovery_write (hpage : Consistent page) {page1 : SpagePage}
    (hmid : MaybeCompacted page mid)
    (halloc : Allocated mid page1 k (endSlot mid recdes.length (insertedType recdes.type))
      (takesNewSlot page k)) (h0 : 0 <= recdes.length)
    (hmax : recdes.length <= spageMaxRecordSize) :
    exists page', (if insertedType recdes.type ≠ .assignAddress then
        if (page1.slot k).offsetToRecord + recdes.length > dbPagesize then (SpStatus.error, page1)
        else
          (.success,
            { page1 with
              bytes := page1.bytes.write (page1.slot k).offsetToRecord recdes.length.toNat
                recdes.data })
      else (.success, page1)) = (.success, page') ∧ Inserted page page' k recdes := by
  have hmidacc := hmid.accounts hpage.accounts
  have halloc1 : Allocated mid page1 k
      (endSlot mid recdes.inserted.length recdes.inserted.type) (takesNewSlot page k) := halloc
  have hend := halloc1.end_le hmidacc h0 hmax
  change mid.offsetToFreeArea + dbAlign recdes.length mid.alignment <= dbPagesize at hend
  have hle := le_dbAlign recdes.length mid.alignment
  have hoffset : ((page1.slot k).offsetToRecord : Int) = mid.offsetToFreeArea := by
    rw [halloc.slot_eq]
    exact halloc.offset
  by_cases hassign : recdes.type = .assignAddress
  · rw [if_neg (not_not.mpr (insertedType_eq_assignAddress.mpr hassign))]
    refine ⟨page1, rfl, hmid.inserted hpage.accounts ?_
      (hmid.allocated_visible hpage.accounts halloc h0 hmax)⟩
    exact halloc.inserted hmidacc h0 hmax fun hne => absurd hassign hne
  rw [if_pos (fun htype => hassign (insertedType_eq_assignAddress.mp htype)), if_neg (by omega)]
  have hwritten := halloc1.write_data hmidacc h0 hmax (n := recdes.length.toNat)
    (by change _ <= dbAlign recdes.length _; omega) recdes.data
  refine ⟨_, rfl, hmid.inserted hpage.accounts ?_
    (hmid.allocated_visible hpage.accounts hwritten h0 hmax)⟩
  apply Allocated.inserted hmidacc hwritten h0 hmax
  intro _
  rw [← hoffset]
  exact Memory.read_write _ _ _ _

theorem putAt_set {α : Type} {isNew : Bool} {l : List α} (h : isNew = true -> l.length <= k)
    (x y : α) : putAt isNew (l.set k y) k x = putAt isNew l k x := by
  cases isNew with
  | false => exact set_set y
  | true => rw [set_eq_of_length_le (h rfl)]

theorem Effect.inserted_ready {page0 : SpagePage}
    (h : Effect page page0 page.contents (page.types.set k type))
    (hsame : k = page.numSlots -> page0 = page) (hanchor : page.anchorType = .anchored)
    (hinserted : Inserted page0 page' k recdes) : Inserted page page' k recdes := by
  have hnum : page0.numSlots = page.numSlots := by
    rw [h.numSlots, length_contents]
  have hnew : takesNewSlot page0 k = takesNewSlot page k := by
    unfold takesNewSlot
    rw [hnum, h.anchorType]
  have hend : takesNewSlot page k = true -> k = page.numSlots := by
    intro htrue
    cases of_decide_eq_true htrue with
    | inl heq => exact heq
    | inr hne => exact absurd hanchor hne
  rcases hinserted with ⟨⟨r, hr, heffect⟩, hvisible⟩
  refine ⟨⟨r, hr, ?_⟩, ?_⟩
  · rw [hnew, h.contents, h.types, putAt_set] at heffect
    · exact h.trans heffect hnum
    · intro htrue
      rw [SpagePage.types, length_map, page.length_slots]
      exact Nat.le_of_eq (hend htrue).symm
  · intro hleaves hpage
    apply hvisible
    · intro htrue
      rw [hsame (hend (hnew ▸ htrue))]
      exact hleaves (hnew ▸ htrue)
    · exact h.visible (le_of_eq hnum) hpage

theorem spageInsertForRecovery_spec (hpage : Consistent page) (k : Nat)
    (hempty : page.anchorType = .anchored -> k < page.numSlots -> (page.slot k).occupied = false)
    (hfits : page.anchorType ≠ .anchored -> AddressFits page.alignment recdes) :
    exists status page', spageInsertForRecovery thread page k recdes = (status, page') ∧
      ((status ≠ .success ∧ exists types, Effect page page' page.contents types) ∨
        (status = .success ∧ k <= page.numSlots ∧ 0 <= recdes.length ∧
          Inserted page page' k recdes)) := by
  unfold spageInsertForRecovery
  by_cases h0 : recdes.length < 0
  · rw [if_pos h0]
    exact ⟨_, _, rfl, .inl ⟨nofun, _, Effect.refl hpage.accounts⟩⟩
  rw [if_neg h0]
  by_cases hanchor : page.anchorType = .anchored
  · rw [if_neg (not_not.mpr hanchor), spageCheckRecordForInsert_eq]
    by_cases hmax : recdes.length > spageMaxRecordSize
    · rw [if_pos hmax]
      exact ⟨_, _, rfl, .inl ⟨nofun, _, Effect.refl hpage.accounts⟩⟩
    rw [if_neg hmax]
    dsimp only
    rcases spageInsertForRecovery_ready hpage (hempty hanchor) with
      ⟨page0, hready, heffect, hsame⟩
    rw [hready]
    have hpage0 : Consistent page0 :=
      hpage.of_effect heffect fun hne => absurd hanchor hne
    have hnum : page0.numSlots = page.numSlots := by
      rw [heffect.numSlots, length_contents]
    rcases spageFindEmptySlotAt_spec thread hpage0 k (Int.not_lt.mp h0) (Int.not_lt.mp hmax)
      (insertedType_live recdes.type) with ⟨status, page1, hrun, hcases⟩
    rw [hrun]
    rcases hcases with ⟨hfail, hmid⟩ | ⟨rfl, hk, mid, hmid, halloc⟩
    · have hfailed : exists types, Effect page page1 page.contents types := by
        refine ⟨page0.types, heffect.trans ?_ hnum⟩
        rw [← heffect.contents]
        exact hmid.effect hpage0.accounts
      cases status with
      | success => exact absurd rfl hfail
      | error | doesntFit => exact ⟨_, _, rfl, .inl ⟨nofun, hfailed⟩⟩
    · rcases spageInsertForRecovery_write hpage0 hmid halloc (Int.not_lt.mp h0)
        (Int.not_lt.mp hmax) with ⟨page', hwrite, hinserted⟩
      refine ⟨.success, page', hwrite, .inr ⟨rfl, hnum ▸ hk, Int.not_lt.mp h0, ?_⟩⟩
      exact heffect.inserted_ready hsame hanchor hinserted
  · rw [if_pos hanchor]
    rcases spageInsertAt_spec thread hpage k (hfits hanchor) with ⟨status, page', hrun, hcases⟩
    refine ⟨status, page', hrun, ?_⟩
    rcases hcases with ⟨hfail, hmid⟩ | hok
    · exact .inl ⟨hfail, _, hmid.effect hpage.accounts⟩
    · exact .inr hok

end

end Rye.Storage
