import Rye.Storage.SlottedPage.Savings

/-!
# Undoing operations

The undo of an operation gives a slot its old record back.  What this takes depends on the
sizes of the records only.  This module follows the sizes through the operations and says
how much space a list of undo operations may need, whatever happens to other slots.
-/

namespace Rye.Storage

open Foundation List Function SpagePage Record

/-!
## Sizes
-/

def Record.space (a : Alignment) (r : Record) : Int :=
  dbAlign r.bytes.length a

def spaceOf (a : Alignment) (r : Option Record) : Int :=
  (r.map (space a)).getD 0

def SpagePage.sizes (page : SpagePage) (k : Nat) : Option Int :=
  (page.contents[k]?).join.map (space page.alignment)

theorem space_recordOf (m : Memory) (slot : SpageSlot) (a : Alignment) :
    (recordOf m slot).map (space a) = if slot.occupied then some (slot.size a) else none := by
  unfold recordOf
  cases slot.occupied with
  | true => simp [space, SpageSlot.size, Memory.read]
  | false => rfl

variable {page : SpagePage}

theorem sizes_eq {k : Nat} (hk : k < page.numSlots) :
    page.sizes k =
      if (page.slot k).occupied then some ((page.slot k).size page.alignment) else none := by
  have hlt : k < page.contents.length := by rwa [length_contents]
  unfold sizes
  rw [getElem?_eq_getElem hlt, getElem_contents hlt, Option.join_some, space_recordOf]

theorem sizes_of_le {k : Nat} (hk : page.numSlots <= k) : page.sizes k = none := by
  unfold sizes
  rw [getElem?_eq_none (by rwa [length_contents])]
  rfl

theorem Accounts.totalFree_eq (h : Accounts page.area page.slots) :
    page.totalFree = dbPagesize - sizeofSpageHeader - sizeofSpageSlot * page.contents.length -
      (page.contents.map (spaceOf page.alignment)).sum := by
  have hused : usedSpace page.alignment page.slots =
      (page.contents.map (spaceOf page.alignment)).sum := by
    unfold usedSpace contents
    rw [map_map]
    congr 1
    apply map_congr_left
    intro slot _
    rw [comp_apply, spaceOf, space_recordOf, SpageSlot.room]
    cases slot.occupied <;> rfl
  rw [← hused, length_contents, ← page.length_slots]
  exact h.totalFree

section

variable {page page' : SpagePage} {types : List RecType} (hpage : Accounts page.area page.slots)

theorem Effect.sizes_same (h : Effect page page' page.contents types) :
    page'.sizes = page.sizes := by
  funext k
  rw [sizes, sizes, h.contents, h.alignment]

variable {x : Option Record}

theorem Effect.sizes_set {k : Nat} (hk : k < page.numSlots)
    (h : Effect page page' (page.contents.set k x) types) :
    page'.sizes = update page.sizes k (x.map (space page.alignment)) := by
  funext j
  unfold sizes
  rw [h.contents, h.alignment]
  by_cases hj : j = k
  · subst hj
    rw [getElem?_set_self (by rwa [length_contents]), Option.join_some, update_self]
  · rw [getElem?_set_ne (Ne.symm hj), update_of_ne hj]

theorem Effect.sizes_append (h : Effect page page' (page.contents ++ [x]) types) :
    page'.sizes = update page.sizes page.numSlots (x.map (space page.alignment)) := by
  funext j
  unfold sizes
  rw [h.contents, h.alignment]
  by_cases hj : j = page.numSlots
  · subst hj
    rw [← length_contents, getElem?_concat_length, Option.join_some, update_self]
  rw [update_of_ne hj]
  by_cases hlt : j < page.contents.length
  · rw [getElem?_append_left hlt]
  · rw [length_contents] at hlt
    rw [getElem?_eq_none (by rw [length_append, length_contents, length_singleton]; omega),
      getElem?_eq_none (by rw [length_contents]; omega)]

include hpage

theorem Effect.totalFree_same (h : Effect page page' page.contents types) :
    page'.totalFree = page.totalFree := by
  rw [h.accounts.totalFree_eq, hpage.totalFree_eq, h.contents, h.alignment]

theorem Effect.totalFree_set {k : Nat} (hk : k < page.numSlots)
    (h : Effect page page' (page.contents.set k x) types) :
    page'.totalFree = page.totalFree + (page.sizes k).getD 0 - spaceOf page.alignment x := by
  have hlt : k < (page.contents.map (spaceOf page.alignment)).length := by
    rwa [length_map, length_contents]
  have hold : (page.sizes k).getD 0 = (page.contents.map (spaceOf page.alignment))[k] := by
    rw [getElem_map, sizes, getElem?_eq_getElem, Option.join_some]
    rfl
  have hsum := sum_set' (page.contents.map (spaceOf page.alignment)) k (spaceOf page.alignment x)
  rw [dif_pos hlt] at hsum
  rw [h.accounts.totalFree_eq, hpage.totalFree_eq, h.contents, h.alignment, length_set,
    map_set, hsum, hold]
  omega

theorem Effect.totalFree_append (h : Effect page page' (page.contents ++ [x]) types) :
    page'.totalFree = page.totalFree - sizeofSpageSlot - spaceOf page.alignment x := by
  have hslot : sizeofSpageSlot = 4 := rfl
  rw [h.accounts.totalFree_eq, hpage.totalFree_eq, h.contents, h.alignment, length_append,
    map_append, sum_append, length_singleton, map_singleton, sum_singleton,
    hslot]
  omega

end

/-!
## Undo operations
-/

inductive Undo where
  | insert (slotId : Nat)
  | delete (slotId : Nat) (old : RecDes)
  | update (slotId : Nat) (old : RecDes)

namespace Undo

def slotId : Undo -> Nat
  | .insert slotId | .delete slotId _ | .update slotId _ => slotId

def size (a : Alignment) : Undo -> Option Int
  | .insert _ => none
  | .delete _ old | .update _ old => some (dbAlign old.length a)

def run (thread : ThreadEntry) (page : SpagePage) : Undo -> SpStatus × SpagePage
  | .insert slotId =>
    match spageDeleteForRecovery thread page slotId with
    | (deleted, page) => if deleted = slotId then (.success, page) else (.error, page)
  | .delete slotId old => spageInsertForRecovery thread page slotId old
  | .update slotId old => spageUpdate thread page slotId old

/-- A record to be restored can be stored, and a deleted one has left its slot empty. -/
def Ready (sizes : Nat -> Option Int) : Undo -> Prop
  | .insert _ => True
  | .delete slotId old => sizes slotId = none ∧ 0 <= old.length ∧ old.length <= spageMaxRecordSize
  | .update _ old => 0 <= old.length ∧ old.length <= spageMaxRecordSize

def growth (a : Alignment) (sizes : Nat -> Option Int) (u : Undo) : Int :=
  (u.size a).getD 0 - (sizes u.slotId).getD 0

end Undo

/-- The space that is enough for the operations one after the other, when no other slots
give space back. -/
def undoSpace (a : Alignment) : (Nat -> Option Int) -> List Undo -> Int
  | _, [] => 0
  | sizes, u :: undo =>
    max (u.growth a sizes) 0 + undoSpace a (update sizes u.slotId (u.size a)) undo

/-- Each operation is ready once those before it are done. -/
def Undoable (a : Alignment) (numSlots : Nat) : (Nat -> Option Int) -> List Undo -> Prop
  | _, [] => True
  | sizes, u :: undo =>
    u.slotId < numSlots ∧ u.Ready sizes ∧
      Undoable a numSlots (update sizes u.slotId (u.size a)) undo

section

variable {a : Alignment} {numSlots : Nat} {sizes sizes' : Nat -> Option Int} {undo : List Undo}

theorem Undo.Ready.congr {u : Undo} (h : u.Ready sizes) (hsize : sizes' u.slotId = sizes u.slotId) :
    u.Ready sizes' := by
  cases u with
  | insert slotId => trivial
  | delete slotId old => exact ⟨hsize.trans h.1, h.2⟩
  | update slotId old => exact h

theorem update_congr {k : Nat} {x : Option Int} {vs : List Undo}
    (h : forall v, v ∈ vs -> sizes' v.slotId = sizes v.slotId) (v : Undo) (hv : v ∈ vs) :
    update sizes' k x v.slotId = update sizes k x v.slotId := by
  by_cases heq : v.slotId = k
  · rw [heq, update_self, update_self]
  · rw [update_of_ne heq, update_of_ne heq]
    exact h v hv

theorem undoSpace_congr (h : forall u, u ∈ undo -> sizes' u.slotId = sizes u.slotId) :
    undoSpace a sizes' undo = undoSpace a sizes undo := by
  induction undo generalizing sizes sizes' with
  | nil => rfl
  | cons u undo ih =>
    have hfirst := h u mem_cons_self
    rw [undoSpace, undoSpace, Undo.growth, Undo.growth, hfirst]
    congr 1
    exact ih (update_congr fun v hv => h v (mem_cons_of_mem _ hv))

theorem Undoable.congr (hundo : Undoable a numSlots sizes undo) {numSlots' : Nat}
    (hle : numSlots <= numSlots') (h : forall u, u ∈ undo -> sizes' u.slotId = sizes u.slotId) :
    Undoable a numSlots' sizes' undo := by
  induction undo generalizing sizes sizes' with
  | nil => trivial
  | cons u undo ih =>
    rcases hundo with ⟨hslot, hready, hundo⟩
    refine ⟨lt_of_lt_of_le hslot hle, hready.congr (h u mem_cons_self), ih hundo ?_⟩
    exact update_congr fun v hv => h v (mem_cons_of_mem _ hv)

theorem undoSpace_nonneg (a : Alignment) (sizes : Nat -> Option Int) (undo : List Undo) :
    0 <= undoSpace a sizes undo := by
  induction undo generalizing sizes with
  | nil => exact le_refl 0
  | cons u undo ih =>
    have hrest := ih (update sizes u.slotId (u.size a))
    rw [undoSpace]
    omega

theorem Undoable.slotId_lt (hundo : Undoable a numSlots sizes undo) {u : Undo} (hu : u ∈ undo) :
    u.slotId < numSlots := by
  induction undo generalizing sizes with
  | nil => cases hu
  | cons v undo ih =>
    rcases mem_cons.mp hu with rfl | hu
    · exact hundo.1
    · exact ih hundo.2.2 hu

variable {u : Undo} {x : Option Int}

theorem update_undone (hold : u.size a = sizes u.slotId) :
    update (update sizes u.slotId x) u.slotId (u.size a) = sizes := by
  rw [update_idem, hold, update_eq_self]

theorem undoSpace_cons (hold : u.size a = sizes u.slotId) :
    undoSpace a (update sizes u.slotId x) (u :: undo) =
      max ((sizes u.slotId).getD 0 - x.getD 0) 0 + undoSpace a sizes undo := by
  rw [undoSpace, update_undone hold, Undo.growth, hold, update_self]

theorem Undoable.cons (hundo : Undoable a numSlots sizes undo) {numSlots' : Nat}
    (hle : numSlots <= numSlots') (hold : u.size a = sizes u.slotId) (hslot : u.slotId < numSlots')
    (hready : u.Ready (update sizes u.slotId x)) :
    Undoable a numSlots' (update sizes u.slotId x) (u :: undo) := by
  refine ⟨hslot, hready, ?_⟩
  rw [update_undone hold]
  exact hundo.congr hle fun _ _ => rfl

end

/-!
## No undo operation is refused

A transaction that is rolled back does not leave the savings alone, so the total free
space decides.
-/

section

variable {thread : ThreadEntry} {page : SpagePage} {space : Int}

theorem spageHasEnoughTotalSpace_inactive (hactive : thread.isActive = false)
    (h : max space 0 <= page.totalFree) : spageHasEnoughTotalSpace thread page space = true := by
  unfold spageHasEnoughTotalSpace
  rw [hactive]
  by_cases hpos : space <= 0
  · rw [if_pos hpos]
  rw [if_neg hpos, if_neg Bool.false_ne_true]
  dsimp only
  rw [Int.sub_zero, ite_self]
  exact decide_eq_true (by omega)

theorem spageCheckSpace_ne_doesntFit (h : spageHasEnoughTotalSpace thread page space = true) :
    (spageCheckSpace thread page space).1 ≠ .doesntFit := by
  unfold spageCheckSpace
  rw [if_pos h]
  rcases spageHasEnoughContiguousSpace thread page space with ⟨enough, page'⟩
  cases enough <;> nofun

variable (slotId : Int) (recdes : RecDes)

theorem placeRecord_ne_doesntFit (space : Int) :
    (placeRecord page slotId recdes space).1 ≠ .doesntFit := by
  unfold placeRecord
  dsimp only
  split_ifs <;> nofun

theorem spageUpdateRecordAfterCompact_ne_doesntFit :
    (spageUpdateRecordAfterCompact thread page slotId recdes space).1 ≠ .doesntFit := by
  unfold spageUpdateRecordAfterCompact
  dsimp only
  split_ifs
  · nofun
  · exact placeRecord_ne_doesntFit _ _ _
  · rcases compactWithout thread page slotId
      (dbWastedAlign (page.slot slotId).recordLength page.alignment) with ⟨compacted, page'⟩
    cases compacted with
    | true => exact placeRecord_ne_doesntFit _ _ _
    | false => nofun
  · exact placeRecord_ne_doesntFit _ _ _

theorem spageUpdateRecordInPlace_ne_doesntFit :
    (spageUpdateRecordInPlace page slotId recdes space).1 ≠ .doesntFit := by
  unfold spageUpdateRecordInPlace
  dsimp only
  split_ifs <;> nofun

theorem spageUpdate_ne_doesntFit {k : Nat} {recdes : RecDes} (hactive : thread.isActive = false)
    (h0 : 0 <= recdes.length) (hmax : recdes.length <= spageMaxRecordSize)
    (hfree : max (dbAlign recdes.length page.alignment - (page.sizes k).getD 0) 0 <=
      page.totalFree) : (spageUpdate thread page k recdes).1 ≠ .doesntFit := by
  unfold spageUpdate spageCheckUpdatable
  rw [if_neg (by omega), if_neg (by omega), if_neg (by omega)]
  cases hfind : spageFindSlot page k with
  | none =>
    intro h
    cases h
  | some slot =>
    rcases spageFindSlot_some hfind with ⟨j, hj, hk, rfl, hocc, _⟩
    cases Int.ofNat.inj hj
    rw [sizes_eq hk, if_pos hocc, Option.getD_some, SpageSlot.size] at hfree
    dsimp only
    rw [add_dbWastedAlign, Int.sub_sub, add_dbWastedAlign,
      if_pos (spageHasEnoughTotalSpace_inactive hactive hfree)]
    dsimp only
    split
    · next after _ =>
        split_ifs
        · rw [spageSaveSpace_inactive hactive]
          intro h
          cases h
        · intro h
          cases h
    · next hfailed =>
        split_ifs
        · exact spageUpdateRecordInPlace_ne_doesntFit _ _
        · exact spageUpdateRecordAfterCompact_ne_doesntFit _ _

theorem spageFindEmptySlotAt_ne_doesntFit {k : Nat} {recordLength : Int} {recordType : RecType}
    (hk : k < page.numSlots) (hdead : (page.slot k).recordType = .deletedWillReuse)
    (h : spageHasEnoughTotalSpace thread page (dbAlign recordLength page.alignment) = true) :
    (spageFindEmptySlotAt thread page k recordLength recordType).1 ≠ .doesntFit := by
  have hcheck := spageCheckSpace_ne_doesntFit h
  unfold spageFindEmptySlotAt
  dsimp only
  rw [add_dbWastedAlign, if_neg (by omega), if_neg (by omega), spageTakeSlotInUse, if_pos hdead]
  rcases hrun : spageCheckSpace thread page (dbAlign recordLength page.alignment) with
    ⟨status, page'⟩
  rw [hrun] at hcheck
  cases status with
  | success | error => nofun
  | doesntFit => exact absurd rfl hcheck

theorem spageInsertForRecovery_ne_doesntFit {k : Nat} {recdes : RecDes}
    (hactive : thread.isActive = false) (hanchor : page.anchorType = .anchored)
    (hk : k < page.numSlots) (h0 : 0 <= recdes.length) (hmax : recdes.length <= spageMaxRecordSize)
    (hfree : max (dbAlign recdes.length page.alignment) 0 <= page.totalFree) :
    (spageInsertForRecovery thread page k recdes).1 ≠ .doesntFit := by
  have hfits : ({ page.slot k with recordType := .deletedWillReuse } : SpageSlot).Fits :=
    ⟨(page.slot_fits k).offset, (page.slot_fits k).length⟩
  have hdead : ((page.setType k .deletedWillReuse).slot k).recordType = .deletedWillReuse := by
    rw [setType, slot_setSlot hfits]
  have hfind : (spageFindEmptySlotAt thread (page.setType k .deletedWillReuse) k recdes.length
      (insertedType recdes.type)).1 ≠ .doesntFit :=
    spageFindEmptySlotAt_ne_doesntFit hk hdead (spageHasEnoughTotalSpace_inactive hactive hfree)
  unfold spageInsertForRecovery
  rw [if_neg (by omega), if_neg (not_not.mpr hanchor), spageCheckRecordForInsert_eq,
    if_neg (by omega)]
  dsimp only
  rw [if_pos (by omega)]
  rcases hrun : spageFindEmptySlotAt thread (page.setType k .deletedWillReuse) k recdes.length
    (insertedType recdes.type) with ⟨status, page'⟩
  rw [hrun] at hfind
  cases status with
  | success =>
    dsimp only
    split_ifs <;> nofun
  | error => nofun
  | doesntFit => exact absurd rfl hfind

theorem Undo.run_ne_doesntFit {u : Undo} (hactive : thread.isActive = false)
    (hanchor : page.anchorType = .anchored) (hk : u.slotId < page.numSlots)
    (hready : u.Ready page.sizes)
    (hfree : max (u.growth page.alignment page.sizes) 0 <= page.totalFree) :
    (u.run thread page).1 ≠ .doesntFit := by
  cases u with
  | insert slotId =>
    unfold Undo.run
    dsimp only
    split_ifs <;> nofun
  | delete slotId old =>
    rcases hready with ⟨hempty, h0, hmax⟩
    apply spageInsertForRecovery_ne_doesntFit hactive hanchor hk h0 hmax
    change max (dbAlign old.length page.alignment - (page.sizes slotId).getD 0) 0 <= _ at hfree
    rwa [hempty, Option.getD_none, Int.sub_zero] at hfree
  | update slotId old => exact spageUpdate_ne_doesntFit hactive hready.1 hready.2 hfree

end

/-!
## What an undo operation does
-/

structure Undone (page page' : SpagePage) (u : Undo) : Prop where
  consistent : Consistent page'
  anchorType : page'.anchorType = page.anchorType
  alignment : page'.alignment = page.alignment
  isSaving : page'.isSaving = page.isSaving
  saveHead : page'.saveHead = page.saveHead
  numSlots : page'.numSlots = page.numSlots
  types : forall type, type ∈ page'.types -> type ∈ page.types ∨ type ≠ .deletedWillReuse
  sizes : page'.sizes = update page.sizes u.slotId (u.size page.alignment)
  totalFree : page'.totalFree = page.totalFree - u.growth page.alignment page.sizes

theorem types_set_live {page : SpagePage} {k : Nat} {new : RecType} (hnew : new ≠ .deletedWillReuse)
    (type : RecType) (htype : type ∈ page.types.set k new) :
    type ∈ page.types ∨ type ≠ .deletedWillReuse := by
  rcases mem_or_eq_of_mem_set htype with hmem | rfl
  · exact .inl hmem
  · exact .inr hnew

section

variable {thread : ThreadEntry} {page page' : SpagePage} (hpage : Consistent page)
  (hanchor : page.anchorType = .anchored)
include hpage hanchor

theorem undone_of_effect {u : Undo} {x : Option Record} {types : List RecType}
    (hk : u.slotId < page.numSlots)
    (h : Effect page page' (page.contents.set u.slotId x) types)
    (hx : x.map (space page.alignment) = u.size page.alignment)
    (htypes : forall type, type ∈ types -> type ∈ page.types ∨ type ≠ .deletedWillReuse) :
    Undone page page' u where
  consistent := hpage.of_effect h fun hne => absurd hanchor hne
  anchorType := h.anchorType
  alignment := h.alignment
  isSaving := h.isSaving
  saveHead := h.saveHead
  numSlots := by rw [h.numSlots, length_set, length_contents]
  types := by
    rw [h.types]
    exact htypes
  sizes := by rw [h.sizes_set hk, hx]
  totalFree := by
    rw [h.totalFree_set hpage.accounts hk, spaceOf, hx, Undo.growth]
    omega

theorem undone_insert (hactive : thread.isActive = false) {k : Nat}
    (h : (Undo.insert k).run thread page = (.success, page')) : Undone page page' (.insert k) := by
  unfold Undo.run spageDeleteForRecovery at h
  dsimp only at h
  rcases spageDelete_spec thread hpage k with
    ⟨_, hnone⟩ | ⟨j, removed, hj, hk, _, _, heffect, hsome⟩
  · rw [hnone] at h
    have hne : nullSlotid ≠ (k : Int) := by
      unfold nullSlotid
      omega
    cases h
  · cases Int.ofNat.inj hj
    have hdelete : spageDelete thread page k = ((k : Int), removed) := by
      rw [hsome, spageSaveSpace_inactive hactive, ite_self]
    rw [hdelete] at h
    simp only [ne_eq, not_true_eq_false, if_false, if_true] at h
    cases h
    unfold removedContents removedTypes at heffect
    rw [if_pos hanchor, if_pos hanchor] at heffect
    exact undone_of_effect hpage hanchor (u := .insert k) hk heffect rfl (types_set_live nofun)

theorem undone_delete {k : Nat} {old : RecDes} (hk : k < page.numSlots)
    (hready : (Undo.delete k old).Ready page.sizes)
    (h : (Undo.delete k old).run thread page = (.success, page')) :
    Undone page page' (.delete k old) := by
  rcases hready with ⟨hempty, h0, _⟩
  have hslot : (page.slot k).occupied = false := by
    rw [sizes_eq hk] at hempty
    cases hocc : (page.slot k).occupied with
    | true =>
      rw [hocc] at hempty
      cases hempty
    | false => rfl
  change spageInsertForRecovery thread page k old = _ at h
  rcases spageInsertForRecovery_spec thread hpage k (fun _ _ => hslot)
    (fun hne => absurd hanchor hne) with ⟨status, after, hrun, hcases⟩
  rw [h] at hrun
  cases hrun
  rcases hcases with ⟨hfail, _⟩ | ⟨_, _, _, ⟨r, hr, heffect⟩, _⟩
  · exact absurd rfl hfail
  rw [hpage.takesNewSlot_of_empty hk hslot] at heffect
  refine undone_of_effect hpage hanchor hk heffect ?_
    (types_set_live (insertedType_live old.type).2)
  change some (dbAlign r.bytes.length page.alignment) = some (dbAlign old.length page.alignment)
  rw [hr.2.1, Int.toNat_of_nonneg h0]

theorem undone_update (hactive : thread.isActive = false) {k : Nat} {old : RecDes}
    (h : (Undo.update k old).run thread page = (.success, page')) :
    Undone page page' (.update k old) := by
  change spageUpdate thread page k old = _ at h
  rcases spageUpdate_spec thread hpage k old with
    ⟨status, after, hrun, hfail, _⟩ | ⟨j, after, hj, hk, _, h0, heffect, hrun, _⟩
  · rw [h] at hrun
    cases hrun
    exact absurd rfl hfail
  cases Int.ofNat.inj hj
  rw [h, spageSaveSpace_inactive hactive, ite_self] at hrun
  cases hrun
  refine undone_of_effect hpage hanchor hk heffect ?_ fun type htype => .inl htype
  change some (dbAlign _ page.alignment) = some (dbAlign old.length page.alignment)
  rw [RecDes.record, length_map, length_range, Int.toNat_of_nonneg h0]

theorem Undo.run_undone (hactive : thread.isActive = false) {u : Undo}
    (hk : u.slotId < page.numSlots) (hready : u.Ready page.sizes)
    (h : u.run thread page = (.success, page')) : Undone page page' u := by
  cases u with
  | insert slotId => exact undone_insert hpage hanchor hactive h
  | delete slotId old => exact undone_delete hpage hanchor hk hready h
  | update slotId old => exact undone_update hpage hanchor hactive h

end

end Rye.Storage
