import Mathlib.Data.List.GetD
import Mathlib.Tactic.Ring
import Rye.Storage.SlottedPage.Layout

/-!
# Slots and records in the bytes of a page

The slots of a page as a list, and the records that they refer to.  Writing one
slot changes one element of the list; the two shifts insert and erase one.  A
write below the slots leaves the list alone, and a write outside of a record
leaves the record alone.
-/

namespace Rye.Storage

open Foundation List SpagePage

theorem slotAddress_eq (i : Int) : slotAddress i = dbPagesize - 4 - 4 * i :=
  rfl

theorem bits14_lt (n : Int) : bits14 n < 16384 := by
  unfold bits14
  omega

namespace SpagePage

variable {page : SpagePage}

theorem slot_fits (page : SpagePage) (i : Int) : (page.slot i).Fits := by
  constructor
  · exact Nat.mod_lt _ (by decide)
  · exact Nat.mod_lt _ (by decide)

variable {page' : SpagePage} {i : Nat} {s : SpageSlot}

theorem slot_congr {i : Int}
    (h : forall x, slotAddress i <= x -> x < slotAddress i + 4 -> page'.bytes x = page.bytes x) :
    page'.slot i = page.slot i := by
  unfold slot
  rw [Memory.word_congr h]

theorem slot_setSlot {i : Int} (h : s.Fits) : (page.setSlot i s).slot i = s := by
  unfold slot setSlot
  rw [Memory.word_setWord _ _ s.encode_lt, SpageSlot.decode_encode h]

theorem setSlot_outside {i x : Int} (h : x < slotAddress i ∨ slotAddress i + 4 <= x) :
    (page.setSlot i s).bytes x = page.bytes x :=
  Memory.setWord_outside h

theorem slot_setSlot_of_ne {i j : Int} (h : i ≠ j) : (page.setSlot i s).slot j = page.slot j := by
  apply slot_congr
  intro x hlow hhigh
  apply Memory.setWord_outside
  rw [slotAddress_eq] at hlow hhigh ⊢
  omega

/-!
## The list of slots
-/

def slots (page : SpagePage) : List SpageSlot :=
  (List.range page.numSlots).map fun i : Nat => page.slot i

@[simp] theorem length_slots (page : SpagePage) : page.slots.length = page.numSlots := by
  simp [slots]

theorem getElem_slots (h : i < page.slots.length) : page.slots[i] = page.slot i := by
  simp [slots]

theorem slots_eq_iff {l : List SpageSlot} :
    page.slots = l <->
      l.length = page.numSlots ∧ forall (i : Nat) (h : i < l.length), l[i] = page.slot i := by
  constructor
  · rintro rfl
    exact ⟨length_slots page, fun i h => getElem_slots h⟩
  rintro ⟨hlen, hslot⟩
  apply ext_getElem
  · rw [length_slots, hlen]
  · intro i h h'
    rw [getElem_slots, hslot i h']

theorem slot_mem_slots (h : i < page.numSlots) : page.slot i ∈ page.slots :=
  mem_map.mpr ⟨i, mem_range.mpr h, rfl⟩

theorem mem_slots (h : s ∈ page.slots) : exists i : Nat, i < page.numSlots ∧ page.slot i = s := by
  rcases mem_map.mp h with ⟨i, hi, rfl⟩
  exact ⟨i, mem_range.mp hi, rfl⟩

/-- No record starts behind `bound`. -/
def StartsUpTo (page : SpagePage) (bound : Int) : Prop :=
  forall s, s ∈ page.slots -> s.occupied = true -> s.offsetToRecord <= bound

/-- No record starts behind the first byte of the slots; only an empty one could. -/
def Visible (page : SpagePage) : Prop :=
  page.StartsUpTo (slotAddress (page.numSlots - 1))

theorem Visible.of_set {k : Nat} {t : SpageSlot} (h : page.Visible)
    (hnum : page'.numSlots = page.numSlots) (hslots : page'.slots = page.slots.set k t)
    (ht : t.occupied = true -> t.offsetToRecord <= slotAddress (page.numSlots - 1)) :
    page'.Visible := by
  intro s hs hocc
  rw [hslots] at hs
  rw [hnum]
  rcases mem_or_eq_of_mem_set hs with hs | rfl
  · exact h s hs hocc
  · exact ht hocc

theorem pairwise_slots_iff {R : SpageSlot -> SpageSlot -> Prop} (hsymm : forall s t, R s t -> R t s) :
    page.slots.Pairwise R <->
      forall i j : Nat, i < page.numSlots -> j < page.numSlots -> i ≠ j ->
        R (page.slot i) (page.slot j) := by
  rw [pairwise_iff_getElem]
  constructor
  · intro h i j hi hj hne
    rcases Nat.lt_or_gt_of_ne hne with hlt | hgt
    · have hij := h i j (by rwa [length_slots]) (by rwa [length_slots]) hlt
      rwa [getElem_slots, getElem_slots] at hij
    · have hji := h j i (by rwa [length_slots]) (by rwa [length_slots]) hgt
      rw [getElem_slots, getElem_slots] at hji
      exact hsymm _ _ hji
  · intro h i j hi hj hlt
    rw [getElem_slots, getElem_slots]
    rw [length_slots] at hi hj
    exact h i j hi hj (by omega)

theorem slots_setSlot (hs : s.Fits) : (page.setSlot i s).slots = page.slots.set i s := by
  rw [slots_eq_iff]
  constructor
  · rw [length_set, length_slots]
    rfl
  intro j hj
  rw [getElem_set]
  split
  · next heq =>
      rw [← heq, slot_setSlot hs]
  · next hne =>
      rw [slot_setSlot_of_ne (by omega), getElem_slots]

theorem slots_congr {m : Memory}
    (h : forall x, slotAddress (page.numSlots - 1) <= x -> m x = page.bytes x) :
    ({ page with bytes := m } : SpagePage).slots = page.slots := by
  rw [slots_eq_iff]
  refine ⟨length_slots page, fun i hi => ?_⟩
  rw [length_slots] at hi
  rw [getElem_slots]
  symm
  apply slot_congr
  intro x hlow hhigh
  apply h
  rw [slotAddress_eq] at hlow ⊢
  omega

theorem slots_perm (h : i < page.numSlots) :
    page.slots.Perm (page.slot i :: page.slots.eraseIdx i) := by
  have hi : i < page.slots.length := by rwa [length_slots]
  have hperm := getElem_cons_eraseIdx_perm hi
  rw [getElem_slots] at hperm
  exact hperm.symm

theorem set_perm (h : i < page.numSlots) : (page.slots.set i s).Perm (s :: page.slots.eraseIdx i) :=
  set_perm_cons_eraseIdx (by rwa [length_slots]) s

theorem slots_insert {k : Nat} (hnum : page'.numSlots = page.numSlots + 1)
    (hk : k <= page.numSlots) (hlow : forall j : Nat, j < k -> page'.slot j = page.slot j)
    (hmid : page'.slot k = s) (hhigh : forall j : Nat, k < j -> j <= page.numSlots ->
      page'.slot j = page.slot (j - 1 : Nat)) : page'.slots = page.slots.insertIdx k s := by
  rw [slots_eq_iff]
  have hlen : (page.slots.insertIdx k s).length = page.numSlots + 1 := by
    rw [length_insertIdx_of_le_length (by rwa [length_slots]), length_slots]
  refine ⟨by rw [hlen, hnum], fun j hj => ?_⟩
  rw [getElem_insertIdx]
  rw [hlen] at hj
  split
  · next hlt => rw [hlow j hlt, getElem_slots]
  · split
    · next heq => rw [heq, hmid]
    · next hge hne => rw [hhigh j (by omega) (by omega), getElem_slots]

theorem slots_erase {k : Nat} (hnum : page'.numSlots + 1 = page.numSlots) (hk : k < page.numSlots)
    (hlow : forall j : Nat, j < k -> page'.slot j = page.slot j)
    (hhigh : forall j : Nat, k <= j -> j < page'.numSlots ->
      page'.slot j = page.slot (j + 1 : Nat)) : page'.slots = page.slots.eraseIdx k := by
  rw [slots_eq_iff]
  have hlen : (page.slots.eraseIdx k).length = page'.numSlots := by
    rw [length_eraseIdx_of_lt (by rwa [length_slots]), length_slots]
    omega
  refine ⟨hlen, fun j hj => ?_⟩
  rw [getElem_eraseIdx]
  rw [hlen] at hj
  split
  · next hlt => rw [hlow j hlt, getElem_slots]
  · next hge => rw [hhigh j (by omega) hj, getElem_slots]

end SpagePage

section

variable {page : SpagePage} (h : Accounts page.area page.slots)
include h

theorem Accounts.free_add_contFree :
    page.offsetToFreeArea + page.contFree = slotAddress (page.numSlots - 1) := by
  have hcont := h.contFree
  change page.contFree = dbPagesize - page.offsetToFreeArea - 4 * page.slots.length at hcont
  rw [page.length_slots] at hcont
  rw [slotAddress_eq]
  omega

theorem Accounts.usedSpace_add_totalFree :
    sizeofSpageHeader + usedSpace page.alignment page.slots + page.totalFree =
      slotAddress (page.numSlots - 1) := by
  have htotal := h.totalFree
  change page.totalFree = dbPagesize - sizeofSpageHeader - 4 * page.slots.length -
    usedSpace page.alignment page.slots at htotal
  rw [page.length_slots] at htotal
  rw [slotAddress_eq]
  omega

theorem Accounts.page_contFree_nonneg : 0 <= page.contFree :=
  h.contFree_nonneg

theorem Accounts.page_contFree_le : page.contFree <= page.totalFree :=
  h.contFree_le

end

theorem shiftSlotUpLoop_spec (page : SpagePage) (lastSlot : Int) (count : Nat) :
    exists m, shiftSlotUpLoop page lastSlot count = { page with bytes := m } ∧
      (forall x, x < slotAddress lastSlot -> m x = page.bytes x) ∧
      forall j, ({ page with bytes := m } : SpagePage).slot j =
        if lastSlot - count < j ∧ j <= lastSlot then page.slot (j - 1) else page.slot j := by
  induction count generalizing page lastSlot with
  | zero =>
    refine ⟨page.bytes, rfl, fun x _ => rfl, fun j => ?_⟩
    rw [if_neg (by omega)]
  | succ count ih =>
    let first := page.setSlot lastSlot (page.slot (lastSlot - 1))
    rcases ih first (lastSlot - 1) with ⟨m, hrun, hbytes, hslot⟩
    refine ⟨m, hrun, ?_, fun j => ?_⟩
    · intro x hx
      rw [slotAddress_eq] at hx
      rw [hbytes x (by rw [slotAddress_eq]; omega)]
      exact setSlot_outside (by rw [slotAddress_eq]; omega)
    have hj := hslot j
    change ({ page with bytes := m } : SpagePage).slot j = _ at hj
    rw [hj]
    by_cases hlast : j = lastSlot
    · rw [if_neg (by omega), if_pos (by omega), hlast]
      exact slot_setSlot (page.slot_fits _)
    · by_cases hrange : lastSlot - 1 - count < j ∧ j <= lastSlot - 1
      · rw [if_pos hrange, if_pos (by omega), slot_setSlot_of_ne (by omega)]
      · rw [if_neg hrange, if_neg (by omega), slot_setSlot_of_ne (by omega)]

theorem shiftSlotDownLoop_spec (page : SpagePage) (slotId : Int) (count : Nat) :
    exists m, shiftSlotDownLoop page slotId count = { page with bytes := m } ∧
      (forall x, x < slotAddress (slotId + count - 1) -> m x = page.bytes x) ∧
      forall j, ({ page with bytes := m } : SpagePage).slot j =
        if slotId <= j ∧ j < slotId + count then page.slot (j + 1) else page.slot j := by
  induction count generalizing page slotId with
  | zero =>
    refine ⟨page.bytes, rfl, fun x _ => rfl, fun j => ?_⟩
    rw [if_neg (by omega)]
  | succ count ih =>
    let first := page.setSlot slotId (page.slot (slotId + 1))
    rcases ih first (slotId + 1) with ⟨m, hrun, hbytes, hslot⟩
    refine ⟨m, hrun, ?_, fun j => ?_⟩
    · intro x hx
      rw [slotAddress_eq] at hx
      rw [hbytes x (by rw [slotAddress_eq]; omega)]
      exact setSlot_outside (by rw [slotAddress_eq]; omega)
    have hj := hslot j
    change ({ page with bytes := m } : SpagePage).slot j = _ at hj
    rw [hj]
    by_cases hfirst : j = slotId
    · rw [if_neg (by omega), if_pos (by omega), hfirst]
      exact slot_setSlot (page.slot_fits _)
    · by_cases hrange : slotId + 1 <= j ∧ j < slotId + 1 + count
      · rw [if_pos hrange, if_pos (by omega), slot_setSlot_of_ne (by omega)]
      · rw [if_neg hrange, if_neg (by omega), slot_setSlot_of_ne (by omega)]

structure Record where
  type : RecType
  bytes : List UInt8
deriving DecidableEq, Repr

/-- The record of a slot in the memory `m`. -/
def recordOf (m : Memory) (slot : SpageSlot) : Option Record :=
  if slot.occupied then
    some ⟨slot.recordType, m.read slot.offsetToRecord slot.recordLength⟩
  else none

def SpagePage.contents (page : SpagePage) : List (Option Record) :=
  page.slots.map (recordOf page.bytes)

theorem recordOf_empty {m : Memory} {slot : SpageSlot} (h : slot.occupied = false) :
    recordOf m slot = none := by
  rw [recordOf, h]
  rfl

theorem recordOf_congr {m m' : Memory} {slot : SpageSlot}
    (h : forall x : Int, slot.offsetToRecord <= x ->
      x < (slot.offsetToRecord + slot.recordLength : Int) -> m' x = m x) :
    recordOf m' slot = recordOf m slot := by
  unfold recordOf
  rw [Memory.read_congr h]

theorem SpageSlot.length_le_size (a : Alignment) (slot : SpageSlot) :
    slot.recordLength <= slot.size a :=
  le_dbAlign _ _

theorem Accounts.recordOf_eq {area : AreaHeader} {slots : List SpageSlot} {m m' : Memory}
    (h : Accounts area slots)
    (hm : forall x, sizeofSpageHeader <= x -> x < area.free -> m' x = m x) {s : SpageSlot}
    (hs : s ∈ slots) : recordOf m' s = recordOf m s := by
  by_cases hocc : s.occupied = true
  · have hplaced := h.placed s hs hocc
    apply recordOf_congr
    intro x hlow hhigh
    have hlen : 0 < s.recordLength := by omega
    have hbelow := hplaced.below hlen
    have hsize := s.length_le_size area.alignment
    have hheader := hplaced.header_le
    exact hm x (by omega) (by omega)
  · rw [Bool.not_eq_true] at hocc
    rw [recordOf_empty hocc, recordOf_empty hocc]

end Rye.Storage
