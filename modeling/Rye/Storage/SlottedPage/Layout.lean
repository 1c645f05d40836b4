import Mathlib.Algebra.Order.BigOperators.Group.List
import Mathlib.Algebra.Order.Group.Int
import Mathlib.Algebra.Ring.Int.Defs
import Rye.Storage.SlottedPage.Operations

/-!
# Layout

The header of a page keeps four counters for its slots.  This module says when
the counters are right for a list of slots, and what happens to them when a
record is placed, removed, shrunk or moved.  The order of the slots does not
matter for any of this.
-/

namespace Rye.Storage

open Foundation List SpageSlot

section

variable (n : Int) (a : Alignment)

theorem le_dbAlign : n <= dbAlign n a := by
  cases a <;> simp only [dbAlign, Alignment.size] <;> omega

theorem dbAlign_dvd : a.size ∣ dbAlign n a := by
  cases a <;> simp only [dbAlign, Alignment.size] <;> omega

theorem dbAlign_zero : dbAlign 0 a = 0 := by
  cases a <;> rfl

theorem dbAlign_header : dbAlign sizeofSpageHeader a = sizeofSpageHeader := by
  cases a <;> rfl

variable {n a}

theorem dbAlign_add {m : Int} (h : a.size ∣ m) : dbAlign (m + n) a = m + dbAlign n a := by
  cases a <;> simp only [dbAlign, Alignment.size] at h ⊢ <;> omega

theorem dbAlign_mono {m : Int} (h : n <= m) : dbAlign n a <= dbAlign m a := by
  cases a <;> simp only [dbAlign, Alignment.size] <;> omega

theorem dbAlign_pos (h : 0 < n) : 0 < dbAlign n a :=
  lt_of_lt_of_le h (le_dbAlign n a)

theorem dbAlign_nonneg (h : 0 <= n) : 0 <= dbAlign n a :=
  le_trans h (le_dbAlign n a)

theorem add_dbWastedAlign (n : Int) (a : Alignment) : n + dbWastedAlign n a = dbAlign n a := by
  unfold dbWastedAlign
  omega

end

theorem bits14_eq {n : Int} (h0 : 0 <= n) (h : n < 16384) : (bits14 n : Int) = n := by
  unfold bits14
  omega

/-!
## Slots of a page area
-/

namespace SpageSlot

def size (a : Alignment) (slot : SpageSlot) : Int :=
  dbAlign slot.recordLength a

def room (a : Alignment) (slot : SpageSlot) : Int :=
  if slot.occupied then slot.size a else 0

theorem size_nonneg (a : Alignment) (slot : SpageSlot) : 0 <= slot.size a :=
  dbAlign_nonneg (Int.natCast_nonneg _)

variable {a : Alignment} {slot : SpageSlot}

theorem size_eq_zero (h : slot.recordLength = 0) : slot.size a = 0 := by
  rw [size, h]
  exact dbAlign_zero a

theorem room_nonneg (a : Alignment) (slot : SpageSlot) : 0 <= slot.room a := by
  unfold room
  split
  · exact slot.size_nonneg a
  · exact le_refl 0

theorem room_of_occupied (h : slot.occupied = true) : slot.room a = slot.size a :=
  if_pos h

theorem room_of_empty (h : slot.occupied = false) : slot.room a = 0 := by
  rw [room, h]
  rfl

theorem occupied_iff (slot : SpageSlot) : slot.occupied = true <-> slot.offsetToRecord ≠ 0 := by
  simp [occupied, spageEmptyOffset]

def Live (slot : SpageSlot) : Prop :=
  slot.recordType ≠ .markdeleted ∧ slot.recordType ≠ .deletedWillReuse

/-- Two records do not overlap; an empty record overlaps with nothing. -/
def Apart (a : Alignment) (s t : SpageSlot) : Prop :=
  s.occupied = true -> t.occupied = true -> 0 < s.recordLength -> 0 < t.recordLength ->
    s.offsetToRecord + s.size a <= t.offsetToRecord ∨
      t.offsetToRecord + t.size a <= s.offsetToRecord

/-- An occupied slot lies in the record area below `free`, at an aligned offset. -/
structure Placed (a : Alignment) (free : Int) (slot : SpageSlot) : Prop where
  aligned : a.size ∣ slot.offsetToRecord
  header_le : sizeofSpageHeader <= slot.offsetToRecord
  below : 0 < slot.recordLength -> slot.offsetToRecord + slot.size a <= free
  live : slot.Live

variable {s t : SpageSlot}

theorem Apart.symm (h : Apart a s t) : Apart a t s :=
  fun ht hs htlen hslen => (h hs ht hslen htlen).symm

theorem apart_of_empty (h : s.occupied = false) : Apart a s t := by
  intro hs
  rw [h] at hs
  cases hs

theorem apart_of_free_le {free : Int} (hs : free <= s.offsetToRecord)
    (ht : t.occupied = true -> t.Placed a free) : Apart a s t := by
  intro _ hocc _ hlen
  right
  exact le_trans ((ht hocc).below hlen) hs

theorem Placed.mono {free free' : Int} (h : slot.Placed a free) (hle : free <= free') :
    slot.Placed a free' :=
  ⟨h.aligned, h.header_le, fun hlen => le_trans (h.below hlen) hle, h.live⟩

end SpageSlot

def usedSpace (a : Alignment) (slots : List SpageSlot) : Int :=
  (slots.map (room a)).sum

theorem usedSpace_cons (a : Alignment) (slot : SpageSlot) (slots : List SpageSlot) :
    usedSpace a (slot :: slots) = slot.room a + usedSpace a slots := by
  simp [usedSpace]

theorem usedSpace_perm {a : Alignment} {slots slots' : List SpageSlot}
    (h : slots.Perm slots') : usedSpace a slots = usedSpace a slots' :=
  (h.map _).sum_eq

theorem usedSpace_nonneg (a : Alignment) (slots : List SpageSlot) : 0 <= usedSpace a slots := by
  apply sum_nonneg
  intro n hn
  rcases mem_map.mp hn with ⟨slot, _, rfl⟩
  exact slot.room_nonneg a

/-!
## The counters
-/

structure AreaHeader where
  alignment : Alignment
  numRecords : Int
  totalFree : Int
  contFree : Int
  free : Int

def SpagePage.area (page : SpagePage) : AreaHeader where
  alignment := page.alignment
  numRecords := page.numRecords
  totalFree := page.totalFree
  contFree := page.contFree
  free := page.offsetToFreeArea

structure Accounts (area : AreaHeader) (slots : List SpageSlot) : Prop where
  placed : forall s, s ∈ slots -> s.occupied = true -> s.Placed area.alignment area.free
  apart : slots.Pairwise (Apart area.alignment)
  numRecords : area.numRecords = slots.countP occupied
  totalFree : area.totalFree = dbPagesize - sizeofSpageHeader -
    sizeofSpageSlot * slots.length - usedSpace area.alignment slots
  contFree : area.contFree = dbPagesize - area.free - sizeofSpageSlot * slots.length
  contFree_nonneg : 0 <= area.contFree
  contFree_le : area.contFree <= area.totalFree
  aligned : area.alignment.size ∣ area.free
  header_le : sizeofSpageHeader <= area.free

namespace Accounts

variable {area : AreaHeader} {slots slots' : List SpageSlot} {s t : SpageSlot}

theorem perm (h : Accounts area slots) (hperm : slots.Perm slots') : Accounts area slots' where
  placed s hs := h.placed s (hperm.mem_iff.mpr hs)
  apart := hperm.pairwise h.apart (fun {_ _} => Apart.symm)
  numRecords := by rw [h.numRecords, hperm.countP_eq]
  totalFree := by rw [h.totalFree, hperm.length_eq, usedSpace_perm hperm]
  contFree := by rw [h.contFree, hperm.length_eq]
  contFree_nonneg := h.contFree_nonneg
  contFree_le := h.contFree_le
  aligned := h.aligned
  header_le := h.header_le

theorem slotSpace_cons (s : SpageSlot) (slots : List SpageSlot) :
    sizeofSpageSlot * ((s :: slots).length : Int) =
      sizeofSpageSlot * slots.length + sizeofSpageSlot := by
  rw [length_cons, Int.natCast_succ, Int.mul_add, Int.mul_one]

theorem empty_room (e : SpageSlot) (he : e.occupied = false) (a : Alignment)
    (slots : List SpageSlot) : usedSpace a (e :: slots) = usedSpace a slots := by
  rw [usedSpace_cons, e.room_of_empty he, Int.zero_add]

theorem dropEmpty (he : s.occupied = false) (h : Accounts area (s :: slots)) :
    Accounts { area with
      totalFree := area.totalFree + sizeofSpageSlot
      contFree := area.contFree + sizeofSpageSlot } slots := by
  rcases h with ⟨hplaced, hapart, hrecords, htotal, hcont, hnonneg, hle, haligned, hheader⟩
  rw [empty_room s he] at htotal
  rw [slotSpace_cons] at htotal hcont
  have hslot : sizeofSpageSlot = 4 := rfl
  constructor
  · intro t ht
    exact hplaced t (mem_cons_of_mem _ ht)
  · exact (pairwise_cons.mp hapart).2
  · rw [hrecords, countP_cons_of_neg (by rw [he]; decide)]
  · change area.totalFree + _ = _ - usedSpace area.alignment slots
    omega
  · change area.contFree + _ = _ - area.free - _
    omega
  · change 0 <= area.contFree + _
    omega
  · change area.contFree + _ <= area.totalFree + _
    omega
  · exact haligned
  · exact hheader

theorem addEmpty (he : s.occupied = false) (h : Accounts area slots)
    (hroom : sizeofSpageSlot <= area.contFree) :
    Accounts { area with
      totalFree := area.totalFree - sizeofSpageSlot
      contFree := area.contFree - sizeofSpageSlot } (s :: slots) := by
  rcases h with ⟨hplaced, hapart, hrecords, htotal, hcont, hnonneg, hle, haligned, hheader⟩
  constructor
  · intro t ht hocc
    rcases mem_cons.mp ht with rfl | ht
    · rw [he] at hocc
      cases hocc
    · exact hplaced t ht hocc
  · exact pairwise_cons.mpr ⟨fun t _ => apart_of_empty he, hapart⟩
  · rw [hrecords, countP_cons_of_neg (by rw [he]; decide)]
  · change area.totalFree - _ = _ - usedSpace area.alignment (s :: slots)
    rw [empty_room s he, slotSpace_cons]
    omega
  · change area.contFree - _ = _ - area.free - _
    rw [slotSpace_cons]
    omega
  · change 0 <= area.contFree - _
    omega
  · change area.contFree - _ <= area.totalFree - _
    omega
  · exact haligned
  · exact hheader

theorem replaceEmpty (hs : s.occupied = false) (ht : t.occupied = false)
    (h : Accounts area (s :: slots)) : Accounts area (t :: slots) := by
  have hcont := h.contFree_nonneg
  have hback := (h.dropEmpty hs).addEmpty ht (by change _ <= area.contFree + _; omega)
  simpa only [Int.add_sub_cancel] using hback

theorem fill (he : s.occupied = false) (h : Accounts area (s :: slots))
    (hoffset : (t.offsetToRecord : Int) = area.free) (hlive : t.Live)
    (hroom : t.size area.alignment <= area.contFree) :
    Accounts { area with
      numRecords := area.numRecords + 1
      totalFree := area.totalFree - t.size area.alignment
      contFree := area.contFree - t.size area.alignment
      free := area.free + t.size area.alignment } (t :: slots) := by
  rcases h with ⟨hplaced, hapart, hrecords, htotal, hcont, hnonneg, hle, haligned, hheader⟩
  have hsize := t.size_nonneg area.alignment
  have hocc : t.occupied = true := by
    rw [occupied_iff]
    have hpos : (0 : Int) < sizeofSpageHeader := by decide
    omega
  rw [empty_room s he] at htotal
  rw [length_cons] at htotal hcont
  have hplaced' : forall u, u ∈ slots -> u.occupied = true ->
      u.Placed area.alignment area.free :=
    fun u hu => hplaced u (mem_cons_of_mem _ hu)
  constructor
  · intro u hu huocc
    rcases mem_cons.mp hu with rfl | hu
    · exact ⟨hoffset ▸ haligned, hoffset ▸ hheader, fun _ => by rw [hoffset], hlive⟩
    · exact (hplaced' u hu huocc).mono (by change area.free <= area.free + _; omega)
  · refine pairwise_cons.mpr ⟨fun u hu => ?_, (pairwise_cons.mp hapart).2⟩
    exact apart_of_free_le hoffset.ge (hplaced' u hu)
  · rw [hrecords, countP_cons_of_neg (by rw [he]; decide), countP_cons_of_pos hocc]
    push_cast
    rfl
  · change area.totalFree - _ = _ - usedSpace area.alignment (t :: slots)
    rw [usedSpace_cons, t.room_of_occupied hocc, length_cons]
    omega
  · change area.contFree - _ = _ - (area.free + _) - _
    rw [length_cons]
    omega
  · change 0 <= area.contFree - _
    omega
  · change area.contFree - _ <= area.totalFree - _
    omega
  · exact Int.dvd_add haligned (dbAlign_dvd _ _)
  · change _ <= area.free + _
    omega

theorem hide (hs : s.occupied = true) (ht : t.occupied = false) (h : Accounts area (s :: slots)) :
    Accounts { area with
      numRecords := area.numRecords - 1
      totalFree := area.totalFree + s.size area.alignment } (t :: slots) := by
  rcases h with ⟨hplaced, hapart, hrecords, htotal, hcont, hnonneg, hle, haligned, hheader⟩
  have hsize := s.size_nonneg area.alignment
  rw [usedSpace_cons, s.room_of_occupied hs] at htotal
  constructor
  · intro u hu huocc
    rcases mem_cons.mp hu with rfl | hu
    · rw [ht] at huocc
      cases huocc
    · exact hplaced u (mem_cons_of_mem _ hu) huocc
  · refine pairwise_cons.mpr ⟨fun u _ => apart_of_empty ht, ?_⟩
    exact (pairwise_cons.mp hapart).2
  · rw [hrecords, countP_cons_of_pos hs, countP_cons_of_neg (by rw [ht]; decide)]
    push_cast
    omega
  · change area.totalFree + _ = _ - usedSpace area.alignment (t :: slots)
    rw [empty_room t ht, length_cons]
    rw [length_cons] at htotal
    omega
  · rw [hcont, length_cons, length_cons]
  · exact hnonneg
  · change area.contFree <= area.totalFree + _
    omega
  · exact haligned
  · exact hheader

theorem shrink (hs : s.occupied = true) (hoffset : t.offsetToRecord = s.offsetToRecord)
    (hlength : t.recordLength <= s.recordLength) (htype : t.recordType = s.recordType)
    (h : Accounts area (s :: slots)) :
    Accounts { area with
      totalFree := area.totalFree - (t.size area.alignment - s.size area.alignment) }
      (t :: slots) := by
  rcases h with ⟨hplaced, hapart, hrecords, htotal, hcont, hnonneg, hle, haligned, hheader⟩
  have hsize : t.size area.alignment <= s.size area.alignment :=
    dbAlign_mono (by omega)
  have ht : t.occupied = true := by
    rw [occupied_iff, hoffset]
    exact (occupied_iff s).mp hs
  rw [usedSpace_cons, s.room_of_occupied hs] at htotal
  constructor
  · intro u hu huocc
    rcases mem_cons.mp hu with rfl | hu
    · have hold := hplaced s mem_cons_self hs
      refine ⟨by rw [hoffset]; exact hold.aligned, by rw [hoffset]; exact hold.header_le, ?_, ?_⟩
      · intro hlen
        have hbelow := hold.below (by omega)
        change (u.offsetToRecord : Int) + u.size area.alignment <= area.free
        rw [hoffset]
        omega
      · exact ⟨htype ▸ hold.live.1, htype ▸ hold.live.2⟩
    · exact hplaced u (mem_cons_of_mem _ hu) huocc
  · rw [pairwise_cons] at hapart ⊢
    refine ⟨fun u hu _ huocc htlen hulen => ?_, hapart.2⟩
    have hold := hapart.1 u hu hs huocc (by omega) hulen
    change _ + t.size area.alignment <= _ ∨ _ + u.size area.alignment <= _
    rw [hoffset]
    omega
  · rw [hrecords, countP_cons_of_pos hs, countP_cons_of_pos ht]
  · change area.totalFree - _ = _ - usedSpace area.alignment (t :: slots)
    rw [usedSpace_cons, t.room_of_occupied ht, length_cons]
    rw [length_cons] at htotal
    omega
  · rw [hcont, length_cons, length_cons]
  · exact hnonneg
  · change area.contFree <= area.totalFree - _
    omega
  · exact haligned
  · exact hheader

theorem retract {d : Int} (hd : 0 <= d) (hdvd : area.alignment.size ∣ d)
    (hlow : sizeofSpageHeader <= area.free - d)
    (hbelow : forall u, u ∈ slots -> u.occupied = true -> 0 < u.recordLength ->
      u.offsetToRecord + u.size area.alignment <= area.free - d)
    (hle : area.contFree + d <= area.totalFree) (h : Accounts area slots) :
    Accounts { area with contFree := area.contFree + d, free := area.free - d } slots := by
  rcases h with ⟨hplaced, hapart, hrecords, htotal, hcont, hnonneg, -, haligned, hheader⟩
  constructor
  · intro u hu huocc
    have hold := hplaced u hu huocc
    exact ⟨hold.aligned, hold.header_le, hbelow u hu huocc, hold.live⟩
  · exact hapart
  · exact hrecords
  · exact htotal
  · change area.contFree + d = _ - (area.free - d) - _
    omega
  · change 0 <= area.contFree + d
    omega
  · exact hle
  · exact Int.dvd_sub haligned hdvd
  · exact hlow

theorem below_last (hs : s.occupied = true) (h : Accounts area (s :: slots))
    (hend : s.offsetToRecord + s.size area.alignment = area.free) {u : SpageSlot}
    (hu : u ∈ slots) (huocc : u.occupied = true) (hlen : 0 < u.recordLength) :
    u.offsetToRecord + u.size area.alignment <= s.offsetToRecord := by
  have hbelow := (h.placed u (mem_cons_of_mem _ hu) huocc).below hlen
  by_cases hzero : s.recordLength = 0
  · rw [s.size_eq_zero hzero, Int.add_zero] at hend
    rw [hend]
    exact hbelow
  · have hpos : 0 < u.size area.alignment := dbAlign_pos (by omega)
    have hapart := (pairwise_cons.mp h.apart).1 u hu hs huocc (by omega) hlen
    omega

end Accounts

end Rye.Storage
