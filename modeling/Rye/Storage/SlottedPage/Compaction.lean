import Rye.Storage.SlottedPage.Slots

/-!
# Compaction

The records are moved to the front of the record area one after the other, in the
order of their offsets.  The place a record moves to never lies behind its old
place, and the records that still have to be moved lie behind it, so a move
destroys none of them.  Empty records may share an offset with others and may
stand in any order among them.
-/

namespace Rye.Storage

open Foundation List Function SpageSlot SpagePage

/-- What the loop of the compaction keeps: `m` are the bytes of the page so far, `rest`
the slots that are still to be moved, and `toOffset` the end of the moved records. -/
structure CompactLoop (page : SpagePage) (rest : List Nat) (m : Memory) (toOffset : Int) :
    Prop where
  length : forall i : Nat, i < page.numSlots ->
    ({ page with bytes := m }.slot i).recordLength = (page.slot i).recordLength
  type : forall i : Nat, i < page.numSlots ->
    ({ page with bytes := m }.slot i).recordType = (page.slot i).recordType
  occupied : forall i : Nat, i < page.numSlots ->
    ({ page with bytes := m }.slot i).occupied = (page.slot i).occupied
  waiting : forall i : Nat, i ∈ rest -> { page with bytes := m }.slot i = page.slot i
  moved : forall i : Nat, i < page.numSlots -> i ∉ rest -> (page.slot i).occupied = true ->
    ({ page with bytes := m }.slot i).Placed page.alignment (dbAlign toOffset page.alignment)
  start : forall i : Nat, i < page.numSlots -> i ∉ rest -> (page.slot i).occupied = true ->
    ({ page with bytes := m }.slot i).offsetToRecord <= dbAlign toOffset page.alignment
  apart : forall i j : Nat, i < page.numSlots -> j < page.numSlots -> i ≠ j ->
    i ∉ rest -> j ∉ rest ->
    Apart page.alignment ({ page with bytes := m }.slot i) ({ page with bytes := m }.slot j)
  ahead : forall i : Nat, i ∈ rest -> 0 < (page.slot i).recordLength ->
    dbAlign toOffset page.alignment <= (page.slot i).offsetToRecord
  record : forall i : Nat, i < page.numSlots ->
    recordOf m ({ page with bytes := m }.slot i) = recordOf page.bytes (page.slot i)
  space : dbAlign toOffset page.alignment +
    (rest.map fun i : Nat => (page.slot i).size page.alignment).sum =
      sizeofSpageHeader + usedSpace page.alignment page.slots
  header_le : sizeofSpageHeader <= dbAlign toOffset page.alignment

namespace CompactLoop

variable {page : SpagePage} {rest : List Nat} {m : Memory} {i : Nat} {toOffset : Int}

section

variable (h : CompactLoop page (i :: rest) m toOffset)
include h

theorem end_le (hpage : Accounts page.area page.slots) :
    dbAlign toOffset page.alignment + (page.slot i).size page.alignment <=
      slotAddress (page.numSlots - 1) := by
  have hspace := h.space
  rw [map_cons, sum_cons] at hspace
  have hrest : 0 <= (rest.map fun i : Nat => (page.slot i).size page.alignment).sum := by
    apply sum_nonneg
    intro n hn
    rcases mem_map.mp hn with ⟨j, _, rfl⟩
    exact size_nonneg _ _
  have htotal := hpage.usedSpace_add_totalFree
  have hcont := hpage.page_contFree_nonneg
  have hle := hpage.page_contFree_le
  omega

theorem ahead_next (hpage : Accounts page.area page.slots) (hi : i < page.numSlots)
    (hiocc : (page.slot i).occupied = true) {j : Nat} (hj : j ∈ rest) (hjn : j < page.numSlots)
    (hjocc : (page.slot j).occupied = true) (hne : i ≠ j)
    (hsorted : (page.slot i).offsetToRecord <= (page.slot j).offsetToRecord)
    (hlen : 0 < (page.slot j).recordLength) :
    dbAlign toOffset page.alignment + (page.slot i).size page.alignment <=
      (page.slot j).offsetToRecord := by
  have hold := h.ahead j (mem_cons_of_mem _ hj) hlen
  by_cases hzero : (page.slot i).recordLength = 0
  · rw [size_eq_zero hzero]
    omega
  have hstart := h.ahead i mem_cons_self (by omega)
  have hpos : 0 < (page.slot j).size page.alignment := dbAlign_pos (by omega)
  have hapart : Apart page.alignment (page.slot i) (page.slot j) :=
    (pairwise_slots_iff fun _ _ => Apart.symm).mp hpage.apart i j hi hjn hne
  have hor := hapart hiocc hjocc (by omega) hlen
  omega

end

/-- What has to be shown about the bytes after a record is moved. -/
structure Moved (page : SpagePage) (m m' : Memory) (i : Nat) (offset : Int) : Prop where
  slot : ({ page with bytes := m' }.slot i) = { page.slot i with offsetToRecord := offset.toNat }
  others : forall j : Nat, j < page.numSlots -> j ≠ i ->
    { page with bytes := m' }.slot j = { page with bytes := m }.slot j
  record : recordOf m' ({ page with bytes := m' }.slot i) = recordOf m (page.slot i)
  records : forall j : Nat, j < page.numSlots -> j ≠ i ->
    recordOf m' ({ page with bytes := m }.slot j) = recordOf m ({ page with bytes := m }.slot j)

section

variable (h : CompactLoop page (i :: rest) m toOffset)
include h

theorem next (hpage : Accounts page.area page.slots) (hi : i < page.numSlots)
    (hiocc : (page.slot i).occupied = true) (hnotin : i ∉ rest)
    (hrest : forall j : Nat, j ∈ rest -> j < page.numSlots ∧ (page.slot j).occupied = true ∧
      (page.slot i).offsetToRecord <= (page.slot j).offsetToRecord) {m' : Memory}
    (hmoved : Moved page m m' i (dbAlign toOffset page.alignment)) :
    CompactLoop page rest m' (dbAlign toOffset page.alignment + (page.slot i).recordLength) := by
  have hend : dbAlign (dbAlign toOffset page.alignment + (page.slot i).recordLength)
      page.alignment =
      dbAlign toOffset page.alignment + (page.slot i).size page.alignment :=
    dbAlign_add (dbAlign_dvd _ _)
  have hsize := (page.slot i).size_nonneg page.alignment
  have hheader := h.header_le
  have hpos : (0 : Int) < sizeofSpageHeader := by decide
  have hoffset : (({ page with bytes := m' }.slot i).offsetToRecord : Int) =
      dbAlign toOffset page.alignment := by
    rw [hmoved.slot]
    exact Int.toNat_of_nonneg (by omega)
  have hiocc' : ({ page with bytes := m' }.slot i).occupied = true := by
    rw [occupied_iff]
    omega
  have hlive : ({ page with bytes := m' }.slot i).Live := by
    rw [hmoved.slot]
    exact (hpage.placed _ (slot_mem_slots hi) hiocc).live
  have hnotin' : forall j : Nat, j ≠ i -> j ∉ rest -> j ∉ i :: rest := by
    intro j hne hj hmem
    cases mem_cons.mp hmem with
    | inl heq => exact hne heq
    | inr hmem => exact hj hmem
  -- the records that were moved before lie below the new place
  have hbelow : forall j : Nat, j < page.numSlots -> j ≠ i -> j ∉ rest ->
      ({ page with bytes := m' }.slot j).occupied = true ->
      ({ page with bytes := m' }.slot j).Placed page.alignment
        (dbAlign toOffset page.alignment) := by
    intro j hj hne hjrest hocc
    rw [hmoved.others j hj hne] at hocc ⊢
    rw [h.occupied j hj] at hocc
    exact h.moved j hj (hnotin' j hne hjrest) hocc
  constructor
  · intro j hj
    by_cases hne : j = i
    · rw [hne, hmoved.slot]
    · rw [hmoved.others j hj hne, h.length j hj]
  · intro j hj
    by_cases hne : j = i
    · rw [hne, hmoved.slot]
    · rw [hmoved.others j hj hne, h.type j hj]
  · intro j hj
    by_cases hne : j = i
    · rw [hne, hiocc', hiocc]
    · rw [hmoved.others j hj hne, h.occupied j hj]
  · intro j hj
    have hne : j ≠ i := fun heq => hnotin (heq ▸ hj)
    rw [hmoved.others j (hrest j hj).1 hne, h.waiting j (mem_cons_of_mem _ hj)]
  · intro j hj hjrest hocc
    rw [hend]
    by_cases hne : j = i
    · subst hne
      refine ⟨hoffset ▸ dbAlign_dvd _ _, hoffset ▸ hheader, fun _ => ?_, hlive⟩
      rw [hoffset, hmoved.slot]
      exact le_refl _
    · apply (hbelow j hj hne hjrest ?_).mono (by omega)
      rw [hmoved.others j hj hne, h.occupied j hj, hocc]
  · intro j hj hjrest hocc
    rw [hend]
    by_cases hne : j = i
    · rw [hne, hoffset]
      omega
    · have hstart := h.start j hj (hnotin' j hne hjrest) hocc
      rw [hmoved.others j hj hne]
      omega
  · intro j k hj hk hjk hjrest hkrest
    by_cases hji : j = i
    · subst hji
      apply apart_of_free_le (le_of_eq hoffset.symm)
      exact hbelow k hk (Ne.symm hjk) hkrest
    by_cases hki : k = i
    · subst hki
      apply Apart.symm
      apply apart_of_free_le (le_of_eq hoffset.symm)
      exact hbelow j hj hjk hjrest
    · rw [hmoved.others j hj hji, hmoved.others k hk hki]
      exact h.apart j k hj hk hjk (hnotin' j hji hjrest) (hnotin' k hki hkrest)
  · intro j hj hlen
    rw [hend]
    rcases hrest j hj with ⟨hjn, hjocc, hsorted⟩
    exact h.ahead_next hpage hi hiocc hj hjn hjocc (fun heq => hnotin (heq ▸ hj)) hsorted hlen
  · intro j hj
    by_cases hne : j = i
    · rw [hne, hmoved.record, ← h.record i hi, h.waiting i mem_cons_self]
    · rw [hmoved.others j hj hne, hmoved.records j hj hne, h.record j hj]
  · have hspace := h.space
    rw [map_cons, sum_cons] at hspace
    rw [hend]
    omega
  · rw [hend]
    omega

theorem outside_next (hpage : Accounts page.area page.slots) (hi : i < page.numSlots)
    (hiocc : (page.slot i).occupied = true)
    (hrest : forall j : Nat, j ∈ rest -> j < page.numSlots ∧ (page.slot j).occupied = true ∧
      (page.slot i).offsetToRecord <= (page.slot j).offsetToRecord) {j : Nat}
    (hj : j < page.numSlots) (hne : j ≠ i)
    (hjocc : ({ page with bytes := m }.slot j).occupied = true) {x : Int}
    (hlow : ({ page with bytes := m }.slot j).offsetToRecord <= x)
    (hhigh : x < ({ page with bytes := m }.slot j).offsetToRecord +
      ({ page with bytes := m }.slot j).recordLength) :
    (x < dbAlign toOffset page.alignment ∨
      dbAlign toOffset page.alignment + (page.slot i).recordLength <= x) ∧
    x < slotAddress (page.numSlots - 1) := by
  have hlen : 0 < ({ page with bytes := m }.slot j).recordLength := by omega
  have hsize := ({ page with bytes := m }.slot j).length_le_size page.alignment
  have hsizei := (page.slot i).length_le_size page.alignment
  have hend := h.end_le hpage
  have hfree := hpage.free_add_contFree
  have hcont := hpage.page_contFree_nonneg
  rw [h.occupied j hj] at hjocc
  by_cases hmem : j ∈ rest
  · have hsame := h.waiting j (mem_cons_of_mem _ hmem)
    rw [hsame] at hlow hhigh hlen hsize
    have hahead := h.ahead_next hpage hi hiocc hmem hj hjocc (Ne.symm hne) (hrest j hmem).2.2 hlen
    have hplaced := (hpage.placed _ (slot_mem_slots hj) hjocc).below hlen
    change _ + (page.slot j).size page.alignment <= page.offsetToFreeArea at hplaced
    omega
  · have hnotin : j ∉ i :: rest := by
      intro hmem'
      cases mem_cons.mp hmem' with
      | inl heq => exact hne heq
      | inr hmem' => exact hmem hmem'
    have hplaced := (h.moved j hj hnotin hjocc).below hlen
    omega

theorem moved_inPlace (hplace : dbAlign toOffset page.alignment = (page.slot i).offsetToRecord) :
    Moved page m m i (dbAlign toOffset page.alignment) where
  slot := by
    rw [h.waiting i mem_cons_self, hplace]
    rfl
  others _ _ _ := rfl
  record := by rw [h.waiting i mem_cons_self]
  records _ _ _ := rfl

end

def moveRecord (page : SpagePage) (m : Memory) (i : Nat) (offset : Int) : SpagePage :=
  ({ page with bytes := m.move offset (page.slot i).offsetToRecord (page.slot i).recordLength } :
    SpagePage).setOffset i offset

theorem moved_moveRecord (h : CompactLoop page (i :: rest) m toOffset)
    (hpage : Accounts page.area page.slots) (hi : i < page.numSlots)
    (hiocc : (page.slot i).occupied = true)
    (hrest : forall j : Nat, j ∈ rest -> j < page.numSlots ∧ (page.slot j).occupied = true ∧
      (page.slot i).offsetToRecord <= (page.slot j).offsetToRecord) :
    Moved page m (moveRecord page m i (dbAlign toOffset page.alignment)).bytes i
      (dbAlign toOffset page.alignment) := by
  let offset := dbAlign toOffset page.alignment
  let copied : SpagePage :=
    { page with bytes := m.move offset (page.slot i).offsetToRecord (page.slot i).recordLength }
  have hend : offset + (page.slot i).size page.alignment <= slotAddress (page.numSlots - 1) :=
    h.end_le hpage
  have hlen := (page.slot i).length_le_size page.alignment
  have hheader : sizeofSpageHeader <= offset := h.header_le
  have hpos : (0 : Int) < sizeofSpageHeader := by decide
  rw [slotAddress_eq, show dbPagesize = 16376 from rfl] at hend
  -- the copy does not reach the slots
  have hcopied : forall j : Nat, j < page.numSlots ->
      copied.slot j = ({ page with bytes := m } : SpagePage).slot j := by
    intro j hj
    apply slot_congr
    intro x hlow _
    change m.move offset _ _ x = m x
    apply Memory.write_outside
    rw [slotAddress_eq, show dbPagesize = 16376 from rfl] at hlow
    omega
  have hcopiedi : copied.slot i = page.slot i := by
    rw [hcopied i hi, h.waiting i mem_cons_self]
  have hbits : bits14 offset = offset.toNat := by
    have hoffset : (bits14 offset : Int) = offset := bits14_eq (by omega) (by omega)
    omega
  have hslot : (copied.setOffset i offset).slot i =
      { page.slot i with offsetToRecord := offset.toNat } := by
    unfold setOffset
    rw [hcopiedi, hbits, slot_setSlot]
    exact ⟨by change offset.toNat < _; omega, (page.slot_fits i).length⟩
  -- the slot that is written lies behind the records
  have hbytes : forall x, x < slotAddress (page.numSlots - 1) ->
      (copied.setOffset i offset).bytes x = copied.bytes x := by
    intro x hx
    apply setSlot_outside
    rw [slotAddress_eq] at hx ⊢
    omega
  constructor
  · exact hslot
  · intro j hj hne
    have hother : (copied.setOffset i offset).slot j = copied.slot j :=
      slot_setSlot_of_ne (by omega)
    exact hother.trans (hcopied j hj)
  · change recordOf (copied.setOffset i offset).bytes ((copied.setOffset i offset).slot i) = _
    rw [hslot]
    have hread : (copied.setOffset i offset).bytes.read offset (page.slot i).recordLength =
        m.read (page.slot i).offsetToRecord (page.slot i).recordLength := by
      rw [← Memory.read_move m offset]
      apply Memory.read_congr
      intro x _ hx
      apply hbytes
      rw [slotAddress_eq, show dbPagesize = 16376 from rfl]
      omega
    have hoffset : ((offset.toNat : Nat) : Int) = offset := Int.toNat_of_nonneg (by omega)
    unfold recordOf
    rw [if_pos hiocc, if_pos, hoffset, hread]
    rw [occupied_iff]
    change offset.toNat ≠ 0
    omega
  · intro j hj hne
    by_cases hocc : (({ page with bytes := m } : SpagePage).slot j).occupied = true
    · apply recordOf_congr
      intro x hlow hhigh
      rcases h.outside_next hpage hi hiocc hrest hj hne hocc hlow hhigh with ⟨hout, hslots⟩
      change (copied.setOffset i offset).bytes x = m x
      rw [hbytes x hslots]
      change m.move offset _ _ x = m x
      exact Memory.write_outside hout
    · rw [Bool.not_eq_true] at hocc
      rw [recordOf_empty hocc, recordOf_empty hocc]

theorem run (h : CompactLoop page rest m toOffset) (hpage : Accounts page.area page.slots)
    (hnodup : rest.Nodup)
    (hrest : forall j : Nat, j ∈ rest -> j < page.numSlots ∧ (page.slot j).occupied = true)
    (hsorted : rest.Pairwise fun i j : Nat =>
      (page.slot i).offsetToRecord <= (page.slot j).offsetToRecord) :
    exists m' toOffset', compactLoop rest { page with bytes := m } toOffset =
      .ok ({ page with bytes := m' }, toOffset') ∧ CompactLoop page [] m' toOffset' := by
  induction rest generalizing m toOffset with
  | nil => exact ⟨m, toOffset, rfl, h⟩
  | cons i rest ih =>
    rcases nodup_cons.mp hnodup with ⟨hnotin, hnodup⟩
    rcases pairwise_cons.mp hsorted with ⟨hfirst, hsorted⟩
    rcases hrest i mem_cons_self with ⟨hi, hiocc⟩
    have hrest' : forall j : Nat, j ∈ rest -> j < page.numSlots ∧
        (page.slot j).occupied = true := fun j hj => hrest j (mem_cons_of_mem _ hj)
    have hordered : forall j : Nat, j ∈ rest -> j < page.numSlots ∧
        (page.slot j).occupied = true ∧
        (page.slot i).offsetToRecord <= (page.slot j).offsetToRecord :=
      fun j hj => ⟨(hrest' j hj).1, (hrest' j hj).2, hfirst j hj⟩
    have hwaiting := h.waiting i mem_cons_self
    have hend := h.end_le hpage
    have hlen := (page.slot i).length_le_size page.alignment
    rw [slotAddress_eq] at hend
    unfold compactLoop
    dsimp only
    rw [hwaiting]
    by_cases hplace : dbAlign toOffset page.alignment = (page.slot i).offsetToRecord
    · rw [if_pos hplace]
      exact ih (h.next hpage hi hiocc hnotin hordered (h.moved_inPlace hplace)) hnodup hrest'
        hsorted
    rw [if_neg hplace, if_neg (by omega)]
    have hmoved := h.moved_moveRecord hpage hi hiocc hordered
    have hrecur := ih (h.next hpage hi hiocc hnotin hordered hmoved) hnodup hrest' hsorted
    have hslot := hmoved.slot
    have hpage' : ({ page with
        bytes := (moveRecord page m i (dbAlign toOffset page.alignment)).bytes } :
        SpagePage) = moveRecord page m i (dbAlign toOffset page.alignment) := rfl
    rw [hpage'] at hrecur hslot
    change exists m' toOffset', compactLoop rest
      (moveRecord page m i (dbAlign toOffset page.alignment))
      (dbAlign toOffset page.alignment +
        ((moveRecord page m i (dbAlign toOffset page.alignment)).slot i).recordLength) = _ ∧ _
    rw [hslot]
    exact hrecur

end CompactLoop

/-!
## The compacted page
-/

def SpagePage.slotArray (page : SpagePage) : List Nat :=
  (List.range page.numSlots).filter fun i : Nat => (page.slot i).occupied

variable {page : SpagePage}

theorem SpagePage.mem_slotArray {i : Nat} :
    i ∈ page.slotArray <-> i < page.numSlots ∧ (page.slot i).occupied = true := by
  rw [slotArray, mem_filter, mem_range]

theorem SpagePage.length_slotArray (page : SpagePage) :
    page.slotArray.length = page.slots.countP occupied := by
  unfold slotArray slots
  rw [countP_map, ← countP_eq_length_filter]
  rfl

theorem SpagePage.sum_slotArray (page : SpagePage) :
    (page.slotArray.map fun i : Nat => (page.slot i).size page.alignment).sum =
      usedSpace page.alignment page.slots := by
  unfold slotArray slots usedSpace
  rw [map_map]
  induction List.range page.numSlots with
  | nil => rfl
  | cons i l ih =>
    rw [map_cons, sum_cons, ← ih, filter_cons]
    cases hocc : (page.slot i).occupied with
    | true =>
      rw [if_pos rfl, map_cons, sum_cons, comp_apply, room_of_occupied hocc]
    | false =>
      rw [if_neg Bool.false_ne_true, comp_apply, room_of_empty hocc, Int.zero_add]

theorem compactLoop_start (hpage : Accounts page.area page.slots) {sorted : List Nat}
    (hperm : sorted.Perm page.slotArray) :
    CompactLoop page sorted page.bytes sizeofSpageHeader := by
  have hmem : forall i : Nat, i ∈ sorted <-> i < page.numSlots ∧ (page.slot i).occupied = true :=
    fun i => hperm.mem_iff.trans mem_slotArray
  have hheader := dbAlign_header page.alignment
  constructor
  · exact fun i _ => rfl
  · exact fun i _ => rfl
  · exact fun i _ => rfl
  · exact fun i _ => rfl
  · intro i hi hnotin hocc
    exact absurd ((hmem i).mpr ⟨hi, hocc⟩) hnotin
  · intro i hi hnotin hocc
    exact absurd ((hmem i).mpr ⟨hi, hocc⟩) hnotin
  · intro i j hi hj _ hnotin _
    apply apart_of_empty
    rw [← Bool.not_eq_true]
    exact fun hocc => hnotin ((hmem i).mpr ⟨hi, hocc⟩)
  · intro i hi _
    rw [hheader]
    rcases (hmem i).mp hi with ⟨hi, hocc⟩
    exact (hpage.placed _ (slot_mem_slots hi) hocc).header_le
  · exact fun i _ => rfl
  · rw [hheader, (hperm.map _).sum_eq, page.sum_slotArray]
  · rw [hheader]

/-- The page after a compaction: the records lie at the front without holes. -/
structure Compacted (page page' : SpagePage) : Prop where
  same : page' = { page with
    bytes := page'.bytes
    contFree := page.totalFree
    offsetToFreeArea := sizeofSpageHeader + usedSpace page.alignment page.slots }
  length : forall i : Nat, i < page.numSlots ->
    (page'.slot i).recordLength = (page.slot i).recordLength
  type : forall i : Nat, i < page.numSlots -> (page'.slot i).recordType = (page.slot i).recordType
  occupied : forall i : Nat, i < page.numSlots -> (page'.slot i).occupied = (page.slot i).occupied
  record : forall i : Nat, i < page.numSlots ->
    recordOf page'.bytes (page'.slot i) = recordOf page.bytes (page.slot i)
  accounts : Accounts page'.area page'.slots
  start : page'.StartsUpTo page'.offsetToFreeArea

section

variable {page page' : SpagePage} (hnum : page'.numSlots = page.numSlots)
include hnum

theorem countP_slots_congr
    (h : forall i : Nat, i < page.numSlots -> (page'.slot i).occupied = (page.slot i).occupied) :
    page'.slots.countP occupied = page.slots.countP occupied := by
  unfold slots
  rw [hnum, countP_map, countP_map]
  apply countP_congr
  intro i hi
  rw [comp_apply, comp_apply, h i (mem_range.mp hi)]

theorem usedSpace_slots_congr {a : Alignment}
    (hlength : forall i : Nat, i < page.numSlots ->
      (page'.slot i).recordLength = (page.slot i).recordLength)
    (hocc : forall i : Nat, i < page.numSlots -> (page'.slot i).occupied = (page.slot i).occupied) :
    usedSpace a page'.slots = usedSpace a page.slots := by
  unfold usedSpace slots
  rw [hnum, map_map, map_map]
  congr 1
  apply map_congr_left
  intro i hi
  have hlt := mem_range.mp hi
  simp only [comp_apply, room, size, hlength i hlt, hocc i hlt]

end

theorem compacted_of_loop (hpage : Accounts page.area page.slots) {m : Memory} {toOffset : Int}
    (h : CompactLoop page [] m toOffset) :
    Compacted page (finishCompact { page with bytes := m } toOffset) := by
  have hspace : dbAlign toOffset page.alignment =
      sizeofSpageHeader + usedSpace page.alignment page.slots := by
    have hspace := h.space
    rwa [map_nil, sum_nil, Int.add_zero] at hspace
  have htotal : dbPagesize - dbAlign toOffset page.alignment - page.numSlots * sizeofSpageSlot =
      page.totalFree := by
    have htotal := hpage.totalFree
    change page.totalFree = dbPagesize - sizeofSpageHeader - 4 * page.slots.length -
      usedSpace page.alignment page.slots at htotal
    rw [page.length_slots] at htotal
    change dbPagesize - _ - page.numSlots * 4 = _
    omega
  have hfinish : finishCompact { page with bytes := m } toOffset = { page with
      bytes := m
      contFree := page.totalFree
      offsetToFreeArea := dbAlign toOffset page.alignment } := by
    unfold finishCompact
    dsimp only
    rw [htotal]
  rw [hfinish]
  have hstart : ({ page with
      bytes := m
      contFree := page.totalFree
      offsetToFreeArea := dbAlign toOffset page.alignment } : SpagePage).StartsUpTo
      (dbAlign toOffset page.alignment) := by
    intro s hs hocc
    rcases mem_slots hs with ⟨i, hi, rfl⟩
    exact h.start i hi not_mem_nil ((h.occupied i hi).symm.trans hocc)
  refine ⟨by rw [hspace], h.length, h.type, h.occupied, h.record, ?_, hstart⟩
  have hcont := hpage.page_contFree_nonneg
  have hle := hpage.page_contFree_le
  constructor
  · intro s hs hocc
    rcases mem_slots hs with ⟨i, hi, rfl⟩
    exact h.moved i hi not_mem_nil ((h.occupied i hi).symm.trans hocc)
  · apply (pairwise_slots_iff fun _ _ => Apart.symm).mpr
    intro i j hi hj hne
    exact h.apart i j hi hj hne not_mem_nil not_mem_nil
  · refine hpage.numRecords.trans (congrArg Nat.cast ?_)
    symm
    apply countP_slots_congr
    · rfl
    · exact h.occupied
  · have hused : usedSpace page.alignment ({ page with
        bytes := m
        contFree := page.totalFree
        offsetToFreeArea := dbAlign toOffset page.alignment } : SpagePage).slots =
        usedSpace page.alignment page.slots := by
      apply usedSpace_slots_congr
      · rfl
      · exact h.length
      · exact h.occupied
    have hold := hpage.totalFree
    rw [page.length_slots] at hold
    change page.totalFree = dbPagesize - sizeofSpageHeader - _ - usedSpace page.alignment _
    rw [hused, length_slots]
    exact hold
  · change page.totalFree = dbPagesize - dbAlign toOffset page.alignment - 4 * _
    rw [length_slots, ← htotal]
    change _ = _ - 4 * (page.numSlots : Int)
    have hslot : sizeofSpageSlot = 4 := rfl
    rw [hslot]
    omega
  · change 0 <= page.totalFree
    omega
  · exact le_refl _
  · exact dbAlign_dvd _ _
  · exact h.header_le

/-- Records are moved with memory from calloc, and none of them has a reserved type. -/
def CanCompact (thread : ThreadEntry) (page : SpagePage) : Prop :=
  page.numRecords > 0 -> thread.callocSlots = true ∧ (List.range page.numSlots).any (fun i : Nat =>
      (page.slot i).recordType.code > RecType.usedTypeMax.code) = false

theorem spageCompact_spec (thread : ThreadEntry) (hpage : Accounts page.area page.slots) :
    (¬ CanCompact thread page ∧ spageCompact thread page = (false, page)) ∨
      exists page', spageCompact thread page = (true, page') ∧ Compacted page page' := by
  have hrecords : page.numRecords = page.slotArray.length := by
    rw [page.length_slotArray]
    exact hpage.numRecords
  by_cases hpos : page.numRecords > 0
  · by_cases hfail : thread.callocSlots = false ∨ (List.range page.numSlots).any (fun i : Nat =>
        (page.slot i).recordType.code > RecType.usedTypeMax.code) = true
    · left
      unfold spageCompact
      rw [if_pos hpos]
      cases hfail with
      | inl hcalloc =>
        rw [hcalloc]
        exact ⟨fun h => Bool.false_ne_true (hcalloc.symm.trans (h hpos).1), rfl⟩
      | inr htypes =>
        rw [htypes]
        exact ⟨fun h => Bool.false_ne_true ((h hpos).2.symm.trans htypes), ite_self _⟩
    · rw [not_or, Bool.not_eq_false, Bool.not_eq_true] at hfail
      have hperm := thread.qsort.perm (fun i => (page.slot i).offsetToRecord) page.slotArray
      have hnodup := hperm.nodup_iff.mpr (nodup_range.filter _)
      rcases (compactLoop_start hpage hperm).run hpage hnodup
        (fun j hj => mem_slotArray.mp (hperm.mem_iff.mp hj))
        (thread.qsort.sorted (fun i => (page.slot i).offsetToRecord) page.slotArray) with
        ⟨m, toOffset, hrun, hloop⟩
      right
      refine ⟨_, ?_, compacted_of_loop hpage hloop⟩
      unfold spageCompact
      unfold slotArray at hrun hrecords
      rw [if_pos hpos, hfail.1, hfail.2, Bool.not_true, if_neg Bool.false_ne_true,
        if_neg Bool.false_ne_true]
      dsimp only
      rw [if_neg (not_not.mpr hrecords), hrun]
  · right
    have hnil : page.slotArray = [] := length_eq_zero_iff.mp (by omega)
    have hperm : ([] : List Nat).Perm page.slotArray := by rw [hnil]
    refine ⟨_, ?_, compacted_of_loop hpage (compactLoop_start hpage hperm)⟩
    unfold spageCompact
    rw [if_neg hpos]

end Rye.Storage
