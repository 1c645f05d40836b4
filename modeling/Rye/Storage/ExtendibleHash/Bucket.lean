import Mathlib.Data.List.Basic
import Mathlib.Order.Lattice

/-!
# Buckets of the extendible hash

A bucket page holds its local depth and its records in the order of their keys.
Records are numbered from one, since the header of the bucket comes first.
-/

namespace Rye.Storage.ExtendibleHash

open List

/-- The records of a bucket: a key with the value that is associated with it. -/
abbrev Records (K V : Type) := List (K × V)

section

variable {K V : Type} [LinearOrder K]

/-- The loop of the binary search; the fuel bounds the number of records that are read.  It
answers whether the key is there, and the slot where it is or belongs. -/
def searchFrom (records : Records K V) (key : K) : Nat -> Nat -> Nat -> Bool × Nat
  | 0, low, _ => (false, low)
  | fuel + 1, low, high =>
    let middle := (high + low) / 2
    match records[middle - 1]? with
    | none => (false, middle)
    | some record =>
      match compare key record.1 with
      | .eq => (true, middle)
      | .lt =>
        if low <= middle - 1 then searchFrom records key fuel low (middle - 1)
        else (false, middle)
      | .gt =>
        if middle + 1 <= high then searchFrom records key fuel (middle + 1) high
        else (false, middle + 1)

def ehashBinarySearchBucket (records : Records K V) (key : K) : Bool × Nat :=
  searchFrom records key records.length 1 records.length

def ehashLocateSlot (records : Records K V) (key : K) : Bool × Nat :=
  if records.length < 1 then (false, 1) else ehashBinarySearchBucket records key

def Sorted (records : Records K V) : Prop :=
  records.Pairwise (fun r s => r.1 < s.1)

structure Parts (records : Records K V) (key : K) (before here after : Records K V) : Prop where
  eq : records = before ++ here ++ after
  before_lt : forall r, r ∈ before -> r.1 < key
  after_gt : forall r, r ∈ after -> key < r.1

inductive Located (records : Records K V) (key : K) : Bool × Nat -> Prop where
  | found {before after : Records K V} {value : V}
      (parts : Parts records key before [(key, value)] after) :
      Located records key (true, before.length + 1)
  | missing {before after : Records K V} (parts : Parts records key before [] after) :
      Located records key (false, before.length + 1)

variable {records : Records K V} {record : K × V}

omit [LinearOrder K] in
theorem split_at {i : Nat} (h : records[i]? = some record) :
    records = records.take i ++ [record] ++ records.drop (i + 1) := by
  obtain ⟨hi, heq⟩ := List.getElem?_eq_some_iff.mp h
  rw [append_assoc, singleton_append, ← heq, getElem_cons_drop hi, take_append_drop]

theorem lt_of_mem_take (hsorted : Sorted records) {i : Nat} (h : records[i]? = some record)
    {r : K × V} (hr : r ∈ records.take i) : r.1 < record.1 := by
  rw [Sorted, split_at h, append_assoc] at hsorted
  exact (pairwise_append.mp hsorted).2.2 r hr record (by simp)

theorem lt_of_mem_drop (hsorted : Sorted records) {i : Nat} (h : records[i]? = some record)
    {r : K × V} (hr : r ∈ records.drop (i + 1)) : record.1 < r.1 := by
  rw [Sorted, split_at h, append_assoc, singleton_append] at hsorted
  exact (pairwise_cons.mp (pairwise_append.mp hsorted).2.1).1 r hr

theorem located_between {key : K} {slot : Nat} (hslot : slot <= records.length)
    (hbefore : forall r, r ∈ records.take slot -> r.1 < key)
    (hafter : forall r, r ∈ records.drop slot -> key < r.1) :
    Located records key (false, slot + 1) := by
  have hparts : Parts records key (records.take slot) [] (records.drop slot) :=
    { eq := by rw [append_nil, take_append_drop]
      before_lt := hbefore
      after_gt := hafter }
  have hlength : (records.take slot).length = slot := length_take_of_le hslot
  have h := Located.missing hparts
  rwa [hlength] at h

theorem searchFrom_located (hsorted : Sorted records) {key : K} {fuel low high : Nat}
    (hlow : 1 <= low) (hwindow : low <= high) (hhigh : high <= records.length)
    (hfuel : high < fuel + low) (hbefore : forall r, r ∈ records.take (low - 1) -> r.1 < key)
    (hafter : forall r, r ∈ records.drop high -> key < r.1) :
    Located records key (searchFrom records key fuel low high) := by
  induction fuel generalizing low high with
  | zero => omega
  | succ fuel ih =>
    have hmiddle : low <= (high + low) / 2 ∧ (high + low) / 2 <= high := by omega
    obtain ⟨record, hrecord⟩ : exists record, records[(high + low) / 2 - 1]? = some record :=
      ⟨_, getElem?_eq_getElem (by omega)⟩
    have hsucc : (high + low) / 2 - 1 + 1 = (high + low) / 2 := by omega
    rw [searchFrom]
    simp only [hrecord]
    generalize (high + low) / 2 = middle at *
    cases hcmp : compare key record.1 with
    | eq =>
      have hkey : key = record.1 := compare_eq_iff_eq.mp hcmp
      have hparts : Parts records key (records.take (middle - 1)) [(key, record.2)]
          (records.drop (middle - 1 + 1)) :=
        { eq := by
            rw [hkey]
            exact split_at hrecord
          before_lt := fun r hr => hkey ▸ lt_of_mem_take hsorted hrecord hr
          after_gt := fun r hr => hkey ▸ lt_of_mem_drop hsorted hrecord hr }
      have hlength : (records.take (middle - 1)).length + 1 = middle := by
        rw [length_take_of_le (by omega)]
        exact hsucc
      have hfound := Located.found hparts
      rwa [hlength] at hfound
    | lt =>
      have hlt : key < record.1 := compare_lt_iff_lt.mp hcmp
      have hdrop : forall r, r ∈ records.drop (middle - 1) -> key < r.1 := by
        intro r hr
        rw [← getElem_cons_drop (List.getElem?_eq_some_iff.mp hrecord).1,
          (List.getElem?_eq_some_iff.mp hrecord).2] at hr
        cases mem_cons.mp hr with
        | inl heq =>
          rw [heq]
          exact hlt
        | inr hmem => exact hlt.trans (lt_of_mem_drop hsorted hrecord hmem)
      simp only
      split_ifs with hnext
      · exact ih hlow hnext (by omega) (by omega) hbefore hdrop
      · have heq : low = middle := by omega
        rw [← hsucc]
        exact located_between (by omega) (heq ▸ hbefore) hdrop
    | gt =>
      have hgt : record.1 < key := compare_gt_iff_gt.mp hcmp
      have htake : forall r, r ∈ records.take middle -> r.1 < key := by
        intro r hr
        rw [← hsucc, take_succ_eq_append_getElem (List.getElem?_eq_some_iff.mp hrecord).1,
          (List.getElem?_eq_some_iff.mp hrecord).2] at hr
        cases mem_append.mp hr with
        | inl hmem => exact (lt_of_mem_take hsorted hrecord hmem).trans hgt
        | inr hmem =>
          rw [mem_singleton.mp hmem]
          exact hgt
      simp only
      split_ifs with hnext
      · exact ih (by omega) hnext hhigh (by omega) htake hafter
      · have heq : middle = high := by omega
        exact located_between (by omega) htake (heq ▸ hafter)

theorem ehashLocateSlot_located (hsorted : Sorted records) (key : K) :
    Located records key (ehashLocateSlot records key) := by
  rw [ehashLocateSlot]
  split_ifs with hempty
  · have hnil : records = [] := length_eq_zero_iff.mp (Nat.lt_one_iff.mp hempty)
    rw [hnil]
    exact located_between (Nat.zero_le 0) (by simp) (by simp)
  · have hlen : 1 <= records.length := Nat.le_of_not_lt hempty
    exact searchFrom_located hsorted (Nat.le_refl 1) hlen (Nat.le_refl _) (by omega) (by simp)
      (by simp)

end

/-!
## Changing the records
-/

section

variable {K V : Type} [LinearOrder K]

def insertAt (records : Records K V) (slot : Nat) (record : K × V) : Records K V :=
  records.take (slot - 1) ++ record :: records.drop (slot - 1)

/-- The value of a key that is there is replaced.  A page that is full gives no answer. -/
def ehashInsertToBucket (capacity : Nat) (records : Records K V) (key : K) (value : V) :
    Option (Records K V) :=
  match ehashLocateSlot records key with
  | (true, slot) => some (records.take (slot - 1) ++ (key, value) :: records.drop slot)
  | (false, slot) =>
    if records.length < capacity then some (insertAt records slot (key, value)) else none

/-- The deletion of a key, which fails if the key is not there. -/
def deleteFromBucket (records : Records K V) (key : K) : Option (Records K V) :=
  match ehashLocateSlot records key with
  | (true, slot) => some (records.take (slot - 1) ++ records.drop slot)
  | (false, _) => none

def searchBucket (records : Records K V) (key : K) : Option V :=
  match ehashLocateSlot records key with
  | (true, slot) => records[slot - 1]?.map Prod.snd
  | (false, _) => none

/-- The loop of `ehash_merge_permanent` that moves records into the sibling. -/
def moveRecords (capacity : Nat) : Records K V -> Records K V -> Option (Records K V)
  | [], sibling => some sibling
  | record :: rest, sibling =>
    match ehashLocateSlot sibling record.1 with
    | (true, _) => none
    | (false, slot) =>
      if sibling.length < capacity then
        moveRecords capacity rest (insertAt sibling slot record)
      else none

variable {records before here after : Records K V} {key : K}

section

variable (h : Parts records key before here after)
include h

theorem Parts.take_eq : records.take before.length = before := by
  rw [h.eq, append_assoc, take_left]

theorem Parts.drop_eq : records.drop before.length = here ++ after := by
  rw [h.eq, append_assoc, drop_left]

theorem Parts.sorted (hsorted : Sorted records) : Sorted (before ++ after) := by
  rw [Sorted, h.eq] at hsorted
  exact hsorted.sublist (List.Sublist.append_right (sublist_append_left before here) after)

theorem Parts.sorted_insert (hsorted : Sorted records) (value : V) :
    Sorted (before ++ (key, value) :: after) := by
  have hparts := h.sorted hsorted
  obtain ⟨hbefore, hafter, hcross⟩ := pairwise_append.mp hparts
  refine pairwise_append.mpr ⟨hbefore, pairwise_cons.mpr ⟨h.after_gt, hafter⟩, ?_⟩
  intro r hr s hs
  cases mem_cons.mp hs with
  | inl heq =>
    rw [heq]
    exact h.before_lt r hr
  | inr hmem => exact hcross r hr s hmem

theorem Parts.mem_iff (hhere : forall r, r ∈ here -> r.1 = key) (r : K × V) :
    r ∈ before ++ after <-> r ∈ records ∧ r.1 ≠ key := by
  rw [h.eq, mem_append, mem_append, mem_append]
  constructor
  · intro hr
    cases hr with
    | inl hmem => exact ⟨.inl (.inl hmem), ne_of_lt (h.before_lt r hmem)⟩
    | inr hmem => exact ⟨.inr hmem, ne_of_gt (h.after_gt r hmem)⟩
  · rintro ⟨(hmem | hmem) | hmem, hne⟩
    · exact .inl hmem
    · exact absurd (hhere r hmem) hne
    · exact .inr hmem

end

variable {value : V}

omit [LinearOrder K] in
theorem mem_insert_iff {before after : Records K V} (r : K × V) :
    r ∈ before ++ (key, value) :: after <-> r = (key, value) ∨ r ∈ before ++ after := by
  rw [mem_append, mem_append, mem_cons]
  tauto

structure Written (records : Records K V) (key : K) (value : V) (result : Records K V) :
    Prop where
  sorted : Sorted result
  mem_iff : forall r, r ∈ result <-> r = (key, value) ∨ (r ∈ records ∧ r.1 ≠ key)

variable {capacity : Nat} {records result : Records K V}

theorem ehashInsertToBucket_written (hsorted : Sorted records)
    (h : ehashInsertToBucket capacity records key value = some result) :
    Written records key value result ∧ (records.length <= capacity -> result.length <= capacity) := by
  have hlocated := ehashLocateSlot_located hsorted key
  rw [ehashInsertToBucket] at h
  generalize ehashLocateSlot records key = answer at h hlocated
  cases hlocated with
  | @found before after old parts =>
    have htail : records.drop (before.length + 1) = after := by
      rw [← drop_drop, parts.drop_eq]
      rfl
    simp only [Nat.add_sub_cancel, parts.take_eq, htail, Option.some.injEq] at h
    have hlength := congrArg List.length parts.eq
    subst h
    refine ⟨⟨parts.sorted_insert hsorted value, ?_⟩, ?_⟩
    · intro r
      rw [mem_insert_iff, parts.mem_iff (by simp)]
    · intro hle
      simp only [length_append, length_cons, length_nil] at hlength ⊢
      omega
  | @missing before after parts =>
    simp only [Nat.add_sub_cancel, insertAt, parts.take_eq, parts.drop_eq, nil_append] at h
    split_ifs at h with hroom
    have hlength := congrArg List.length parts.eq
    cases h
    refine ⟨⟨parts.sorted_insert hsorted value, ?_⟩, ?_⟩
    · intro r
      rw [mem_insert_iff, parts.mem_iff (by simp)]
    · intro _
      simp only [length_append, length_cons, length_nil] at hlength ⊢
      omega

variable {records : Records K V}

section

variable (hsorted : Sorted records)
include hsorted

theorem full_of_ehashInsertToBucket_none (h : ehashInsertToBucket capacity records key value = none) :
    capacity <= records.length ∧ forall r, r ∈ records -> r.1 ≠ key := by
  have hlocated := ehashLocateSlot_located hsorted key
  rw [ehashInsertToBucket] at h
  generalize ehashLocateSlot records key = answer at h hlocated
  cases hlocated with
  | found parts => exact absurd h nofun
  | @missing before after parts =>
    split_ifs at h with hroom
    refine ⟨Nat.le_of_not_lt hroom, ?_⟩
    intro r hr
    have hmem := (parts.mem_iff (by simp) r).mp (by rwa [parts.eq, append_nil] at hr)
    exact hmem.2

theorem deleteFromBucket_mem (h : deleteFromBucket records key = some result) :
    Sorted result ∧ (forall r, r ∈ result <-> r ∈ records ∧ r.1 ≠ key) ∧
      result.length <= records.length := by
  have hlocated := ehashLocateSlot_located hsorted key
  rw [deleteFromBucket] at h
  generalize ehashLocateSlot records key = answer at h hlocated
  cases hlocated with
  | missing parts => exact absurd h nofun
  | @found before after old parts =>
    have htail : records.drop (before.length + 1) = after := by
      rw [← drop_drop, parts.drop_eq]
      rfl
    simp only [Nat.add_sub_cancel, parts.take_eq, htail, Option.some.injEq] at h
    have hlength := congrArg List.length parts.eq
    subst h
    refine ⟨parts.sorted hsorted, parts.mem_iff (by simp), ?_⟩
    simp only [length_append, length_cons, length_nil] at hlength ⊢
    omega

theorem not_mem_of_deleteFromBucket_none (h : deleteFromBucket records key = none) :
    forall r, r ∈ records -> r.1 ≠ key := by
  have hlocated := ehashLocateSlot_located hsorted key
  rw [deleteFromBucket] at h
  generalize ehashLocateSlot records key = answer at h hlocated
  cases hlocated with
  | found parts => exact absurd h nofun
  | missing parts =>
    intro r hr
    exact ((parts.mem_iff (by simp) r).mp (by rwa [parts.eq, append_nil] at hr)).2

theorem searchBucket_eq_some_iff (key : K) (value : V) :
    searchBucket records key = some value <-> (key, value) ∈ records := by
  have hlocated := ehashLocateSlot_located hsorted key
  rw [searchBucket]
  generalize ehashLocateSlot records key = answer at hlocated
  cases hlocated with
  | @found before after old parts =>
    have hget : records[before.length + 1 - 1]? = some (key, old) := by
      rw [parts.eq, Nat.add_sub_cancel, append_assoc, getElem?_append_right
        (Nat.le_refl _), Nat.sub_self]
      rfl
    simp only [hget, Option.map_some, Option.some.injEq]
    constructor
    · intro heq
      rw [parts.eq, heq]
      simp
    intro hmem
    by_contra hne
    rw [parts.eq, append_assoc, mem_append, mem_append, mem_singleton] at hmem
    rcases hmem with hbefore | hhere | hafter
    · exact lt_irrefl key (parts.before_lt _ hbefore)
    · exact hne (Prod.mk.inj hhere).2.symm
    · exact lt_irrefl key (parts.after_gt _ hafter)
  | missing parts =>
    simp only [reduceCtorEq, false_iff]
    intro hmem
    exact ((parts.mem_iff (by simp) _).mp (by rwa [parts.eq, append_nil] at hmem)).2 rfl

end

theorem moveRecords_mem {records sibling result : Records K V} (hsorted : Sorted sibling)
    (hlength : sibling.length <= capacity) (h : moveRecords capacity records sibling = some result)
    :
    Sorted result ∧ (forall r, r ∈ result <-> r ∈ records ∨ r ∈ sibling) ∧
      result.length <= capacity := by
  induction records generalizing sibling with
  | nil =>
    cases h
    exact ⟨hsorted, fun r => by simp, hlength⟩
  | cons record rest ih =>
    have hlocated := ehashLocateSlot_located hsorted record.1
    rw [moveRecords] at h
    generalize ehashLocateSlot sibling record.1 = answer at h hlocated
    cases hlocated with
    | found parts => exact absurd h nofun
    | @missing before after parts =>
      simp only [Nat.add_sub_cancel, insertAt, parts.take_eq, parts.drop_eq, nil_append] at h
      split_ifs at h with hroom
      have heq := parts.eq
      rw [append_nil] at heq
      have hcount : (before ++ record :: after).length <= capacity := by
        rw [heq] at hroom
        simp only [length_append, length_cons] at hroom ⊢
        omega
      obtain ⟨hresult, hmem, hcapacity⟩ :=
        ih (parts.sorted_insert hsorted record.2) hcount h
      refine ⟨hresult, ?_, hcapacity⟩
      intro r
      rw [hmem, mem_insert_iff, ← heq, mem_cons]
      tauto

end

end Rye.Storage.ExtendibleHash
