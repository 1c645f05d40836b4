import Rye.Storage.Btree.RoundTrip

/-!
# Keys and separators

Keys are compared column by column.  A null comes before every value, and a column that is
declared descending turns the answer around; the last column, the object identifier, is always
ascending.  The values of a column have its type, so that they can always be compared.

The separator of two neighbours is cut off behind the first column in which they differ and filled
up with nulls.
-/

namespace Rye.Storage

open List

section

variable {V : Type} [Ord V]

/-- The loop over the columns; the answer comes with the column that gives it.  The order of
`Option` has null in front. -/
def compareColumns : DbIdxkey V -> DbIdxkey V -> Ordering × Nat
  | val1 :: key1, val2 :: key2 =>
    match compare val1 val2 with
    | .eq => ((compareColumns key1 key2).1, (compareColumns key1 key2).2 + 1)
    | c => (c, 0)
  | _, _ => (.eq, 0)

/-- There is no answer for keys of different sizes. -/
def prIdxkeyCompare (key1 key2 : DbIdxkey V) : Option Ordering × Nat :=
  if key1.length ≠ key2.length then (none, 0)
  else (some (compareColumns key1 key2).1, (compareColumns key1 key2).2)

/-- The flags of the columns that are descending. -/
abbrev AscDesc := List Bool

def flipDesc (ascDesc : AscDesc) (d : Nat) (c : Ordering) : Ordering :=
  if ascDesc.getD d false then c.swap else c

/-- The column of the caller is where the answer is put; no column is skipped. -/
def btreeCompareKey (ascDesc : AscDesc) (key1 key2 : DbIdxkey V) (_startCol : Nat) :
    Option Ordering × Nat :=
  let (c, d) := prIdxkeyCompare key1 key2
  (c.map (flipDesc ascDesc d), d)

def btreeGetPrefix (ascDesc : AscDesc) (key1 key2 : DbIdxkey V) : Option (DbIdxkey V) :=
  let (c, d) := prIdxkeyCompare key1 key2
  let nextDomIsDesc := d < ascDesc.length ∧ ascDesc.getD (d + 1) false
  if c.map (flipDesc ascDesc d) ≠ some .lt then none
  else if d = key1.length - 1 ∨ key1.getD (d + 1) none = none ∨ key2.getD (d + 1) none = none then
    some key1
  else
    some ((if nextDomIsDesc then key1 else key2).take (d + 1) ++
      replicate (key1.length - (d + 1)) none)

variable {key1 key2 pre1 pre2 rest1 rest2 : DbIdxkey V} {val1 val2 : Option V} {ascDesc : AscDesc}

theorem compareColumns_append (hagree : Forall₂ (fun v w => compare v w = .eq) pre1 pre2)
    (hdiffer : compare val1 val2 ≠ .eq) :
    compareColumns (pre1 ++ val1 :: rest1) (pre2 ++ val2 :: rest2) =
      (compare val1 val2, pre1.length) := by
  induction hagree with
  | nil =>
    rw [nil_append, nil_append, compareColumns]
    cases hc : compare val1 val2 with
    | eq => exact absurd hc hdiffer
    | lt | gt => rfl
  | cons heq _ ih =>
    rw [cons_append, cons_append, compareColumns, heq, ih]
    rfl

theorem exists_differ (hlen : key1.length = key2.length) (h : (compareColumns key1 key2).1 ≠ .eq) :
    exists pre1 pre2 rest1 rest2 val1 val2,
      key1 = pre1 ++ val1 :: rest1 ∧ key2 = pre2 ++ val2 :: rest2 ∧
        Forall₂ (fun v w => compare v w = .eq) pre1 pre2 ∧ compare val1 val2 ≠ .eq := by
  induction key1 generalizing key2 with
  | nil => exact absurd rfl h
  | cons val1 key1 ih =>
    cases key2 with
    | nil => cases hlen
    | cons val2 key2 =>
      by_cases heq : compare val1 val2 = .eq
      · rw [compareColumns, heq] at h
        obtain ⟨pre1, pre2, rest1, rest2, v, w, rfl, rfl, hagree, hdiffer⟩ :=
          ih (Nat.succ_inj.mp hlen) h
        exact ⟨val1 :: pre1, val2 :: pre2, rest1, rest2, v, w, rfl, rfl, .cons heq hagree, hdiffer⟩
      · exact ⟨[], [], key1, key2, val1, val2, rfl, rfl, .nil, heq⟩

theorem flipDesc_eq (d : Nat) : flipDesc ascDesc d .eq = .eq := by
  unfold flipDesc
  split <;> rfl

theorem btreeCompareKey_some {c : Ordering} (h : (btreeCompareKey ascDesc key1 key2 0).1 = some c)
    (hne : c ≠ .eq) : key1.length = key2.length ∧ (compareColumns key1 key2).1 ≠ .eq := by
  unfold btreeCompareKey prIdxkeyCompare at h
  split_ifs at h with hlen
  · cases h
  · refine ⟨not_not.mp hlen, fun heq => ?_⟩
    rw [heq] at h
    exact hne ((Option.some.inj h).symm.trans (flipDesc_eq _))

theorem btreeCompareKey_append (startCol : Nat)
    (hlen : (pre1 ++ val1 :: rest1).length = (pre2 ++ val2 :: rest2).length)
    (hagree : Forall₂ (fun v w => compare v w = .eq) pre1 pre2)
    (hdiffer : compare val1 val2 ≠ .eq) :
    btreeCompareKey ascDesc (pre1 ++ val1 :: rest1) (pre2 ++ val2 :: rest2) startCol =
      (some (flipDesc ascDesc pre1.length (compare val1 val2)), pre1.length) := by
  rw [btreeCompareKey, prIdxkeyCompare, if_neg (not_not.mpr hlen),
    compareColumns_append hagree hdiffer]
  rfl

end

/-!
## Separators
-/

section

variable {T V : Type} [Ord V] [Std.ReflOrd V] {ascDesc : AscDesc} (key : DbIdxkey V)

theorem agree_refl : Forall₂ (fun v w => compare v w = .eq) key key :=
  forall₂_same.mpr fun _ _ => Std.ReflCmp.compare_self

theorem compareColumns_self : (compareColumns key key).1 = .eq := by
  induction key with
  | nil => rfl
  | cons val key ih =>
    rw [compareColumns, show compare val val = .eq from Std.ReflCmp.compare_self]
    exact ih

theorem btreeCompareKey_self (startCol : Nat) :
    (btreeCompareKey ascDesc key key startCol).1 = some .eq := by
  rw [btreeCompareKey, prIdxkeyCompare, if_neg (not_not.mpr rfl), compareColumns_self]
  exact congrArg some (flipDesc_eq _)

omit [Ord V] [Std.ReflOrd V]

/-- The columns up to `val`, and nulls in place of the others. -/
def cutOff (pre : DbIdxkey V) (val : Option V) (rest : DbIdxkey V) : DbIdxkey V :=
  pre ++ val :: replicate rest.length none

theorem length_cutOff (pre rest : DbIdxkey V) (val : Option V) :
    (cutOff pre val rest).length = (pre ++ val :: rest).length := by
  rw [cutOff, length_append, length_cons, length_replicate, length_append, length_cons]

theorem take_append_nulls (pre rest : DbIdxkey V) (val : Option V) :
    (pre ++ val :: rest).take (pre.length + 1) ++
      replicate ((pre ++ val :: rest).length - (pre.length + 1)) none = cutOff pre val rest := by
  have hrest : (pre ++ val :: rest).length - (pre.length + 1) = rest.length := by
    rw [length_append, length_cons]
    omega
  rw [hrest, take_length_add_append, append_assoc]
  rfl

theorem getD_behind (pre rest : DbIdxkey V) (val : Option V) :
    (pre ++ val :: rest).getD (pre.length + 1) none = rest.headD none := by
  cases rest <;> simp

theorem btreeGetKeyLength_cutOff (types : IndexTypes T V) (pre rest : DbIdxkey V) (val : Option V) :
    btreeGetKeyLength types (cutOff pre val rest) <=
      btreeGetKeyLength types (pre ++ val :: rest) := by
  have hnulls : ((replicate rest.length (none : Option V)).map fun val =>
      (val.map types.indexLengthval).getD 0).sum = 0 := by
    rw [map_replicate, sum_replicate]
    exact Nat.mul_zero _
  unfold btreeGetKeyLength
  rw [length_cutOff, cutOff, map_append, map_cons, sum_append, sum_cons, hnulls,
    map_append, map_cons, sum_append, sum_cons]
  omega

variable [Ord V] [Std.ReflOrd V]

/-- A null behind equal columns is below a value there, unless the column is descending. -/
theorem btreeCompareKey_cutOff (pre rest : DbIdxkey V) (val : Option V) (next : V) :
    (btreeCompareKey ascDesc (cutOff pre val (some next :: rest))
        (pre ++ val :: some next :: rest) 0).1 = some (flipDesc ascDesc (pre.length + 1) .lt) ∧
      (btreeCompareKey ascDesc (pre ++ val :: some next :: rest)
        (cutOff pre val (some next :: rest)) 0).1 =
          some (flipDesc ascDesc (pre.length + 1) .gt) := by
  have hlen := length_cutOff pre (some next :: rest) val
  have hcut : cutOff pre val (some next :: rest) =
      (pre ++ [val]) ++ none :: replicate rest.length none := by
    rw [append_assoc]
    rfl
  have hkey : pre ++ val :: some next :: rest = (pre ++ [val]) ++ some next :: rest := by
    rw [append_assoc]
    rfl
  have hpre : (pre ++ [val]).length = pre.length + 1 := length_append
  rw [hcut, hkey] at hlen ⊢
  rw [btreeCompareKey_append 0 hlen (agree_refl _) nofun,
    btreeCompareKey_append 0 hlen.symm (agree_refl _) nofun, hpre]
  exact ⟨rfl, rfl⟩

theorem btreeGetPrefix_separates (types : IndexTypes T V) (ascDesc : AscDesc)
    (key1 key2 : DbIdxkey V) (h : (btreeCompareKey ascDesc key1 key2 0).1 = some .lt) :
    exists key, btreeGetPrefix ascDesc key1 key2 = some key ∧
      ((btreeCompareKey ascDesc key1 key 0).1 = some .lt ∨
        (btreeCompareKey ascDesc key1 key 0).1 = some .eq) ∧
      (btreeCompareKey ascDesc key key2 0).1 = some .lt ∧
      btreeGetKeyLength types key <=
        max (btreeGetKeyLength types key1) (btreeGetKeyLength types key2) := by
  obtain ⟨hlen, hne⟩ := btreeCompareKey_some h nofun
  obtain ⟨pre1, pre2, rest1, rest2, val1, val2, rfl, rfl, hagree, hdiffer⟩ := exists_differ hlen hne
  have hbetween := h
  rw [btreeCompareKey_append 0 hlen hagree hdiffer] at h
  have hpre := hagree.length_eq
  unfold btreeGetPrefix prIdxkeyCompare
  rw [if_neg (not_not.mpr hlen), compareColumns_append hagree hdiffer]
  dsimp only [Option.map_some]
  rw [if_neg (not_not.mpr h), getD_behind, hpre, getD_behind]
  split_ifs with hnull hdesc
  · exact ⟨_, rfl, .inr (btreeCompareKey_self _ 0), hbetween, le_max_left _ _⟩
  · rw [← hpre, take_append_nulls]
    cases rest1 with
    | nil => exact absurd (.inr (.inl rfl)) hnull
    | cons next rest1 =>
      cases next with
      | none => exact absurd (.inr (.inl rfl)) hnull
      | some next =>
        refine ⟨_, rfl, .inl ?_, ?_, ?_⟩
        · rw [(btreeCompareKey_cutOff pre1 rest1 val1 next).2, flipDesc, hpre, hdesc.2]
          rfl
        · rw [← length_cutOff] at hlen
          rw [cutOff, btreeCompareKey_append 0 hlen hagree hdiffer]
          exact h
        · exact (btreeGetKeyLength_cutOff types _ _ _).trans (le_max_left _ _)
  · rw [hlen, take_append_nulls]
    cases rest2 with
    | nil => exact absurd (.inr (.inr rfl)) hnull
    | cons next rest2 =>
      cases next with
      | none => exact absurd (.inr (.inr rfl)) hnull
      | some next =>
        refine ⟨_, rfl, .inl ?_, ?_, ?_⟩
        · rw [← length_cutOff pre2] at hlen
          rw [cutOff, btreeCompareKey_append 0 hlen hagree hdiffer]
          exact h
        · have hasc : ascDesc.getD (pre2.length + 1) false = false := by
            by_contra hne
            rw [Bool.not_eq_false] at hne
            refine hdesc ⟨?_, hne⟩
            by_contra hge
            rw [getD_eq_default _ _ (by omega)] at hne
            cases hne
          rw [(btreeCompareKey_cutOff pre2 rest2 val2 next).1, flipDesc, hasc]
          rfl
        · exact (btreeGetKeyLength_cutOff types _ _ _).trans (le_max_right _ _)

/-- The second column of the separator is null, which is behind all values of a descending column. -/
theorem btreeGetPrefix_separates_desc :
    exists key, btreeGetPrefix [false, true] [some [1], some [5], some [0]]
        [some [2], some [6], some [0]] = some key ∧
      ((btreeCompareKey [false, true] [some [1], some [5], some [0]] key 0).1 = some .lt ∨
        (btreeCompareKey [false, true] [some [1], some [5], some [0]] key 0).1 = some .eq) ∧
      (btreeCompareKey [false, true] key [some [2], some [6], some [0]] 0).1 = some .lt ∧
      btreeGetKeyLength (rawTypes 1) key <=
        max (btreeGetKeyLength (rawTypes 1) [some [1], some [5], some [0]])
          (btreeGetKeyLength (rawTypes 1) [some [2], some [6], some [0]]) :=
  btreeGetPrefix_separates (rawTypes 1) [false, true] _ _ (by decide)

end

end Rye.Storage
