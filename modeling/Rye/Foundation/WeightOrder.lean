import Mathlib.Data.List.DropRight

/-!
# Comparing words by the weights of their letters

Two words are compared letter by letter.  The first two letters of different weight
decide, and `differ` says how; behind the end of the shorter word the other word
is the greater one unless all its weights are zero.
-/

namespace Rye.Foundation.WeightOrder

open List

variable {letter : Type}

def compare (weight : letter -> Nat) (differ : Nat -> Nat -> Int) :
    List letter -> List letter -> Int
  | [], t => if t.all (fun b => weight b == 0) then 0 else -1
  | a :: s, [] => if (a :: s).all (fun a => weight a == 0) then 0 else 1
  | a :: s, b :: t =>
    if weight a = weight b then compare weight differ s t
    else differ (weight a) (weight b)

variable {weight : letter -> Nat} {differ : Nat -> Nat -> Int}

theorem compare_nil_nonneg (s : List letter) : 0 <= compare weight differ s [] := by
  cases s with
  | nil => exact Int.le_refl 0
  | cons a s =>
    unfold compare
    split_ifs <;> decide

variable {a b : letter}

theorem compare_cons_of_eq (h : weight a = weight b) (s t : List letter) :
    compare weight differ (a :: s) (b :: t) = compare weight differ s t := by
  rw [compare, if_pos h]

theorem compare_cons_of_ne (h : weight a ≠ weight b) (s t : List letter) :
    compare weight differ (a :: s) (b :: t) = differ (weight a) (weight b) := by
  rw [compare, if_neg h]

theorem compare_append_left (u s t : List letter) :
    compare weight differ (u ++ s) (u ++ t) = compare weight differ s t := by
  induction u with
  | nil => rfl
  | cons a u ih => rw [cons_append, cons_append, compare_cons_of_eq rfl, ih]

theorem compare_append_of_ne (h : weight a ≠ weight b) (u s t : List letter) :
    compare weight differ (u ++ a :: s) (u ++ b :: t) = differ (weight a) (weight b) := by
  rw [compare_append_left, compare_cons_of_ne h]

/-!
## Words that compare equal
-/

/-- The weights that count: a word without its trailing zero weights. -/
def significant (weight : letter -> Nat) (s : List letter) : List Nat :=
  (s.map weight).rdropWhile (fun w => w == 0)

theorem significant_eq_nil_iff (s : List letter) :
    significant weight s = [] <-> s.all (fun a => weight a == 0) = true := by
  rw [significant, rdropWhile_eq_nil_iff, all_eq_true]
  exact forall_mem_map

theorem rdropWhile_cons {α : Type} (p : α -> Bool) (a : α) (l : List α) :
    (a :: l).rdropWhile p =
      if (l.rdropWhile p).isEmpty then [a].rdropWhile p else a :: l.rdropWhile p := by
  simp only [List.rdropWhile, reverse_cons, dropWhile_append, isEmpty_reverse,
    reverse_nil, nil_append]
  split_ifs
  · rfl
  · rw [reverse_append]
    rfl

theorem significant_cons (a : letter) (s : List letter) :
    significant weight (a :: s) =
      if (significant weight s).isEmpty then
        if weight a == 0 then [] else [weight a]
      else
        weight a :: significant weight s := by
  rw [significant, map_cons, rdropWhile_cons, rdropWhile_singleton]
  rfl

theorem compare_eq_zero_iff (hdiffer : forall w1 w2, w1 ≠ w2 -> differ w1 w2 ≠ 0)
    (s t : List letter) :
    compare weight differ s t = 0 <-> significant weight s = significant weight t := by
  induction s generalizing t with
  | nil =>
    have hnil : significant weight ([] : List letter) = [] := rfl
    rw [compare, hnil, eq_comm (a := ([] : List Nat)), significant_eq_nil_iff]
    split_ifs with h
    · exact iff_of_true rfl h
    · exact iff_of_false (by decide) h
  | cons a s ih =>
    cases t with
    | nil =>
      have hnil : significant weight ([] : List letter) = [] := rfl
      rw [compare, hnil, significant_eq_nil_iff]
      split_ifs with h
      · exact iff_of_true rfl h
      · exact iff_of_false (by decide) h
    | cons b t =>
      rw [compare]
      split_ifs with h
      · rw [ih, significant_cons, significant_cons, h]
        split_ifs with hs ht ht <;> simp_all
      · refine iff_of_false (hdiffer _ _ h) ?_
        rw [significant_cons, significant_cons]
        split_ifs <;> simp_all

theorem significant_lt_of_lt (h : weight a < weight b) (s t : List letter) :
    significant weight (a :: s) < significant weight (b :: t) := by
  rw [significant_cons, significant_cons]
  split_ifs <;> simp_all [cons_lt_cons_iff]

theorem significant_lt_iff_of_eq (h : weight a = weight b) (s t : List letter) :
    significant weight (a :: s) < significant weight (b :: t) <->
      significant weight s < significant weight t := by
  rw [significant_cons, significant_cons, h]
  generalize significant weight s = u
  generalize significant weight t = v
  cases u <;> cases v <;> by_cases hb : weight b = 0 <;> simp [hb]

theorem significant_eq_iff_of_eq (h : weight a = weight b) (s t : List letter) :
    significant weight (a :: s) = significant weight (b :: t) <->
      significant weight s = significant weight t := by
  rw [significant_cons, significant_cons, h]
  generalize significant weight s = u
  generalize significant weight t = v
  cases u <;> cases v <;> by_cases hb : weight b = 0 <;> simp [hb]

end Rye.Foundation.WeightOrder
