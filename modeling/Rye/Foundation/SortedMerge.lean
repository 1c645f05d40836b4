import Mathlib.Order.Lattice

/-!
# Merging sorted lists

Two cursors run over two sorted lists.  What only the left list has, what only the right list has
and what both have is taken or left out.
-/

namespace Rye.Foundation.SortedMerge

open List

variable {α κ : Type} [LinearOrder κ]

def keep (b : Bool) (xs : List α) : List α :=
  if b then xs else []

def merge (cmp : α -> α -> Int) (left right both : Bool) : List α -> List α -> List α
  | [], ys => keep right ys
  | xs, [] => keep left xs
  | x :: xs, y :: ys =>
    if cmp x y < 0 then keep left [x] ++ merge cmp left right both xs (y :: ys)
    else if cmp x y = 0 then keep both [x] ++ merge cmp left right both xs ys
    else keep right [y] ++ merge cmp left right both (x :: xs) ys
termination_by xs ys => xs.length + ys.length

def heads (cmp : α -> α -> Int) : List α -> List α
  | [] => []
  | x :: xs => x :: heads cmp (xs.dropWhile fun y => cmp x y == 0)
termination_by xs => xs.length
decreasing_by exact Nat.lt_succ_of_le (dropWhile_suffix _).length_le

def insert (cmp : α -> α -> Int) (x : α) : List α -> List α
  | [] => [x]
  | y :: ys => if cmp x y <= 0 then x :: y :: ys else y :: insert cmp x ys

def sort (cmp : α -> α -> Int) (xs : List α) : List α :=
  xs.foldr (insert cmp) []

def Ranks (rank : α -> κ) (cmp : α -> α -> Int) (x y : α) : Prop :=
  (cmp x y < 0 <-> rank x < rank y) ∧ (cmp x y = 0 <-> rank x = rank y)

def count (rank : α -> κ) (k : κ) (xs : List α) : Nat :=
  xs.countP fun x => rank x = k

variable {rank : α -> κ} {cmp : α -> α -> Int} {xs ys : List α}

theorem Ranks.le_iff {x y : α} (h : Ranks rank cmp x y) : cmp x y <= 0 <-> rank x <= rank y := by
  rw [Int.le_iff_lt_or_eq, le_iff_lt_or_eq, h.1, h.2]

theorem insert_perm (x : α) (xs : List α) : (insert cmp x xs).Perm (x :: xs) := by
  induction xs with
  | nil => exact .refl _
  | cons y ys ih =>
    unfold insert
    split_ifs
    · exact .refl _
    · exact (ih.cons y).trans (.swap x y ys)

theorem sort_perm (xs : List α) : (sort cmp xs).Perm xs := by
  induction xs with
  | nil => exact .refl _
  | cons x xs ih => exact (insert_perm x _).trans (ih.cons x)

theorem insert_sorted {x : α} (hcmp : forall y, y ∈ xs -> Ranks rank cmp x y)
    (h : xs.Pairwise fun x y => rank x <= rank y) :
    (insert cmp x xs).Pairwise fun x y => rank x <= rank y := by
  induction xs with
  | nil => exact pairwise_singleton _ _
  | cons y ys ih =>
    have hranks := hcmp y mem_cons_self
    have hys := pairwise_cons.mp h
    unfold insert
    split_ifs with hle
    · refine pairwise_cons.mpr ⟨fun z hz => ?_, h⟩
      rcases mem_cons.mp hz with rfl | hz
      · exact hranks.le_iff.mp hle
      · exact le_trans (hranks.le_iff.mp hle) (hys.1 z hz)
    · refine pairwise_cons.mpr ⟨fun z hz => ?_, ih (fun z hz => hcmp z (.tail _ hz)) hys.2⟩
      rcases mem_cons.mp ((insert_perm x ys).mem_iff.mp hz) with rfl | hz
      · exact le_of_not_ge fun hge => hle (hranks.le_iff.mpr hge)
      · exact hys.1 z hz

theorem sort_sorted (hcmp : forall x, x ∈ xs -> forall y, y ∈ xs -> Ranks rank cmp x y) :
    (sort cmp xs).Pairwise fun x y => rank x <= rank y := by
  induction xs with
  | nil => exact .nil
  | cons x xs ih =>
    refine insert_sorted (fun y hy => ?_) (ih fun a ha b hb => hcmp a (.tail _ ha) b (.tail _ hb))
    exact hcmp x mem_cons_self y (.tail _ ((sort_perm xs).mem_iff.mp hy))

theorem heads_sublist (xs : List α) : (heads cmp xs).Sublist xs := by
  fun_induction heads cmp xs with
  | case1 => exact .slnil
  | case2 x xs ih => exact (ih.trans (dropWhile_suffix _).sublist).cons_cons x

theorem count_cons (k : κ) (x : α) (xs : List α) :
    count rank k (x :: xs) = count rank k xs + if rank x = k then 1 else 0 := by
  rw [count, countP_cons]
  simp only [decide_eq_true_eq]
  rfl

theorem count_append (k : κ) (xs ys : List α) :
    count rank k (xs ++ ys) = count rank k xs + count rank k ys :=
  countP_append

theorem count_eq_zero {k : κ} (h : forall x, x ∈ xs -> rank x ≠ k) : count rank k xs = 0 :=
  countP_eq_zero.mpr fun x hx => by simpa using h x hx

theorem count_eq_zero_of_lt {y : α} {k : κ} (h : k < rank y)
    (hys : (y :: ys).Pairwise fun x y => rank x <= rank y) : count rank k (y :: ys) = 0 := by
  refine count_eq_zero fun z hz => ?_
  rcases mem_cons.mp hz with rfl | hz
  · exact ne_of_gt h
  · exact ne_of_gt (lt_of_lt_of_le h ((pairwise_cons.mp hys).1 z hz))

theorem count_heads (hcmp : forall x, x ∈ xs -> forall y, y ∈ xs -> Ranks rank cmp x y)
    (h : xs.Pairwise fun x y => rank x <= rank y) (k : κ) :
    count rank k (heads cmp xs) = min 1 (count rank k xs) := by
  fun_induction heads cmp xs with
  | case1 => rfl
  | case2 x xs ih =>
    have hx := pairwise_cons.mp h
    have hsub := (dropWhile_suffix (l := xs) fun y => cmp x y == 0).sublist
    have ih := ih (fun a ha b hb => hcmp a (.tail _ (hsub.subset ha)) b (.tail _ (hsub.subset hb)))
      (hx.2.sublist hsub)
    have hsplit := congrArg (count rank k)
      (takeWhile_append_dropWhile (p := fun y => cmp x y == 0) (l := xs))
    rw [count_append] at hsplit
    have hrun (hk : rank x ≠ k) : count rank k (xs.takeWhile fun y => cmp x y == 0) = 0 := by
      refine count_eq_zero fun y hy heq => hk (heq ▸ ?_)
      have hys := mem_cons_of_mem x ((takeWhile_sublist _).subset hy)
      have hzero := all_eq_true.mp (all_takeWhile (p := fun y => cmp x y == 0)) y hy
      exact (hcmp x mem_cons_self y hys).2.mp (beq_iff_eq.mp hzero)
    have hrest (hk : rank x = k) : count rank k (xs.dropWhile fun y => cmp x y == 0) = 0 := by
      cases hdrop : xs.dropWhile fun y => cmp x y == 0 with
      | nil => rfl
      | cons z zs =>
        have hz := hsub.subset (hdrop ▸ mem_cons_self : z ∈ xs.dropWhile fun y => cmp x y == 0)
        have hhead := head_dropWhile_not (fun y => cmp x y == 0) (l := xs)
        simp only [hdrop, head_cons, beq_eq_false_iff_ne] at hhead
        have hne := hhead (cons_ne_nil _ _)
        refine count_eq_zero_of_lt (lt_of_le_of_ne (hk ▸ hx.1 z hz) fun heq => hne ?_)
          (hdrop ▸ hx.2.sublist hsub)
        exact (hcmp x mem_cons_self z (.tail _ hz)).2.mpr (hk.trans heq)
    rw [count_cons, count_cons, ih, ← hsplit]
    by_cases hk : rank x = k
    · simp [hk, hrest hk]
    · simp [hk, hrun hk]

theorem count_keep (b : Bool) (xs : List α) (k : κ) :
    count rank k (keep b xs) = if b then count rank k xs else 0 := by
  cases b <;> rfl

theorem mem_of_mem_keep {b : Bool} {x : α} (h : x ∈ keep b xs) : x ∈ xs := by
  cases b with
  | false => cases h
  | true => exact h

theorem mem_of_mem_merge {left right both : Bool} {z : α}
    (h : z ∈ merge cmp left right both xs ys) : z ∈ xs ∨ z ∈ ys := by
  fun_induction merge cmp left right both xs ys with
  | case1 ys => exact .inr (mem_of_mem_keep h)
  | case2 xs => exact .inl (mem_of_mem_keep h)
  | case3 x xs y ys _ ih | case4 x xs y ys _ _ ih | case5 x xs y ys _ _ ih =>
    rcases mem_append.mp h with hz | hz
    · have := mem_singleton.mp (mem_of_mem_keep hz)
      grind
    · grind

theorem count_merge (left right both : Bool)
    (hcmp : forall x, x ∈ xs -> forall y, y ∈ ys -> Ranks rank cmp x y)
    (hxs : xs.Pairwise fun x y => rank x <= rank y) (hys : ys.Pairwise fun x y => rank x <= rank y)
    (k : κ) :
    count rank k (merge cmp left right both xs ys) =
      (if left then count rank k xs - count rank k ys else 0) +
      (if right then count rank k ys - count rank k xs else 0) +
      if both then min (count rank k xs) (count rank k ys) else 0 := by
  have hnil : count rank k ([] : List α) = 0 := rfl
  fun_induction merge cmp left right both xs ys with
  | case1 ys | case2 xs _ => simp [count_keep, hnil]
  | case3 x xs y ys hlt ih =>
    have hrank := (hcmp x mem_cons_self y mem_cons_self).1.mp hlt
    have ih := ih (fun a ha => hcmp a (.tail _ ha)) hxs.of_cons hys
    have hnone (hk : rank x = k) : count rank k (y :: ys) = 0 :=
      count_eq_zero_of_lt (hk ▸ hrank) hys
    rw [count_append, ih, count_keep, count_cons k x, count_cons k x, hnil]
    grind
  | case4 x xs y ys hlt heq ih =>
    have hrank := (hcmp x mem_cons_self y mem_cons_self).2.mp heq
    have ih := ih (fun a ha b hb => hcmp a (.tail _ ha) b (.tail _ hb)) hxs.of_cons hys.of_cons
    rw [count_append, ih, count_keep, count_cons, count_cons, count_cons, hnil, hrank]
    grind
  | case5 x xs y ys hlt heq ih =>
    have hranks := hcmp x mem_cons_self y mem_cons_self
    have hrank : rank y < rank x :=
      lt_of_not_ge fun h => (lt_or_eq_of_le h).elim (hlt ∘ hranks.1.mpr) (heq ∘ hranks.2.mpr)
    have ih := ih (fun a ha b hb => hcmp a ha b (.tail _ hb)) hxs hys.of_cons
    have hnone (hk : rank y = k) : count rank k (x :: xs) = 0 :=
      count_eq_zero_of_lt (hk ▸ hrank) hxs
    rw [count_append, ih, count_keep, count_cons k y, count_cons k y, hnil]
    grind

end Rye.Foundation.SortedMerge
