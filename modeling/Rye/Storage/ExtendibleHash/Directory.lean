import Mathlib.Tactic.Ring
import Rye.Storage.ExtendibleHash.Operations

/-!
# The directory as a map of pseudo keys

What matters of the directory is the bucket that it gives to a pseudo key.  Each
change of the directory is described by its effect on this map.  Depths up to 30 are
considered, where no shift leaves the word.
-/

namespace Rye.Storage.ExtendibleHash

open Foundation LeadingBits List Ehash

section

theorem findOffset_eq {p d : Nat} (hp : p < 2 ^ 32) (hd : d <= 31) :
    findOffset p d = p / 2 ^ (32 - d) := by
  unfold findOffset
  cases Nat.eq_zero_or_pos d with
  | inl hzero =>
    rw [hzero, Nat.sub_zero, Nat.div_eq_of_lt hp]
    exact Nat.mod_one _
  | inr hpos =>
    rw [Nat.mod_eq_of_lt (by omega : 32 - d < 32), Nat.mod_eq_of_lt (by omega : d < 32)]
    apply Nat.mod_eq_of_lt
    rw [Nat.div_lt_iff_lt_mul (Nat.two_pow_pos _), ← Nat.pow_add]
    rwa [show d + (32 - d) = 32 by omega]

theorem findOffset_mul {d entry : Nat} (hd : d <= 31) (hentry : entry < 2 ^ d) :
    entry * 2 ^ (32 - d) < 2 ^ 32 ∧ findOffset (entry * 2 ^ (32 - d)) d = entry := by
  have hlt : entry * 2 ^ (32 - d) < 2 ^ 32 := by
    calc entry * 2 ^ (32 - d) < 2 ^ d * 2 ^ (32 - d) :=
          Nat.mul_lt_mul_of_pos_right hentry (Nat.two_pow_pos _)
      _ = 2 ^ 32 := by rw [← Nat.pow_add, show d + (32 - d) = 32 by omega]
  constructor
  · exact hlt
  · rw [findOffset_eq hlt hd, Nat.mul_div_cancel _ (Nat.two_pow_pos _)]

end

section

variable {K V : Type} {s : Ehash K V}

theorem findBucketVpid_eq {p : Nat} (hp : p < 2 ^ 32) (hdepth : s.depth <= 30) :
    s.findBucketVpid p = s.bucketVpid (p / 2 ^ (32 - s.depth)) := by
  rw [findBucketVpid, findOffset_eq hp (by omega)]

theorem findBucketVpid_congr {p q : Nat} (hp : p < 2 ^ 32) (hq : q < 2 ^ 32)
    (hdepth : s.depth <= 30) (h : Agree 32 s.depth p q) :
    s.findBucketVpid p = s.findBucketVpid q := by
  rw [findBucketVpid_eq hp hdepth, findBucketVpid_eq hq hdepth, h]

theorem findBucketVpid_connectBucket {d h p : Nat} {vpid : Option Nat} (hp : p < 2 ^ 32)
    (hh : h < 2 ^ 32) (hd : d <= s.depth) (hdepth : s.depth <= 30) :
    (s.connectBucket d h vpid).findBucketVpid p =
      if Agree 32 d p h then vpid else s.findBucketVpid p := by
  have hdiff : ¬ 32 <= s.depth - d := by omega
  have hlead (x : Nat) (hx : x < 2 ^ 32) :
      findOffset x s.depth / 2 ^ (s.depth - d) = x / 2 ^ (32 - d) := by
    rw [findOffset_eq hx (by omega), ← leading_of_le hd (by omega)]
  unfold connectBucket findBucketVpid
  simp only [if_neg hdiff, hlead p hp, hlead h hh]
  exact if_congr (Iff.refl _) rfl rfl

theorem depth_connectBucket (d h : Nat) (vpid : Option Nat) :
    (s.connectBucket d h vpid).depth = s.depth := by
  simp only [connectBucket]
  split_ifs <;> rfl

theorem exists_connectBucket_eq (s : Ehash K V) (d h : Nat) (vpid : Option Nat) :
    exists entries, s.connectBucket d h vpid = { s with bucketVpid := entries } := by
  simp only [connectBucket]
  split_ifs
  · exact ⟨s.bucketVpid, rfl⟩
  · exact ⟨_, rfl⟩

theorem findBucketVpid_expandDirectory {newDepth p : Nat} (hp : p < 2 ^ 32)
    (hle : s.depth <= newDepth) (hnew : newDepth <= 30) :
    (s.expandDirectory newDepth).findBucketVpid p = s.findBucketVpid p := by
  have hshift : (newDepth - s.depth) % 32 = newDepth - s.depth := Nat.mod_eq_of_lt (by omega)
  have hne : ¬ newDepth - s.depth = 31 := by omega
  unfold expandDirectory findBucketVpid
  simp only [hshift, if_neg hne]
  rw [findOffset_eq hp (by omega), findOffset_eq hp (by omega),
    leading_of_le hle (by omega : newDepth <= 32)]

theorem findBucketVpid_shrinkDirectory {newDepth p : Nat} (hp : p < 2 ^ 32)
    (hle : newDepth <= s.depth) (hdepth : s.depth <= 30) :
    (s.shrinkDirectory newDepth).findBucketVpid p =
      s.findBucketVpid (p / 2 ^ (32 - newDepth) * 2 ^ (32 - newDepth)) := by
  have hsplit : 2 ^ (32 - newDepth) = 2 ^ (s.depth - newDepth) * 2 ^ (32 - s.depth) := by
    rw [← Nat.pow_add, show s.depth - newDepth + (32 - s.depth) = 32 - newDepth by omega]
  have hlt : p / 2 ^ (32 - newDepth) * 2 ^ (32 - newDepth) < 2 ^ 32 :=
    Nat.lt_of_le_of_lt (Nat.div_mul_le_self _ _) hp
  unfold shrinkDirectory
  rw [if_neg (Nat.not_lt.mpr hle), findBucketVpid_eq hlt hdepth]
  unfold findBucketVpid
  simp only
  rw [findOffset_eq hp (by omega)]
  nth_rewrite 3 [hsplit]
  rw [← Nat.mul_assoc, Nat.mul_div_cancel _ (Nat.two_pow_pos _)]

theorem agree_round {d p : Nat} : Agree 32 d p (p / 2 ^ (32 - d) * 2 ^ (32 - d)) := by
  unfold Agree
  rw [Nat.mul_div_cancel _ (Nat.two_pow_pos _)]

end

/-!
## The depth of a block
-/

section

variable {K V : Type} {s : Ehash K V} {vpids : List Nat}

theorem findDepthFrom_spec {location fuel checkDepth : Nat} (hcheck : 2 <= checkDepth)
    (hle : checkDepth <= s.depth + 1) (hfuel : s.depth + 2 <= fuel + checkDepth) {found : Nat}
    (hfound : s.findDepthFrom location vpids fuel checkDepth = found) :
    checkDepth <= found + 1 ∧ found <= s.depth ∧
      (forall c, checkDepth <= c -> c <= found -> s.sampled location vpids c = true) ∧
      (found < s.depth -> s.sampled location vpids (found + 1) = false) := by
  induction fuel generalizing checkDepth with
  | zero => omega
  | succ fuel ih =>
    rw [findDepthFrom] at hfound
    split_ifs at hfound with hnext
    · obtain ⟨h1, h2, h3, h4⟩ := ih (by omega : 2 <= checkDepth + 1) (by omega) (by omega) hfound
      refine ⟨by omega, h2, ?_, h4⟩
      intro c hc hle
      cases Nat.eq_or_lt_of_le hc with
      | inl heq =>
        rw [← heq]
        exact hnext.2
      | inr hlt => exact h3 c hlt hle
    · refine ⟨by omega, by omega, ?_, ?_⟩
      · intro c hc hle
        omega
      intro hlt
      rw [show found + 1 = checkDepth by omega]
      cases hsampled : s.sampled location vpids checkDepth with
      | false => rfl
      | true => exact absurd ⟨by omega, hsampled⟩ hnext

/-- A bucket that would stop the search stands at an even entry too. -/
def Ehash.EvenStops (s : Ehash K V) (vpids : List Nat) : Prop :=
  forall j, 2 * j + 1 < 2 ^ s.depth -> passes vpids (s.bucketVpid (2 * j)) = true ->
    passes vpids (s.bucketVpid (2 * j + 1)) = true

/-- The neighbouring block at a check depth holds the pseudo keys that part from the given one at
the bit of that depth. -/
theorem flippedBase_eq {p x size : Nat} (hsize : size < s.depth) (hdepth : s.depth <= 30)
    (h : Agree 32 (s.depth - size - 1) p x) (h' : ¬ Agree 32 (s.depth - size) p x) :
    x / 2 ^ (32 - (s.depth - size)) * 2 ^ size = flippedBase (p / 2 ^ (32 - s.depth)) size := by
  have hlead : p / 2 ^ (32 - s.depth) / 2 ^ size = p / 2 ^ (32 - (s.depth - size)) := by
    rw [leading_of_le (by omega : s.depth - size <= s.depth) (by omega),
      show s.depth - (s.depth - size) = size by omega]
  obtain ⟨d, hd⟩ : exists d, s.depth - size = d + 1 := ⟨s.depth - size - 1, by omega⟩
  unfold Agree at h h'
  unfold flippedBase
  rw [hlead]
  rw [hd] at h h' ⊢
  rw [Nat.add_sub_cancel, leading_succ (by omega) p, leading_succ (by omega) x] at h
  generalize x / 2 ^ (32 - (d + 1)) = a at h h' ⊢
  generalize p / 2 ^ (32 - (d + 1)) = b at h h' ⊢
  split_ifs with hodd
  · rw [show a = b - 1 by omega]
  · rw [show a = b + 1 by omega]

theorem passes_of_sampled_entry {location c r : Nat} (heven : s.EvenStops vpids) (hc : 2 <= c)
    (hsampled : s.sampled location vpids c = true) (hr : r < 2 ^ (c - 1))
    (hlt : flippedBase location (c - 1) + r < 2 ^ s.depth) :
    passes vpids (s.bucketVpid (flippedBase location (c - 1) + r)) = true := by
  obtain ⟨size, hsize⟩ : exists size, c = size + 2 := ⟨c - 2, by omega⟩
  subst hsize
  have hpow : 2 ^ (size + 2 - 1) = 2 * 2 ^ size := by
    rw [show size + 2 - 1 = size + 1 by omega, Nat.pow_succ, Nat.mul_comm]
  obtain ⟨half, hhalf⟩ : exists half, flippedBase location (size + 2 - 1) = 2 * half := by
    unfold flippedBase
    split_ifs
    all_goals
      rw [hpow, Nat.mul_left_comm]
      exact ⟨_, rfl⟩
  have hsample : forall i, i < 2 ^ size ->
      passes vpids (s.bucketVpid (flippedBase location (size + 2 - 1) + 2 * i)) = true := by
    intro i hi
    exact all_eq_true.mp hsampled i (mem_range.mpr hi)
  rw [hpow] at hr
  rw [hhalf] at hsample hlt ⊢
  have hbefore := hsample (r / 2) (by omega)
  cases Nat.mod_two_eq_zero_or_one r with
  | inl hzero => rwa [show 2 * (r / 2) = r by omega] at hbefore
  | inr hone =>
    have hnext := heven (half + r / 2) (by omega)
      (by rwa [show 2 * (half + r / 2) = 2 * half + 2 * (r / 2) by omega])
    rwa [show 2 * (half + r / 2) + 1 = 2 * half + r by omega] at hnext

theorem passes_of_sampled {p x c : Nat} (heven : s.EvenStops vpids) (hx : x < 2 ^ 32)
    (hdepth : s.depth <= 30) (hc : 2 <= c) (hcd : c <= s.depth)
    (hsampled : s.sampled (p / 2 ^ (32 - s.depth)) vpids c = true)
    (h : Agree 32 (s.depth - c) p x) (h' : ¬ Agree 32 (s.depth - c + 1) p x) :
    passes vpids (s.findBucketVpid x) = true := by
  have hd : s.depth - (c - 1) = s.depth - c + 1 := by omega
  have hbase : x / 2 ^ (32 - (s.depth - (c - 1))) * 2 ^ (c - 1) =
      flippedBase (p / 2 ^ (32 - s.depth)) (c - 1) := by
    apply flippedBase_eq (by omega) hdepth
    · rwa [hd, Nat.add_sub_cancel]
    · rwa [hd]
  have hlead : x / 2 ^ (32 - s.depth) / 2 ^ (c - 1) = x / 2 ^ (32 - (s.depth - (c - 1))) := by
    rw [leading_of_le (by omega : s.depth - (c - 1) <= s.depth) (by omega),
      show s.depth - (s.depth - (c - 1)) = c - 1 by omega]
  have hentry : flippedBase (p / 2 ^ (32 - s.depth)) (c - 1) +
      x / 2 ^ (32 - s.depth) % 2 ^ (c - 1) = x / 2 ^ (32 - s.depth) := by
    rw [← hbase, ← hlead]
    exact Nat.div_add_mod' _ _
  have hlt : x / 2 ^ (32 - s.depth) < 2 ^ s.depth := by
    rw [Nat.div_lt_iff_lt_mul (Nat.two_pow_pos _), ← Nat.pow_add]
    rwa [show s.depth + (32 - s.depth) = 32 by omega]
  rw [findBucketVpid_eq hx hdepth, ← hentry]
  apply passes_of_sampled_entry heven hc hsampled (Nat.mod_lt _ (Nat.two_pow_pos _))
  rwa [hentry]

theorem exists_of_not_sampled {p c : Nat} (hp : p < 2 ^ 32) (hdepth : s.depth <= 30) (hc : 2 <= c)
    (hcd : c <= s.depth) (hsampled : s.sampled (p / 2 ^ (32 - s.depth)) vpids c = false) :
    exists x, x < 2 ^ 32 ∧ Agree 32 (s.depth - c) p x ∧ ¬ Agree 32 (s.depth - c + 1) p x ∧
      passes vpids (s.findBucketVpid x) = false := by
  obtain ⟨i, hi, hpass⟩ := all_eq_false.mp hsampled
  have hi : i < 2 ^ (c - 2) := mem_range.mp hi
  have hpow : 2 ^ (c - 1) = 2 * 2 ^ (c - 2) := by
    rw [show c - 1 = c - 2 + 1 by omega, Nat.pow_succ, Nat.mul_comm]
  have hi' : 2 * i < 2 ^ (c - 1) := by omega
  have hlead : p / 2 ^ (32 - s.depth) / 2 ^ (c - 1) = p / 2 ^ (32 - (s.depth - (c - 1))) := by
    rw [leading_of_le (by omega : s.depth - (c - 1) <= s.depth) (by omega),
      show s.depth - (s.depth - (c - 1)) = c - 1 by omega]
  have hd : s.depth - (c - 1) = s.depth - c + 1 := by omega
  have hplt : p / 2 ^ (32 - (s.depth - c + 1)) < 2 ^ (s.depth - c + 1) := by
    rw [Nat.div_lt_iff_lt_mul (Nat.two_pow_pos _), ← Nat.pow_add]
    rwa [show s.depth - c + 1 + (32 - (s.depth - c + 1)) = 32 by omega]
  obtain ⟨flipped, hflipped, hflip, hne, hflt⟩ : exists flipped,
      flippedBase (p / 2 ^ (32 - s.depth)) (c - 1) = flipped * 2 ^ (c - 1) ∧
      flipped / 2 = p / 2 ^ (32 - (s.depth - c + 1)) / 2 ∧
      flipped ≠ p / 2 ^ (32 - (s.depth - c + 1)) ∧ flipped < 2 ^ (s.depth - c + 1) := by
    have heven : 2 ^ (s.depth - c + 1) = 2 * 2 ^ (s.depth - c) := by
      rw [Nat.pow_succ, Nat.mul_comm]
    unfold flippedBase
    rw [hlead, hd]
    rw [heven] at hplt ⊢
    generalize p / 2 ^ (32 - (s.depth - c + 1)) = b at hplt ⊢
    split_ifs with hodd
    · exact ⟨b - 1, rfl, by omega, by omega, by omega⟩
    · exact ⟨b + 1, rfl, by omega, by omega, by omega⟩
  have hentry : flipped * 2 ^ (c - 1) + 2 * i < 2 ^ s.depth := by
    calc flipped * 2 ^ (c - 1) + 2 * i < (flipped + 1) * 2 ^ (c - 1) := by
          rw [Nat.add_mul, Nat.one_mul]
          omega
      _ <= 2 ^ (s.depth - c + 1) * 2 ^ (c - 1) := Nat.mul_le_mul_right _ hflt
      _ = 2 ^ s.depth := by
          rw [← Nat.pow_add, show s.depth - c + 1 + (c - 1) = s.depth by omega]
  obtain ⟨hx, hoffset⟩ := findOffset_mul (by omega : s.depth <= 31) hentry
  have hxlead : (flipped * 2 ^ (c - 1) + 2 * i) * 2 ^ (32 - s.depth) /
      2 ^ (32 - (s.depth - c + 1)) = flipped := by
    rw [leading_of_le (by omega : s.depth - c + 1 <= s.depth) (by omega),
      Nat.mul_div_cancel _ (Nat.two_pow_pos _), show s.depth - (s.depth - c + 1) = c - 1 by omega,
      Nat.mul_comm flipped, Nat.mul_add_div (Nat.two_pow_pos _), Nat.div_eq_of_lt hi',
      Nat.add_zero]
  refine ⟨_, hx, ?_, ?_, ?_⟩
  · unfold Agree
    rw [leading_succ (by omega : s.depth - c < 32) p, leading_succ (by omega : s.depth - c < 32),
      hxlead, hflip]
  · unfold Agree
    rw [hxlead]
    exact fun h => hne h.symm
  · rw [findBucketVpid, hoffset, ← hflipped]
    exact Bool.eq_false_iff.mpr hpass

/-- The block of a location is as large as the entries in it allow: every pseudo key in it passes,
and in the neighbouring block one does not. -/
theorem findDepth_block {p m : Nat} (hp : p < 2 ^ 32) (hdepth : s.depth <= 30)
    (hpos : 1 <= s.depth) (heven : s.EvenStops vpids)
    (hm : s.depth - s.findDepth (p / 2 ^ (32 - s.depth)) vpids = m) :
    m + 1 <= s.depth ∧
      (forall x, x < 2 ^ 32 -> Agree 32 m p x ->
        Agree 32 (s.depth - 1) p x ∨ passes vpids (s.findBucketVpid x) = true) ∧
      (1 <= m -> exists x, x < 2 ^ 32 ∧ Agree 32 (m - 1) p x ∧ ¬ Agree 32 m p x ∧
        passes vpids (s.findBucketVpid x) = false) := by
  obtain ⟨found, hfound⟩ : exists found,
      s.findDepthFrom (p / 2 ^ (32 - s.depth)) vpids s.depth 2 = found := ⟨_, rfl⟩
  obtain ⟨hge, hle, hall, hstop⟩ := findDepthFrom_spec (Nat.le_refl 2) (by omega) (by omega) hfound
  rw [findDepth, hfound] at hm
  refine ⟨by omega, ?_, ?_⟩
  · intro x hx hagree
    by_cases hnear : Agree 32 (s.depth - 1) p x
    · exact .inl hnear
    obtain ⟨n, hmn, hnd, hn, hn'⟩ :=
      hagree.exists_parting (show m <= s.depth - 1 by omega) hnear
    have hsampled := hall (s.depth - n) (by omega) (by omega)
    apply Or.inr
    apply passes_of_sampled heven hx hdepth (by omega) (by omega) hsampled
    · rwa [show s.depth - (s.depth - n) = n by omega]
    · rwa [show s.depth - (s.depth - n) = n by omega]
  · intro hpos
    obtain ⟨x, hx, hagree, hne, hpass⟩ :=
      exists_of_not_sampled hp hdepth (by omega : 2 <= found + 1) (by omega) (hstop (by omega))
    refine ⟨x, hx, ?_, ?_, hpass⟩
    · rwa [show m - 1 = s.depth - (found + 1) by omega]
    · rwa [show m = s.depth - (found + 1) + 1 by omega]

end

end Rye.Storage.ExtendibleHash
