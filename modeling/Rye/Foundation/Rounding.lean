import Mathlib.Algebra.Order.Floor.Semifield
import Mathlib.Tactic.FieldSimp
import Mathlib.Tactic.Ring

/-!
# Rounding

Rounding to an integer that treats both signs alike: a rule for magnitudes,
with the sign put back.  Truncation and rounding half away from zero are of this
kind.  On a quotient of integers both come down to division with remainder.
-/

namespace Rye.Foundation

variable {K : Type} [Field K] [LinearOrder K] [IsStrictOrderedRing K] [FloorSemiring K]

def byMagnitude (f : K -> Nat) (q : K) : Int :=
  if q < 0 then -(f (-q)) else f q

noncomputable def truncate (q : K) : Int :=
  byMagnitude (fun m => Nat.floor m) q

/-- Rounding to the nearest integer, halves away from zero. -/
noncomputable def roundHalfAway (q : K) : Int :=
  byMagnitude (fun m => Nat.floor (m + 1 / 2)) q

omit [FloorSemiring K] in
theorem byMagnitude_neg {f : K -> Nat} (hf : f 0 = 0) (q : K) :
    byMagnitude f (-q) = -byMagnitude f q := by
  unfold byMagnitude
  rcases lt_trichotomy q 0 with h | h | h
  · rw [if_pos h, if_neg (by simpa using h.le)]
    simp
  · rw [h]
    simp [hf]
  · rw [if_pos (by simpa using h), if_neg (not_lt.mpr h.le), neg_neg]

omit [FloorSemiring K] in
theorem byMagnitude_div {f : K -> Nat} (hf : f 0 = 0) (n : Int) {d : Nat} (hd : 0 < d) :
    byMagnitude f ((n : K) / d) = n.sign * f ((n.natAbs : K) / d) := by
  have hdK : (0 : K) < d := by exact_mod_cast hd
  unfold byMagnitude
  rcases lt_trichotomy n 0 with h | h | h
  · have hnK : (n : K) < 0 := by exact_mod_cast h
    have habs : ((n.natAbs : Nat) : K) = -(n : K) := by
      rw [Nat.cast_natAbs, abs_of_neg h, Int.cast_neg]
    rw [if_pos (div_neg_of_neg_of_pos hnK hdK), Int.sign_eq_neg_one_of_neg h, habs, neg_div]
    simp
  · rw [h]
    simp [hf]
  · have hnK : (0 : K) < n := by exact_mod_cast h
    have habs : ((n.natAbs : Nat) : K) = (n : K) := by
      rw [Nat.cast_natAbs, abs_of_pos h]
    rw [if_neg (not_lt.mpr (div_pos hnK hdK).le), Int.sign_eq_one_of_pos h, habs]
    simp

theorem truncate_div (n : Int) {d : Nat} (hd : 0 < d) :
    truncate ((n : K) / d) = n.sign * (n.natAbs / d : Nat) := by
  rw [truncate, byMagnitude_div (by simp) n hd, Nat.floor_div_eq_div]

theorem floor_half : Nat.floor ((0 : K) + 1 / 2) = 0 := by
  rw [Nat.floor_eq_zero]
  norm_num

theorem roundHalfAway_neg (q : K) : roundHalfAway (-q) = -roundHalfAway q :=
  byMagnitude_neg floor_half q

theorem roundHalfAway_div (n : Int) {d : Nat} (hd : 0 < d) :
    roundHalfAway ((n : K) / d) =
      n.sign * (n.natAbs / d + (if d <= 2 * (n.natAbs % d) then 1 else 0) : Nat) := by
  have hsum : ((n.natAbs : K) / d + 1 / 2) = ((2 * n.natAbs + d : Nat) : K) / (2 * d : Nat) := by
    push_cast
    field_simp
  have hdiv : (2 * n.natAbs + d) / (2 * d) =
      n.natAbs / d + if d <= 2 * (n.natAbs % d) then 1 else 0 := by
    have hsplit := Nat.div_add_mod n.natAbs d
    have hlt := Nat.mod_lt n.natAbs hd
    have hup : (n.natAbs / d + 1) * (2 * d) = 2 * (d * (n.natAbs / d)) + 2 * d := by ring
    have hdown : (n.natAbs / d + 0) * (2 * d) = 2 * (d * (n.natAbs / d)) := by ring
    rw [Nat.div_eq_iff (by omega)]
    split
    · rw [hup]
      omega
    · rw [hdown]
      omega
  rw [roundHalfAway, byMagnitude_div floor_half n hd, hsum, Nat.floor_div_eq_div, hdiv]

end Rye.Foundation
