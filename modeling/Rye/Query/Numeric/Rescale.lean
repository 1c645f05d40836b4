import Mathlib.Data.Rat.Floor
import Rye.Foundation.Rounding
import Rye.Query.Numeric.AddSub

/-!
# Rounding to a scale

A value is brought to a smaller scale by cutting the digits of its magnitude, and
the first digit cut decides whether the rest is increased.
-/

namespace Rye.Query

open Foundation

theorem Numeric.roundHalfAway_toRat (x : Numeric) (scale : Nat) :
    roundHalfAway (x.toRat * 10 ^ scale) = x.toInt.sign * x.magnitudeAt scale := by
  have hten : (10 : ℚ) ≠ 0 := by norm_num
  have hquot : x.toRat * 10 ^ scale = (x.rescaled scale : ℚ) / (10 ^ (x.scale - scale) : Nat) := by
    rw [Numeric.toRat, Numeric.rescaled, Int.cast_mul, Int.cast_pow, Int.cast_ofNat,
      Nat.cast_pow, Nat.cast_ofNat, div_mul_eq_mul_div, div_eq_div_iff (pow_ne_zero _ hten)
        (pow_ne_zero _ hten), mul_assoc, mul_assoc, ← pow_add, ← pow_add]
    congr 2
    omega
  rw [hquot, roundHalfAway_div _ (by positivity), x.natAbs_rescaled, x.sign_rescaled]
  rfl

theorem Numeric.natAbs_sign_mul_magnitudeAt (x : Numeric) (scale : Nat) :
    (x.toInt.sign * (x.magnitudeAt scale : Int)).natAbs = x.magnitudeAt scale := by
  by_cases hzero : x.toInt = 0
  · rw [x.magnitudeAt_eq_zero hzero, Nat.cast_zero, mul_zero]
    rfl
  · rw [Int.natAbs_mul, Int.natAbs_sign_of_ne_zero hzero, Int.natAbs_natCast, Nat.one_mul]

/-- The rescaled value is the nearest one, as long as that has few enough digits. -/
theorem numericCoerceNumToNum_rounds (x : Numeric) (destPrec destScale : Nat)
    (hprec : destPrec <= dbMaxNumericPrecision) :
    let result := numericCoerceNumToNum x.buf x.precision x.scale destPrec destScale
    let rounded := roundHalfAway (x.toRat * 10 ^ destScale)
    ((exists r, result = .ok r) <-> rounded.natAbs < 10 ^ destPrec) ∧
      forall r, result = .ok r -> r.length = dbNumericBufSize ∧ beInt r = rounded := by
  have habs := x.natAbs_sign_mul_magnitudeAt destScale
  intro result rounded
  have hrounded : rounded = x.toInt.sign * x.magnitudeAt destScale :=
    x.roundHalfAway_toRat destScale
  rw [hrounded, habs]
  rcases numericCoerceNumToNum_spec x destScale hprec with
    ⟨hfits, r, hr, hlen, hval⟩ | ⟨hbig, herr⟩
  · have hok : result = .ok r := hr
    rw [hok]
    refine ⟨⟨fun _ => hfits, fun _ => ⟨r, rfl⟩⟩, ?_⟩
    rintro _ ⟨⟩
    exact ⟨hlen, hval⟩
  · have hfail : result = .error .numOverflow := herr
    rw [hfail]
    refine ⟨⟨?_, fun h => absurd h (not_lt.mpr hbig)⟩, ?_⟩
    · rintro ⟨_, ⟨⟩⟩
    · rintro _ ⟨⟩

/-- Two and a half at scale zero. -/
theorem numericCoerceNumToNum_rounds_half :
    let x := Numeric.ofInt 25 2 1 (by decide) (by decide) (by decide) (by decide)
    1 <= dbMaxNumericPrecision ∧
      ((exists r, numericCoerceNumToNum x.buf x.precision x.scale 1 0 = .ok r) <->
        (roundHalfAway (x.toRat * 10 ^ 0)).natAbs < 10 ^ 1) :=
  ⟨by decide, (numericCoerceNumToNum_rounds _ 1 0 (by decide)).1⟩

end Rye.Query
