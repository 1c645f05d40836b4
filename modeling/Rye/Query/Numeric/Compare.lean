import Rye.Query.Numeric.AddSub
import Rye.Query.Numeric.LongDiv

/-!
# Comparison

Values of one domain are compared as buffers.  Otherwise both are brought to a
common domain, and if the declared precisions leave no room for that, the
integral and the fractional digits are compared one after the other.  On each
route the outcome is the order of the numbers meant, so that pairs which take
different routes still fit together.
-/

namespace Rye.Query

open Foundation List

def dbMakeInt (value : DbValue) (num : Int) : DbValue :=
  { value with domainType := .integer, isNull := false, data := .int num }

/-- An integer without a value; the defaults are stored in unsigned characters. -/
def nullInteger : DbValue :=
  { domainType := .integer, isNull := true, precision := 255, scale := 255, data := .none }

/-- The digits in front of the point, with leading zeros. -/
def numericGetIntegralPart (num : List UInt8) (srcPrec srcScale dstPrec : Nat) : List UInt8 :=
  let resNumDigits := srcPrec - srcScale
  let decStr := numericCoerceNumToDecStr num
  let newDecNum := List.replicate (dstPrec - resNumDigits) '0' ++
    (decStr.drop (decStr.length - srcPrec)).take resNumDigits
  let dest := numericCoerceDecStrToNum newDecNum
  if numericIsNegative num then numericNegate dest else dest

def numericGetFractionalPart (num : List UInt8) (srcScale dstScale : Nat) : List UInt8 :=
  let decStr := numericCoerceNumToDecStr num
  let newDecNum := decStr.drop (decStr.length - srcScale) ++
    List.replicate (dstScale - srcScale) '0'
  let dest := numericCoerceDecStrToNum newDecNum
  if numericIsNegative num then numericNegate dest else dest

def compareParts (dbv1 dbv2 : DbValue) : Int :=
  let precCommon := max (dbv1.precision - dbv1.scale) (dbv2.precision - dbv2.scale)
  let scaleCommon := max dbv1.scale dbv2.scale
  let cmpRez := numericCompare
    (numericGetIntegralPart dbv1.locateNumeric dbv1.precision dbv1.scale precCommon)
    (numericGetIntegralPart dbv2.locateNumeric dbv2.precision dbv2.scale precCommon)
  if cmpRez ≠ 0 then cmpRez
  else
    numericCompare (numericGetFractionalPart dbv1.locateNumeric dbv1.scale scaleCommon)
      (numericGetFractionalPart dbv2.locateNumeric dbv2.scale scaleCommon)

/-- The comparison into the value `answer`. -/
def numericDbValueCompare (dbv1 dbv2 : Option DbValue) (answer : DbValue) :
    ErrorCode × DbValue :=
  match numericArguments nullInteger dbv1 dbv2 with
  | .error result => result
  | .ok (v1, v2) =>
    if v1.precision = v2.precision ∧ v1.scale = v2.scale then
      (.noError, dbMakeInt answer (numericCompare v1.locateNumeric v2.locateNumeric))
    else
      match numericCommonPrecScale v1 v2 with
      | .ok (common1, common2) =>
        (.noError, dbMakeInt answer (numericCompare common1.locateNumeric common2.locateNumeric))
      | .error .numOverflow => (.noError, dbMakeInt answer (compareParts v1 v2))
      | .error _ => (.failed, .null)

/-!
## Integral and fractional digits
-/

namespace Numeric

variable (x : Numeric)

/-- The last `n` digits of the decimal string. -/
theorem last_digits {n : Nat} (hn : n <= twiceNumMaxPrec) :
    let decStr := numericCoerceNumToDecStr x.buf
    let digits := decStr.drop (decStr.length - n)
    AllDigits digits ∧ digits.length = n ∧ strVal digits = x.toInt.natAbs % 10 ^ n := by
  rcases numericCoerceNumToDecStr_prints x.buf_length with ⟨s, hstr, hprints⟩
  have hslen := hprints.length
  have hdrop : (numericCoerceNumToDecStr x.buf).drop
      ((numericCoerceNumToDecStr x.buf).length - n) = s.drop (twiceNumMaxPrec - n) := by
    rw [hstr, length_append, hslen, Nat.add_sub_assoc hn, drop_length_add_append]
  have hlen : (s.drop (twiceNumMaxPrec - n)).length = n := by
    rw [length_drop, hslen]
    omega
  have hdigits : AllDigits (s.drop (twiceNumMaxPrec - n)) :=
    hprints.digits.of_subset (drop_subset _ _)
  have hmod := strVal_append_mod (s.take (twiceNumMaxPrec - n)) hdigits
  rw [take_append_drop, hlen, hprints.value] at hmod
  simp only [hdrop]
  exact ⟨hdigits, hlen, hmod.symm⟩

theorem signed_digits {s : List Char} (h : AllDigits s) (hlen : s.length <= dbMaxNumericPrecision)
    (hzero : x.toInt = 0 -> strVal s = 0) :
    let dest := numericCoerceDecStrToNum s
    let part := if numericIsNegative x.buf then numericNegate dest else dest
    part.length = dbNumericBufSize ∧ beInt part = x.toInt.sign * strVal s := by
  have hlt := h.lt
  have hpow : 10 ^ s.length <= 10 ^ dbMaxNumericPrecision :=
    Nat.pow_le_pow_right (by decide) hlen
  have hsize := pow_precision_lt
  rcases numericCoerceDecStrToNum_value h (by omega) false with ⟨hdest, hval⟩
  refine ⟨(length_signed _ _).trans hdest, ?_⟩
  exact beInt_signed hval (numericIsNegative_eq x.buf_ne_nil) hzero

theorem numericGetIntegralPart_value {dstPrec : Nat} (hle : x.precision - x.scale <= dstPrec)
    (hmax : dstPrec <= dbMaxNumericPrecision) :
    (numericGetIntegralPart x.buf x.precision x.scale dstPrec).length = dbNumericBufSize ∧
      beInt (numericGetIntegralPart x.buf x.precision x.scale dstPrec) =
        x.toInt.tdiv (10 ^ x.scale) := by
  have hscale := x.scale_le
  rcases x.last_digits (n := x.precision) (le_trans x.precision_le (by decide)) with
    ⟨hdigits, hlen, hval⟩
  have hwhole : x.toInt.natAbs % 10 ^ x.precision = x.toInt.natAbs :=
    Nat.mod_eq_of_lt x.bounded
  rw [hwhole] at hval
  let decStr := numericCoerceNumToDecStr x.buf
  let last := decStr.drop (decStr.length - x.precision)
  let kept := last.take (x.precision - x.scale)
  have hrest : (last.drop (x.precision - x.scale)).length = x.scale := by
    rw [length_drop, hlen]
    omega
  have hkept : strVal kept = x.toInt.natAbs / 10 ^ x.scale := by
    have hdiv := strVal_append_div kept
      (hdigits.of_subset (drop_subset (x.precision - x.scale) last))
    rw [take_append_drop, hrest, hval] at hdiv
    exact hdiv.symm
  have hpadded : strVal (List.replicate (dstPrec - (x.precision - x.scale)) '0' ++ kept) =
      x.toInt.natAbs / 10 ^ x.scale := by
    rw [strVal_append, strVal_replicate_zero, Nat.zero_mul, Nat.zero_add, hkept]
  have hpart := x.signed_digits
    (allDigits_append.mpr ⟨allDigits_replicate_zero (dstPrec - (x.precision - x.scale)),
      hdigits.of_subset (take_subset (x.precision - x.scale) last)⟩)
    (by rw [length_append, length_replicate, length_take, hlen]; omega)
    (fun h0 => by rw [hpadded, h0]; exact Nat.zero_div _)
  have hone : ((10 : Int) ^ x.scale).sign = 1 := Int.sign_eq_one_of_pos (by positivity)
  refine ⟨hpart.1, hpart.2.trans ?_⟩
  rw [hpadded, tdiv_eq_signs, hone, Int.mul_one, Int.natAbs_pow]
  rfl

theorem numericGetFractionalPart_value {dstScale : Nat} (hle : x.scale <= dstScale)
    (hmax : dstScale <= dbMaxNumericPrecision) :
    (numericGetFractionalPart x.buf x.scale dstScale).length = dbNumericBufSize ∧
      beInt (numericGetFractionalPart x.buf x.scale dstScale) =
        x.toInt.tmod (10 ^ x.scale) * 10 ^ (dstScale - x.scale) := by
  rcases x.last_digits (n := x.scale) (le_trans x.scale_le_max (by decide)) with
    ⟨hdigits, hlen, hval⟩
  let decStr := numericCoerceNumToDecStr x.buf
  let last := decStr.drop (decStr.length - x.scale)
  have hpadded : strVal (last ++ List.replicate (dstScale - x.scale) '0') =
      x.toInt.natAbs % 10 ^ x.scale * 10 ^ (dstScale - x.scale) := by
    rw [strVal_append, strVal_replicate_zero, Nat.add_zero, length_replicate, hval]
  have hpart := x.signed_digits
    (allDigits_append.mpr ⟨hdigits, allDigits_replicate_zero (dstScale - x.scale)⟩)
    (by rw [length_append, length_replicate, hlen]; omega)
    (fun h0 => by rw [hpadded, h0, Int.natAbs_zero, Nat.zero_mod, Nat.zero_mul])
  refine ⟨hpart.1, hpart.2.trans ?_⟩
  rw [hpadded, tmod_eq_sign, Int.natAbs_pow]
  push_cast
  ring

/-!
## The order of the numbers
-/

theorem rescaled_tdiv {scale : Nat} (hle : x.scale <= scale) :
    (x.rescaled scale).tdiv (10 ^ scale) = x.toInt.tdiv (10 ^ x.scale) := by
  have hsplit : (10 : Int) ^ scale = 10 ^ x.scale * 10 ^ (scale - x.scale) := by
    rw [← pow_add, Nat.add_sub_cancel' hle]
  rw [rescaled, hsplit]
  exact Int.mul_tdiv_mul_of_pos_left _ _ (by positivity)

theorem rescaled_tmod {scale : Nat} (hle : x.scale <= scale) :
    (x.rescaled scale).tmod (10 ^ scale) =
      x.toInt.tmod (10 ^ x.scale) * 10 ^ (scale - x.scale) := by
  have hsplit : (10 : Int) ^ scale = 10 ^ (scale - x.scale) * 10 ^ x.scale := by
    rw [← pow_add, Nat.sub_add_cancel hle]
  rw [rescaled, hsplit, Int.mul_comm, Int.mul_tmod_mul_of_pos _ _ (by positivity), Int.mul_comm]

end Numeric

/-- The sign of `p - q`. -/
def orderSign (p q : ℚ) : Int :=
  if p < q then -1 else if p = q then 0 else 1

theorem orderSign_rescaled {x y : Numeric} {scale : Nat} (hx : x.scale <= scale)
    (hy : y.scale <= scale) :
    orderSign x.toRat y.toRat = (x.rescaled scale - y.rescaled scale).sign := by
  have hpow : (0 : ℚ) < 10 ^ scale := by positivity
  have hltiff : x.toRat < y.toRat <-> x.rescaled scale < y.rescaled scale := by
    rw [x.toRat_eq_rescaled hx, y.toRat_eq_rescaled hy, div_lt_div_iff_of_pos_right hpow,
      Int.cast_lt]
  have heqiff : x.toRat = y.toRat <-> x.rescaled scale = y.rescaled scale := by
    rw [x.toRat_eq_rescaled hx, y.toRat_eq_rescaled hy, div_left_inj' hpow.ne', Int.cast_inj]
  unfold orderSign
  rcases lt_trichotomy (x.rescaled scale) (y.rescaled scale) with hlt | heq | hgt
  · rw [if_pos (hltiff.mpr hlt), Int.sign_eq_neg_one_of_neg (by omega)]
  · rw [if_neg (mt hltiff.mp (by omega)), if_pos (heqiff.mpr heq), heq, Int.sub_self, Int.sign_zero]
  · rw [if_neg (mt hltiff.mp (by omega)), if_neg (mt heqiff.mp (by omega)),
      Int.sign_eq_one_of_pos (by omega)]

theorem sign_sub_of_parts {a b m : Int} (hm : 0 < m) :
    (a - b).sign = if (a.tdiv m - b.tdiv m).sign ≠ 0 then (a.tdiv m - b.tdiv m).sign
      else (a.tmod m - b.tmod m).sign := by
  have ha := Int.mul_tdiv_add_tmod a m
  have hb := Int.mul_tdiv_add_tmod b m
  by_cases heq : a.tdiv m = b.tdiv m
  · rw [heq, Int.sub_self, Int.sign_zero, if_neg (by decide)]
    rw [heq] at ha
    congr 1
    omega
  have hne : (a.tdiv m - b.tdiv m).sign ≠ 0 := by
    intro hzero
    have hdiff := Int.sign_eq_zero_iff_zero.mp hzero
    omega
  rw [if_pos hne]
  rcases lt_or_gt_of_ne heq with hlt | hgt
  · have hab : a < b := by
      by_contra hge
      have hmono := Int.tdiv_le_tdiv hm (not_lt.mp hge)
      omega
    rw [Int.sign_eq_neg_one_of_neg (by omega), Int.sign_eq_neg_one_of_neg (by omega)]
  · have hab : b < a := by
      by_contra hge
      have hmono := Int.tdiv_le_tdiv hm (not_lt.mp hge)
      omega
    rw [Int.sign_eq_one_of_pos (by omega), Int.sign_eq_one_of_pos (by omega)]

theorem numericCompare_value {a b : List UInt8} (ha : a.length = dbNumericBufSize)
    (hb : b.length = dbNumericBufSize) : numericCompare a b = (beInt a - beInt b).sign :=
  numericCompare_eq (buf_ne_nil ha) (ha.trans hb.symm)

theorem compareParts_eq (x y : Numeric) :
    compareParts x.toDbValue y.toDbValue = orderSign x.toRat y.toRat := by
  let prec := max (x.precision - x.scale) (y.precision - y.scale)
  let scale := max x.scale y.scale
  have hrun : compareParts x.toDbValue y.toDbValue =
      if numericCompare (numericGetIntegralPart x.buf x.precision x.scale prec)
          (numericGetIntegralPart y.buf y.precision y.scale prec) ≠ 0 then
        numericCompare (numericGetIntegralPart x.buf x.precision x.scale prec)
          (numericGetIntegralPart y.buf y.precision y.scale prec)
      else
        numericCompare (numericGetFractionalPart x.buf x.scale scale)
          (numericGetFractionalPart y.buf y.scale scale) :=
    rfl
  have hxp := x.precision_le
  have hyp := y.precision_le
  have hxs : x.scale <= scale := Nat.le_max_left _ _
  have hys : y.scale <= scale := Nat.le_max_right _ _
  have hprec : prec <= dbMaxNumericPrecision := by omega
  have hscale : scale <= dbMaxNumericPrecision := max_le x.scale_le_max y.scale_le_max
  rcases x.numericGetIntegralPart_value (Nat.le_max_left _ _) hprec with ⟨hlen1, hint1⟩
  rcases y.numericGetIntegralPart_value (Nat.le_max_right _ _) hprec with ⟨hlen2, hint2⟩
  rcases x.numericGetFractionalPart_value hxs hscale with ⟨hlen3, hfrac1⟩
  rcases y.numericGetFractionalPart_value hys hscale with ⟨hlen4, hfrac2⟩
  rw [hrun, numericCompare_value hlen1 hlen2, numericCompare_value hlen3 hlen4, hint1, hint2,
    hfrac1, hfrac2, orderSign_rescaled hxs hys, ← x.rescaled_tdiv hxs, ← y.rescaled_tdiv hys,
    ← x.rescaled_tmod hxs, ← y.rescaled_tmod hys]
  exact (sign_sub_of_parts (by positivity)).symm

/-!
## The comparison
-/

/-- The comparison of `x` with `y` answers `r`. -/
def ComparesAs (x y : Numeric) (r : Int) : Prop :=
  forall answer, numericDbValueCompare (some x.toDbValue) (some y.toDbValue) answer =
    (.noError, dbMakeInt answer r)

theorem comparesAs_orderSign (x y : Numeric) : ComparesAs x y (orderSign x.toRat y.toRat) := by
  intro answer
  have hrun : numericDbValueCompare (some x.toDbValue) (some y.toDbValue) answer =
      if x.precision = y.precision ∧ x.scale = y.scale then
        (.noError, dbMakeInt answer (numericCompare x.buf y.buf))
      else
        match numericCommonPrecScale x.toDbValue y.toDbValue with
        | .ok (common1, common2) =>
          (.noError, dbMakeInt answer (numericCompare common1.locateNumeric common2.locateNumeric))
        | .error .numOverflow => (.noError, dbMakeInt answer (compareParts x.toDbValue y.toDbValue))
        | .error _ => (.failed, .null) :=
    rfl
  rw [hrun]
  by_cases hsame : x.precision = y.precision ∧ x.scale = y.scale
  · have horder := orderSign_rescaled (le_refl x.scale) hsame.2.ge
    rw [if_pos hsame, numericCompare_value x.buf_length y.buf_length, horder, x.rescaled_self,
      hsame.2, y.rescaled_self]
    rfl
  rw [if_neg hsame]
  rcases numericCommonPrecScale_spec x y with ⟨x', y', hok, hal⟩ | hover
  · rw [hok, orderSign_rescaled (Nat.le_max_left _ _) (Nat.le_max_right x.scale y.scale),
      ← hal.toInt_left, ← hal.toInt_right]
    exact congrArg (fun r => (ErrorCode.noError, dbMakeInt answer r))
      (numericCompare_value x'.buf_length y'.buf_length)
  · rw [hover]
    exact congrArg (fun r => (ErrorCode.noError, dbMakeInt answer r)) (compareParts_eq x y)

theorem ComparesAs.unique {x y : Numeric} {r : Int} (h : ComparesAs x y r) :
    r = orderSign x.toRat y.toRat := by
  have heq := (h .null).symm.trans (comparesAs_orderSign x y .null)
  exact DbData.int.inj (congrArg (fun result => result.2.data) heq)

theorem orderSign_swap (p q : ℚ) : orderSign q p = -orderSign p q := by
  unfold orderSign
  rcases lt_trichotomy p q with hlt | heq | hgt
  · rw [if_neg (not_lt.mpr hlt.le), if_neg hlt.ne', if_pos hlt]
    rfl
  · simp [heq]
  · rw [if_pos hgt, if_neg (not_lt.mpr hgt.le), if_neg hgt.ne']

theorem orderSign_nonpos_iff (p q : ℚ) : orderSign p q <= 0 <-> p <= q := by
  unfold orderSign
  rcases lt_trichotomy p q with hlt | heq | hgt
  · simp [hlt, hlt.le]
  · simp [heq]
  · simp [hgt, hgt.ne', not_lt.mpr hgt.le]

/-- The comparison does not put `x` behind `y`. -/
def CompareLe (x y : Numeric) : Prop :=
  exists r, r <= 0 ∧ ComparesAs x y r

theorem compareLe_iff (x y : Numeric) : CompareLe x y <-> x.toRat <= y.toRat := by
  rw [← orderSign_nonpos_iff]
  constructor
  · rintro ⟨r, hle, hr⟩
    rwa [← hr.unique]
  · intro hle
    exact ⟨_, hle, comparesAs_orderSign x y⟩

/-- The comparison is the order of the numbers: its answer is the sign of the difference,
and it is antisymmetric, total and transitive over all precisions and scales. -/
theorem numericDbValueCompare_order :
    (forall x y, ComparesAs x y (orderSign x.toRat y.toRat)) ∧
      (forall x y r, ComparesAs x y r <-> ComparesAs y x (-r)) ∧
      (forall x y, CompareLe x y ∧ CompareLe y x <-> x.toRat = y.toRat) ∧
      (forall x y, CompareLe x y ∨ CompareLe y x) ∧
      IsTrans Numeric CompareLe := by
  refine ⟨comparesAs_orderSign, ?_, ?_, ?_, ?_⟩
  · intro x y r
    constructor
    · intro h
      rw [h.unique, ← orderSign_swap]
      exact comparesAs_orderSign y x
    intro h
    have hr : r = orderSign x.toRat y.toRat := by
      rw [orderSign_swap y.toRat, ← h.unique, Int.neg_neg]
    rw [hr]
    exact comparesAs_orderSign x y
  · intro x y
    rw [compareLe_iff, compareLe_iff, le_antisymm_iff]
  · intro x y
    rw [compareLe_iff, compareLe_iff]
    exact le_total _ _
  · constructor
    intro x y z hxy hyz
    rw [compareLe_iff] at hxy hyz ⊢
    exact le_trans hxy hyz

end Rye.Query
