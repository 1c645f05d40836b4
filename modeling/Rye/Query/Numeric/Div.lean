import Rye.Query.Numeric.AddSub
import Rye.Query.Numeric.LongDiv
import Rye.Query.Numeric.Mul

/-!
# Division

The dividend is scaled up in a buffer of twice the size, so that the integer
quotient has the scale of the answer, and divided with remainder.  The quotient
is then moved away from zero by one if twice the remainder reaches the divisor.

Three things can go wrong on the way without being noticed.  The scaled dividend
may wrap around without ever showing a sign bit.  Twice a remainder of `2 ^ 126`
or more is negative in a buffer, and is then not seen to reach the divisor.  And a
quotient of zero has lost its sign when it is moved.
-/

namespace Rye.Query

open Foundation List Numeric

def dbDefaultNumericDivisionScale : Nat := 9

def numericShortnumToLongnum (arg : List UInt8) : List UInt8 :=
  List.replicate dbNumericBufSize (if numericIsNegative arg then 0xff else 0) ++ arg

def numericIsLongnumValue (arg : List UInt8) : Bool :=
  let totalNums := (dbLongNumericMultiplier - 1) * dbNumericBufSize
  if numericIsNegative arg then
    (arg.take totalNums).any (fun b => b != 0xff) || !((arg.getD totalNums 0 &&& 0x80) != 0)
  else
    (arg.take totalNums).any (fun b => b != 0) || ((arg.getD totalNums 0 &&& 0x80) != 0)

def numericLongnumToShortnum (longArg : List UInt8) : Except ErrorCode (List UInt8) :=
  if numericIsLongnumValue longArg then .error .numOverflow
  else .ok (longArg.drop ((dbLongNumericMultiplier - 1) * dbNumericBufSize))

/-- The scaled dividend with the precision and the scale of the answer. -/
def scaleDividend (dbv1 dbv2 : DbValue) : Except ErrorCode (List UInt8 × Nat × Nat) :=
  let longDbv1Copy := numericShortnumToLongnum dbv1.locateNumeric
  let maxScale := max dbv1.scale dbv2.scale
  let scaleup := if dbv2.scale > 0 then maxScale + dbv2.scale - dbv1.scale else 0
  match numericScaleDecLong longDbv1Copy scaleup with
  | (.noError, longDbv1Copy) =>
    let prec := min (dbv1.precision + scaleup) dbMaxNumericPrecision
    let scale := maxScale
    if scale < dbDefaultNumericDivisionScale then
      let scaleDelta := dbDefaultNumericDivisionScale - scale
      let newPrec := prec + scaleDelta
      let newScale := scale + scaleDelta - (newPrec - dbMaxNumericPrecision)
      match numericScaleDecLong longDbv1Copy (newScale - scale) with
      | (.noError, longDbv1Copy) => .ok (longDbv1Copy, min newPrec dbMaxNumericPrecision, newScale)
      | (ret, _) => .error ret
    else .ok (longDbv1Copy, prec, scale)
  | (ret, _) => .error ret

def divideLong (longDbv1 divisor : List UInt8) :
    Option (Except ErrorCode (List UInt8 × List UInt8)) :=
  if numericIsLongnumValue longDbv1 then
    let result := numericLongDiv longDbv1 divisor
    match numericLongnumToShortnum result.1 with
    | .ok tempQuo => some (.ok (tempQuo, result.2))
    | .error ret => some (.error ret)
  else
    (numericDiv (longDbv1.drop dbNumericBufSize) divisor).map .ok

/-- The quotient moved away from zero if twice the remainder reaches the divisor. -/
def roundQuotient (tempQuo tempRem divisor : List UInt8) : List UInt8 :=
  let tempRem := numericDbValueAbs tempRem
  let divisorP := numericDbValueAbs divisor
  if numericCompare (numericAdd tempRem tempRem) divisorP >= 0 then
    if numericIsNegative tempQuo then numericDecrease tempQuo else numericIncrease tempQuo
  else tempQuo

/-- The part of the routine after the dividend is scaled; `none` when the machine traps
or there is no quotient. -/
def divideAndRound (longDbv1 divisor : List UInt8) (prec scale : Nat) :
    Option (ErrorCode × DbValue) :=
  match divideLong longDbv1 divisor with
  | none => none
  | some (.error ret) => some (exitOnError ret)
  | some (.ok (tempQuo, tempRem)) =>
    some (makeAnswer (roundQuotient tempQuo tempRem divisor) prec scale)

def numericDbValueDiv (dbv1 dbv2 : Option DbValue) : Option (ErrorCode × DbValue) :=
  match numericArguments nullNumeric dbv1 dbv2 with
  | .error result => some result
  | .ok (v1, v2) =>
    match scaleDividend v1 v2 with
    | .error ret => some (exitOnError ret)
    | .ok (longDbv1, prec, scale) => divideAndRound longDbv1 v2.locateNumeric prec scale

/-!
## Short and long
-/

variable {arg divisor : List UInt8}

theorem numericShortnumToLongnum_value (hlen : arg.length = dbNumericBufSize) :
    (numericShortnumToLongnum arg).length = 2 * dbNumericBufSize ∧
      beInt (numericShortnumToLongnum arg) = beInt arg := by
  refine ⟨by simp [numericShortnumToLongnum, hlen]; rfl, ?_⟩
  rw [numericShortnumToLongnum, beInt_append_eq_iff]
  intro b hb
  rw [eq_of_mem_replicate hb, numericIsNegative_eq (buf_ne_nil hlen)]
  simp only [decide_eq_true_eq]

section

variable (hlen : arg.length = 2 * dbNumericBufSize)
include hlen

theorem long_ne_nil : arg ≠ [] := by
  rintro rfl
  cases hlen

theorem length_lower : (arg.drop dbNumericBufSize).length = dbNumericBufSize := by
  rw [length_drop, hlen]
  rfl

theorem numericIsLongnumValue_iff :
    numericIsLongnumValue arg = false <-> beInt arg = beInt (arg.drop dbNumericBufSize) := by
  have hdef : numericIsLongnumValue arg =
      if numericIsNegative arg then
        (arg.take dbNumericBufSize).any (fun b => b != 0xff) ||
          !numericIsNegative (arg.drop dbNumericBufSize)
      else
        (arg.take dbNumericBufSize).any (fun b => b != 0) ||
          numericIsNegative (arg.drop dbNumericBufSize) := by
    rw [isNegative_drop]
    rfl
  have hfill : numericIsLongnumValue arg = false <->
      (forall b, b ∈ arg.take dbNumericBufSize -> b = if beInt arg < 0 then 0xff else 0) ∧
        (beInt (arg.drop dbNumericBufSize) < 0 <-> beInt arg < 0) := by
    rw [hdef, numericIsNegative_eq (long_ne_nil hlen),
      numericIsNegative_eq (buf_ne_nil (length_lower hlen))]
    by_cases hneg : beInt arg < 0 <;> simp [hneg]
  have hiff := beInt_append_eq_iff (arg.take dbNumericBufSize) (arg.drop dbNumericBufSize)
  rw [take_append_drop] at hiff
  rw [hfill]
  constructor
  · rintro ⟨hall, hsign⟩
    rw [hiff]
    simpa only [hsign] using hall
  intro heq
  have hall := hiff.mp heq
  rw [← heq] at hall ⊢
  exact ⟨hall, Iff.rfl⟩

theorem lt_natAbs_of_longnumValue (h : numericIsLongnumValue arg = true) :
    256 ^ dbNumericBufSize <= 2 * (beInt arg).natAbs := by
  by_contra hlt
  have hrange := beInt_append_of_range (arg.take dbNumericBufSize) (arg.drop dbNumericBufSize)
  rw [take_append_drop, length_lower hlen] at hrange
  have hfalse := (numericIsLongnumValue_iff hlen).mpr (hrange (by omega) (by omega))
  rw [h] at hfalse
  cases hfalse

end

/-!
## The scale of the quotient
-/

theorem numericScaleDecLong_add (a : List UInt8) (m n : Nat) :
    numericScaleDecLong a (m + n) =
      match numericScaleDecLong a m with
      | (.noError, r) => numericScaleDecLong r n
      | failure => failure := by
  induction m generalizing a with
  | zero => rw [Nat.zero_add, numericScaleDecLong]
  | succ m ih =>
    rw [Nat.succ_add, numericScaleDecLong, numericScaleDecLong]
    rcases numericScaleByTen a with ⟨code, r⟩
    cases code with
    | noError => exact ih r
    | _ => rfl

namespace Numeric

variable (x y : Numeric)

/-- The variable `scaleup`. -/
def scaleup : Nat :=
  if y.scale > 0 then max x.scale y.scale + y.scale - x.scale else 0

def quotientPrec : Nat :=
  let prec := min (x.precision + scaleup x y) dbMaxNumericPrecision
  min (prec + (dbDefaultNumericDivisionScale - max x.scale y.scale)) dbMaxNumericPrecision

def quotientScale : Nat :=
  let prec := min (x.precision + scaleup x y) dbMaxNumericPrecision
  let delta := dbDefaultNumericDivisionScale - max x.scale y.scale
  max x.scale y.scale + delta - (prec + delta - dbMaxNumericPrecision)

/-- The power of ten by which the dividend is scaled up. -/
def shift : Nat :=
  quotientScale x y + y.scale - x.scale

theorem max_scale_le_quotientScale : max x.scale y.scale <= quotientScale x y := by
  simp only [quotientScale]
  omega

theorem quotient_domain :
    1 <= quotientPrec x y ∧ quotientPrec x y <= dbMaxNumericPrecision ∧
      quotientScale x y <= quotientPrec x y ∧
      (quotientPrec x y < dbMaxNumericPrecision -> quotientPrec x y = x.precision + shift x y) := by
  have hxs := x.scale_le
  have hys := y.scale_le
  have hxp := x.precision_le
  have hyp := y.precision_le
  have h38 : dbMaxNumericPrecision = 38 := rfl
  have h9 : dbDefaultNumericDivisionScale = 9 := rfl
  unfold shift quotientPrec quotientScale scaleup
  by_cases hs : y.scale > 0
  · simp only [if_pos hs]
    omega
  · simp only [if_neg hs]
    omega

theorem scaleDividend_numeric :
    scaleDividend x.toDbValue y.toDbValue =
      match numericScaleDecLong (numericShortnumToLongnum x.buf) (shift x y) with
      | (.noError, longDbv1) => .ok (longDbv1, quotientPrec x y, quotientScale x y)
      | (ret, _) => .error ret := by
  have hle := max_scale_le_quotientScale x y
  have hrun : scaleDividend x.toDbValue y.toDbValue =
      match numericScaleDecLong (numericShortnumToLongnum x.buf) (scaleup x y) with
      | (.noError, longDbv1) =>
        if max x.scale y.scale < dbDefaultNumericDivisionScale then
          match numericScaleDecLong longDbv1 (quotientScale x y - max x.scale y.scale) with
          | (.noError, longDbv1) => .ok (longDbv1, quotientPrec x y, quotientScale x y)
          | (ret, _) => .error ret
        else
          .ok (longDbv1, min (x.precision + scaleup x y) dbMaxNumericPrecision, max x.scale y.scale)
      | (ret, _) => .error ret :=
    rfl
  have hshift : shift x y = scaleup x y + (quotientScale x y - max x.scale y.scale) := by
    unfold shift scaleup
    split <;> omega
  rw [hrun, hshift, numericScaleDecLong_add]
  rcases numericScaleDecLong (numericShortnumToLongnum x.buf) (scaleup x y) with ⟨code, r⟩
  cases code with
  | noError =>
    by_cases hsmall : max x.scale y.scale < dbDefaultNumericDivisionScale
    · simp only [if_pos hsmall]
    have hscale : quotientScale x y = max x.scale y.scale := by
      simp only [quotientScale]
      omega
    have hprec : quotientPrec x y = min (x.precision + scaleup x y) dbMaxNumericPrecision := by
      simp only [quotientPrec]
      omega
    simp only [if_neg hsmall, hscale, hprec, Nat.sub_self, numericScaleDecLong]
  | _ => rfl

end Numeric

/-!
## Quotient and remainder
-/

structure ShortQuoRem (w v : Int) (result : List UInt8 × List UInt8) : Prop
    extends QuoRem w v dbNumericBufSize result where
  quo_le : 2 * (w.natAbs / v.natAbs) <= 256 ^ dbNumericBufSize
  exact : w.tdiv v * 2 < (256 ^ dbNumericBufSize : Nat) ∨ w.natAbs % v.natAbs = 0

variable {longDbv1 : List UInt8}

section

variable (hlen : longDbv1.length = 2 * dbNumericBufSize)
include hlen

theorem divideLong_of_long (hdlen : divisor.length = dbNumericBufSize) (hv : beInt divisor ≠ 0)
    (hw : 2 * (beInt longDbv1).natAbs < 256 ^ (2 * dbNumericBufSize))
    (hlong : numericIsLongnumValue longDbv1 = true) :
    (256 ^ dbNumericBufSize <= 2 * ((beInt longDbv1).natAbs / (beInt divisor).natAbs) ∧
      divideLong longDbv1 divisor = some (.error .numOverflow)) ∨
    exists r, divideLong longDbv1 divisor = some (.ok r) ∧
      ShortQuoRem (beInt longDbv1) (beInt divisor) r := by
  have habs : ((beInt longDbv1).tdiv (beInt divisor)).natAbs =
      (beInt longDbv1).natAbs / (beInt divisor).natAbs := Int.natAbs_tdiv _ _
  have hself := Nat.div_le_self (beInt longDbv1).natAbs (beInt divisor).natAbs
  have hquo := numericLongDiv_quoRem (long_ne_nil hlen) hdlen hv
  rw [hlen] at hquo
  have hval : beInt (numericLongDiv longDbv1 divisor).1 =
      (beInt longDbv1).tdiv (beInt divisor) :=
    beInt_eq_of_range hquo.length_quo hquo.quo (by omega) (by omega)
  unfold divideLong
  rw [if_pos hlong]
  by_cases hover : numericIsLongnumValue (numericLongDiv longDbv1 divisor).1 = true
  · left
    constructor
    · have hle := lt_natAbs_of_longnumValue hquo.length_quo hover
      rwa [hval, habs] at hle
    · simp only [numericLongnumToShortnum, hover, if_true]
  right
  let short := (numericLongDiv longDbv1 divisor).1.drop dbNumericBufSize
  have hlower : short.length = dbNumericBufSize := length_lower hquo.length_quo
  have hshort : (beInt longDbv1).tdiv (beInt divisor) = beInt short := by
    rw [← hval]
    exact (numericIsLongnumValue_iff hquo.length_quo).mp (by simpa using hover)
  have hhalf := natAbs_le_half (a := short)
  have hcases := beInt_cases short
  have hlt := beNat_lt short
  rw [hlower, ← hshort] at hhalf hcases
  rw [hlower] at hlt
  refine ⟨(short, (numericLongDiv longDbv1 divisor).2), ?_,
    ⟨hlower, hquo.length_rem, ?_, hquo.rem⟩, ?_, ?_⟩
  · simp only [numericLongnumToShortnum, hover, if_false, Bool.false_eq_true]
    rfl
  · rw [hshort]
  · rwa [habs] at hhalf
  · left
    rcases hcases with ⟨_, h⟩ | ⟨_, h⟩ <;> omega

theorem divideLong_of_short (hdlen : divisor.length = dbNumericBufSize) (hv : beInt divisor ≠ 0)
    (hlong : numericIsLongnumValue longDbv1 = false) :
    (MachineTrap (beInt longDbv1) (beInt divisor) ∧ divideLong longDbv1 divisor = none) ∨
    ¬ MachineTrap (beInt longDbv1) (beInt divisor) ∧
      exists r, divideLong longDbv1 divisor = some (.ok r) ∧
        ShortQuoRem (beInt longDbv1) (beInt divisor) r := by
  have hlower := length_lower hlen
  have hshort := (numericIsLongnumValue_iff hlen).mp hlong
  have hhalf := natAbs_le_half (a := longDbv1.drop dbNumericBufSize)
  have hdiv := numericDiv_quoRem hlower hdlen hv
  rw [hlower, ← hshort] at hhalf
  rw [← hshort] at hdiv
  have habs : ((beInt longDbv1).tdiv (beInt divisor)).natAbs =
      (beInt longDbv1).natAbs / (beInt divisor).natAbs := Int.natAbs_tdiv _ _
  have hself := Nat.div_le_self (beInt longDbv1).natAbs (beInt divisor).natAbs
  unfold divideLong
  rw [if_neg (by rw [hlong]; decide)]
  rcases hdiv with ⟨htrap, hnone⟩ | ⟨hnotrap, r, hr, hquo⟩
  · left
    rw [hnone]
    exact ⟨htrap, rfl⟩
  right
  rw [hr]
  refine ⟨hnotrap, r, rfl, hquo, by omega, ?_⟩
  by_cases hrange : (beInt longDbv1).tdiv (beInt divisor) * 2 < (256 ^ dbNumericBufSize : Nat)
  · exact .inl hrange
  right
  have hfull : (beInt longDbv1).natAbs / (beInt divisor).natAbs = (beInt longDbv1).natAbs := by
    omega
  have hpow : 0 < 256 ^ dbNumericBufSize := Nat.pow_pos (by decide)
  have hone := (Nat.div_eq_self.mp hfull).resolve_left (by omega)
  rw [hone, Nat.mod_one]

end

/-!
## Rounding
-/

/-- What the comparison of the doubled remainder with the divisor finds. -/
def Reaches (divisor remainder : Nat) : Prop :=
  divisor <= 2 * remainder ∧ remainder < 2 ^ 126

instance (divisor remainder : Nat) : Decidable (Reaches divisor remainder) :=
  inferInstanceAs (Decidable (_ ∧ _))

def roundedQuotient (w v : Int) : Int :=
  if Reaches v.natAbs (w.natAbs % v.natAbs) then
    if w.tdiv v < 0 then w.tdiv v - 1 else w.tdiv v + 1
  else w.tdiv v

theorem natAbs_roundedQuotient (w v : Int) :
    (roundedQuotient w v).natAbs = w.natAbs / v.natAbs +
      if Reaches v.natAbs (w.natAbs % v.natAbs) then 1 else 0 := by
  have habs : (w.tdiv v).natAbs = w.natAbs / v.natAbs := Int.natAbs_tdiv _ _
  unfold roundedQuotient
  split
  · split <;> omega
  · omega

theorem numericCompare_doubled {rem : List UInt8} (hrlen : rem.length = dbNumericBufSize)
    (hdlen : divisor.length = dbNumericBufSize)
    (hrem : (beInt rem).natAbs < (beInt divisor).natAbs) (hfits : Fits (beInt divisor)) :
    numericCompare (numericAdd (numericDbValueAbs rem) (numericDbValueAbs rem))
        (numericDbValueAbs divisor) >= 0 <->
      Reaches (beInt divisor).natAbs (beInt rem).natAbs := by
  have hr := beNat_numericDbValueAbs (buf_ne_nil hrlen)
  have hd := beNat_numericDbValueAbs (buf_ne_nil hdlen)
  have hsum := length_numericAdd (rfl :
    (numericDbValueAbs rem).length = (numericDbValueAbs rem).length)
  have hadd := beNat_numericAdd (rfl :
    (numericDbValueAbs rem).length = (numericDbValueAbs rem).length)
  rw [length_numericDbValueAbs, hrlen] at hsum hadd
  rw [hr] at hadd
  have hten : 10 ^ dbMaxNumericPrecision = 100000000000000000000000000000000000000 := rfl
  have hsize : 256 ^ dbNumericBufSize = 340282366920938463463374607431768211456 := rfl
  have hhalf : 2 ^ 126 = 85070591730234615865843651857942052864 := rfl
  have hdcases := beInt_cases (numericDbValueAbs divisor)
  have hscases := beInt_cases (numericAdd (numericDbValueAbs rem) (numericDbValueAbs rem))
  rw [length_numericDbValueAbs, hdlen, hsize, hd] at hdcases
  rw [hsum, hsize, hadd, hsize] at hscases
  rw [numericCompare_eq (buf_ne_nil hsum) (by rw [hsum, length_numericDbValueAbs, hdlen]),
    ge_iff_le, Int.sign_nonneg_iff]
  unfold Reaches
  unfold Fits at hfits
  rw [hten] at hfits
  rw [hhalf]
  omega

theorem roundQuotient_value {w : Int} {r : List UInt8 × List UInt8}
    (hdlen : divisor.length = dbNumericBufSize) (hv : beInt divisor ≠ 0)
    (hfits : Fits (beInt divisor)) (h : ShortQuoRem w (beInt divisor) r) :
    (roundQuotient r.1 r.2 divisor).length = dbNumericBufSize ∧
      beInt (roundQuotient r.1 r.2 divisor) % (256 ^ dbNumericBufSize : Nat) =
        roundedQuotient w (beInt divisor) % (256 ^ dbNumericBufSize : Nat) := by
  have hpos : 0 < (beInt divisor).natAbs := Int.natAbs_pos.mpr hv
  have habs : (w.tdiv (beInt divisor)).natAbs = w.natAbs / (beInt divisor).natAbs :=
    Int.natAbs_tdiv _ _
  have hrem : (beInt r.2).natAbs = w.natAbs % (beInt divisor).natAbs := by
    rw [h.rem]
    exact Int.natAbs_tmod _ _
  have hlt : (beInt r.2).natAbs < (beInt divisor).natAbs := by
    rw [hrem]
    exact Nat.mod_lt _ hpos
  have hdoubled := numericCompare_doubled h.length_rem hdlen hlt hfits
  rw [hrem] at hdoubled
  unfold roundQuotient roundedQuotient
  by_cases hreach : Reaches (beInt divisor).natAbs (w.natAbs % (beInt divisor).natAbs)
  · have hrange : w.tdiv (beInt divisor) * 2 < (256 ^ dbNumericBufSize : Nat) := by
      apply h.exact.resolve_right
      intro hzero
      have hle := hreach.1
      omega
    have hle := h.quo_le
    have hval : beInt r.1 = w.tdiv (beInt divisor) :=
      beInt_eq_of_range h.length_quo h.quo (by omega) hrange
    have hmoved := beInt_moved_emod (buf_ne_nil h.length_quo)
    rw [h.length_quo, hval] at hmoved
    rw [if_pos (hdoubled.mpr hreach), if_pos hreach]
    exact hmoved
  · rw [if_neg (mt hdoubled.mp hreach), if_neg hreach]
    exact ⟨h.length_quo, h.quo⟩

/-!
## Outcome
-/

namespace Numeric

variable (x y : Numeric)

/-- The magnitude of the dividend at the scale of the division. -/
def magnitude : Nat :=
  x.toInt.natAbs * 10 ^ shift x y

/-- The scaled dividend as it stands in the long buffer. -/
def dividend : Int :=
  x.toInt.sign * (magnitude x y % 2 ^ 256 : Nat)

/-- There is no answer: a sign bit shows up while the dividend is scaled, the machine
division traps, or the quotient has too many digits. -/
def DivFails : Prop :=
  (exists i, 1 <= i ∧ i <= shift x y ∧ 2 ^ 255 <= x.toInt.natAbs * 10 ^ i % 2 ^ 256) ∨
    MachineTrap (dividend x y) y.toInt ∨ ¬ Fits (roundedQuotient (dividend x y) y.toInt)

theorem natAbs_dividend : (dividend x y).natAbs = magnitude x y % 2 ^ 256 := by
  unfold dividend
  by_cases hzero : x.toInt = 0
  · simp [magnitude, hzero]
  · rw [Int.natAbs_mul, Int.natAbs_sign_of_ne_zero hzero, Int.natAbs_natCast, Nat.one_mul]

theorem magnitude_lt : magnitude x y < 10 ^ (x.precision + shift x y) := by
  rw [magnitude, pow_add]
  exact Nat.mul_lt_mul_of_pos_right x.bounded (by positivity)

theorem two_mul_dividend_lt
    (h : forall i, 1 <= i -> i <= shift x y -> 2 * (x.toInt.natAbs * 10 ^ i % 2 ^ 256) < 2 ^ 256) :
    2 * (dividend x y).natAbs < 2 ^ 256 := by
  rw [natAbs_dividend, magnitude]
  by_cases hzero : shift x y = 0
  · have hlt := x.bounded_max
    have hten : 10 ^ dbMaxNumericPrecision < 2 ^ 255 := by decide
    rw [hzero, pow_zero, Nat.mul_one, Nat.mod_eq_of_lt (by omega)]
    omega
  · exact h _ (Nat.one_le_iff_ne_zero.mpr hzero) (le_refl _)

theorem natAbs_roundedQuotient_lt (v : Int) :
    (roundedQuotient (dividend x y) v).natAbs < 10 ^ (x.precision + shift x y + 1) := by
  have hlt := magnitude_lt x y
  have hself := Nat.div_le_self (dividend x y).natAbs v.natAbs
  have habs := natAbs_dividend x y
  have hstep : 10 ^ (x.precision + shift x y + 1) = 10 * 10 ^ (x.precision + shift x y) :=
    Nat.pow_succ'
  rw [natAbs_roundedQuotient, hstep]
  split <;> omega

theorem numericDbValueDiv_numeric :
    numericDbValueDiv (some x.toDbValue) (some y.toDbValue) =
      match numericScaleDecLong (numericShortnumToLongnum x.buf) (shift x y) with
      | (.noError, longDbv1) => divideAndRound longDbv1 y.buf (quotientPrec x y) (quotientScale x y)
      | (ret, _) => some (exitOnError ret) := by
  have hrun : numericDbValueDiv (some x.toDbValue) (some y.toDbValue) =
      match scaleDividend x.toDbValue y.toDbValue with
      | .error ret => some (exitOnError ret)
      | .ok (longDbv1, prec, scale) => divideAndRound longDbv1 y.buf prec scale :=
    rfl
  rw [hrun, scaleDividend_numeric]
  rcases numericScaleDecLong (numericShortnumToLongnum x.buf) (shift x y) with ⟨code, longDbv1⟩
  cases code <;> rfl

/-- An answer that stands for `t`, unless there is a failure. -/
def Answers (result : Option (ErrorCode × DbValue)) (failure : Prop) (t : Int) (scale : Nat) :
    Prop :=
  (failure ∧ forall value, result ≠ some (.noError, value)) ∨
    (¬ failure ∧ exists z : Numeric, result = some (.noError, z.toDbValue) ∧
      z.toInt = t ∧ z.scale = scale)

theorem makeAnswer_quotient (hy : y.toInt ≠ 0) {r : List UInt8 × List UInt8}
    (h : ShortQuoRem (dividend x y) y.toInt r) :
    Answers (some (makeAnswer (roundQuotient r.1 r.2 y.buf) (quotientPrec x y) (quotientScale x y)))
      (¬ Fits (roundedQuotient (dividend x y) y.toInt))
      (roundedQuotient (dividend x y) y.toInt) (quotientScale x y) := by
  rcases quotient_domain x y with ⟨hpos, hmax, hscale, hprec⟩
  rcases roundQuotient_value y.buf_length hy y.bounded_max h with ⟨hlen, hval⟩
  have hle := h.quo_le
  have hsize : 256 ^ dbNumericBufSize + 4 < 4 * 10 ^ dbMaxNumericPrecision := by decide
  have hsmall : (roundedQuotient (dividend x y) y.toInt).natAbs <
      2 * 10 ^ dbMaxNumericPrecision := by
    rw [natAbs_roundedQuotient]
    split <;> omega
  have hroom : quotientPrec x y < dbMaxNumericPrecision ->
      (roundedQuotient (dividend x y) y.toInt).natAbs < 10 ^ (quotientPrec x y + 1) := by
    intro hlt
    rw [hprec hlt]
    exact natAbs_roundedQuotient_lt x y y.toInt
  rcases makeAnswer_spec hlen hval hsmall hpos hmax hscale hroom with
    ⟨hfits, z, hz, hspec⟩ | ⟨hlost, hcode⟩
  · right
    exact ⟨not_not.mpr hfits, z, congrArg some hz, hspec⟩
  left
  refine ⟨hlost, fun value hvalue => ?_⟩
  rw [Option.some.inj hvalue] at hcode
  cases hcode

theorem divideAndRound_answers (hy : y.toInt ≠ 0) {longDbv1 : List UInt8}
    (hlen : longDbv1.length = 2 * dbNumericBufSize) (hw : beInt longDbv1 = dividend x y)
    (hrange : 2 * (dividend x y).natAbs < 256 ^ (2 * dbNumericBufSize)) :
    Answers (divideAndRound longDbv1 y.buf (quotientPrec x y) (quotientScale x y))
      (MachineTrap (dividend x y) y.toInt ∨ ¬ Fits (roundedQuotient (dividend x y) y.toInt))
      (roundedQuotient (dividend x y) y.toInt) (quotientScale x y) := by
  have hfound : ¬ MachineTrap (dividend x y) y.toInt -> forall r,
      divideLong longDbv1 y.buf = some (.ok r) -> ShortQuoRem (dividend x y) y.toInt r ->
      Answers (divideAndRound longDbv1 y.buf (quotientPrec x y) (quotientScale x y))
        (MachineTrap (dividend x y) y.toInt ∨ ¬ Fits (roundedQuotient (dividend x y) y.toInt))
        (roundedQuotient (dividend x y) y.toInt) (quotientScale x y) := by
    intro htrap r hr hquo
    rw [divideAndRound, hr, or_iff_right htrap]
    exact makeAnswer_quotient x y hy hquo
  by_cases hlong : numericIsLongnumValue longDbv1 = true
  · have hbig := lt_natAbs_of_longnumValue hlen hlong
    have hsize : 256 ^ dbNumericBufSize = 2 ^ 128 := by decide
    have htrap : ¬ MachineTrap (dividend x y) y.toInt := by
      rw [← hw]
      rintro ⟨_, hmin | hmin⟩ <;> rw [hmin, hsize] at hbig <;> revert hbig <;> decide
    rcases divideLong_of_long hlen y.buf_length hy (by rwa [hw]) hlong with
      ⟨hlarge, hover⟩ | ⟨r, hr, hquo⟩
    · left
      refine ⟨.inr ?_, fun value hvalue => ?_⟩
      · have hle : (dividend x y).natAbs / y.toInt.natAbs <=
            (roundedQuotient (dividend x y) y.toInt).natAbs := by
          rw [natAbs_roundedQuotient]
          exact Nat.le_add_right _ _
        have hfew := pow_precision_lt
        rw [hw] at hlarge
        change 256 ^ dbNumericBufSize <= 2 * ((dividend x y).natAbs / y.toInt.natAbs) at hlarge
        exact not_lt.mpr (by omega)
      · rw [divideAndRound, hover] at hvalue
        cases hvalue
    · rw [hw] at hquo
      exact hfound htrap r hr hquo
  · rcases divideLong_of_short hlen y.buf_length hy (by simpa using hlong) with
      ⟨htrap, hnone⟩ | ⟨htrap, r, hr, hquo⟩
    · left
      rw [hw] at htrap
      refine ⟨.inl htrap, fun value hvalue => ?_⟩
      rw [divideAndRound, hnone] at hvalue
      cases hvalue
    · rw [hw] at htrap hquo
      exact hfound htrap r hr hquo

theorem numericDbValueDiv_answers (hy : y.toInt ≠ 0) :
    Answers (numericDbValueDiv (some x.toDbValue) (some y.toDbValue)) (DivFails x y)
      (roundedQuotient (dividend x y) y.toInt) (quotientScale x y) := by
  rcases numericShortnumToLongnum_value x.buf_length with ⟨hlen, hval⟩
  have hsize : 256 ^ (2 * dbNumericBufSize) = 2 ^ 256 := by decide
  have hscaled := numericScaleDecLong_cases (long_ne_nil hlen) (shift x y)
  rw [hlen, hval, hsize] at hscaled
  rw [numericDbValueDiv_numeric]
  rcases hscaled with ⟨⟨i, hpos, hle, hsign⟩, hcode⟩ | ⟨hnosign, longDbv1, hrun, hllen, hlval⟩
  · left
    refine ⟨.inl ⟨i, hpos, hle, ?_⟩, ?_⟩
    · change 2 ^ 255 <= (beInt x.buf).natAbs * 10 ^ i % 2 ^ 256
      omega
    generalize numericScaleDecLong (numericShortnumToLongnum x.buf) (shift x y) = scaled at hcode
    rcases scaled with ⟨code, r⟩
    cases hcode
    intro value hvalue
    cases hvalue
  · have hnot : ¬ exists i, 1 <= i ∧ i <= shift x y ∧
        2 ^ 255 <= x.toInt.natAbs * 10 ^ i % 2 ^ 256 := by
      rintro ⟨i, hpos, hle, hsign⟩
      have hlt : 2 * (x.toInt.natAbs * 10 ^ i % 2 ^ 256) < 2 ^ 256 := hnosign i hpos hle
      omega
    have hrange := two_mul_dividend_lt x y hnosign
    rw [← hsize] at hrange
    rw [hrun, DivFails, or_iff_right hnot]
    exact divideAndRound_answers x y hy hllen hlval hrange

/-!
## Correctness
-/

def correctQuotient : Int :=
  (x.toInt * y.toInt).sign *
    (magnitude x y / y.toInt.natAbs +
      (if y.toInt.natAbs <= 2 * (magnitude x y % y.toInt.natAbs) then 1 else 0) : Nat)

theorem quotient_eq (hy : y.toInt ≠ 0) :
    x.toRat / y.toRat * 10 ^ quotientScale x y =
      ((x.toInt * y.toInt.sign * 10 ^ shift x y : Int) : ℚ) / (y.toInt.natAbs : Nat) := by
  have hscale : quotientScale x y + y.scale = x.scale + shift x y := by
    have hle := max_scale_le_quotientScale x y
    unfold shift
    omega
  have habs : ((y.toInt.natAbs : Nat) : ℚ) = (y.toInt.sign : ℚ) * y.toInt := by
    rw [← Int.cast_mul, Int.sign_mul_self_eq_natAbs, Int.cast_natCast]
  have hsign : ((y.toInt.sign : Int) : ℚ) ≠ 0 := by
    exact_mod_cast (mt Int.sign_eq_zero_iff_zero.mp hy)
  have hpow : (10 : ℚ) ^ quotientScale x y * 10 ^ y.scale = 10 ^ x.scale * 10 ^ shift x y := by
    rw [← pow_add, ← pow_add, hscale]
  rw [habs]
  unfold toRat
  push_cast
  field_simp
  rw [mul_assoc, mul_assoc, ← hpow, mul_comm ((10 : ℚ) ^ y.scale)]

theorem atScale_quotient (hy : y.toInt ≠ 0) :
    atScale roundHalfAway (quotientScale x y) (x.toRat / y.toRat) =
      correctQuotient x y / 10 ^ quotientScale x y := by
  have hpos : 0 < y.toInt.natAbs := Int.natAbs_pos.mpr hy
  have hpow : (0 : Int) < 10 ^ shift x y := by positivity
  have habs : (x.toInt * y.toInt.sign * 10 ^ shift x y).natAbs = magnitude x y := by
    rw [Int.natAbs_mul, Int.natAbs_mul, Int.natAbs_sign_of_ne_zero hy, Nat.mul_one, Int.natAbs_pow]
    rfl
  have hsign : (x.toInt * y.toInt.sign * 10 ^ shift x y).sign = (x.toInt * y.toInt).sign := by
    rw [Int.sign_mul, Int.sign_mul, Int.sign_sign, Int.sign_eq_one_of_pos hpow, Int.mul_one,
      Int.sign_mul]
  rw [atScale, quotient_eq x y hy, roundHalfAway_div _ hpos, habs, hsign]
  rfl

/-- The remainder is so large that its double is negative in a buffer. -/
def RemainderWraps : Prop :=
  2 ^ 126 <= magnitude x y % y.toInt.natAbs

/-- A negative quotient between `-1` and `0` is rounded up in magnitude. -/
def SignLost : Prop :=
  magnitude x y / y.toInt.natAbs = 0 ∧ x.toInt * y.toInt < 0 ∧
    y.toInt.natAbs <= 2 * (magnitude x y % y.toInt.natAbs)

theorem dividend_of_lt (h : magnitude x y < 2 ^ 255) :
    (dividend x y).natAbs = magnitude x y ∧
      (dividend x y).tdiv y.toInt =
        (x.toInt * y.toInt).sign * (magnitude x y / y.toInt.natAbs : Nat) := by
  have habs : (dividend x y).natAbs = magnitude x y := by
    rw [natAbs_dividend]
    exact Nat.mod_eq_of_lt (by omega)
  have hpow : 0 < 10 ^ shift x y := by positivity
  have hsign : (dividend x y).sign = x.toInt.sign := by
    rw [dividend, Nat.mod_eq_of_lt (by omega), Int.sign_mul, Int.sign_sign]
    by_cases hzero : x.toInt = 0
    · rw [hzero, Int.sign_zero, Int.zero_mul]
    · have hpos : 0 < magnitude x y := Nat.mul_pos (Int.natAbs_pos.mpr hzero) hpow
      have hone : ((magnitude x y : Nat) : Int).sign = 1 := Int.sign_eq_one_of_pos (by omega)
      rw [hone, Int.mul_one]
  refine ⟨habs, ?_⟩
  rw [tdiv_eq_signs, habs, hsign, Int.sign_mul]

theorem roundedQuotient_ne_of_wrapped (hy : y.toInt ≠ 0)
    (hfits : Fits (roundedQuotient (dividend x y) y.toInt)) (h : 2 ^ 255 <= magnitude x y) :
    roundedQuotient (dividend x y) y.toInt ≠ correctQuotient x y := by
  intro heq
  have hpos : 0 < y.toInt.natAbs := Int.natAbs_pos.mpr hy
  have hx : x.toInt ≠ 0 := by
    intro hzero
    rw [magnitude, hzero] at h
    simp at h
  have hlarge : 10 ^ dbMaxNumericPrecision <= magnitude x y / y.toInt.natAbs := by
    rw [Nat.le_div_iff_mul_le hpos]
    calc 10 ^ dbMaxNumericPrecision * y.toInt.natAbs
        <= 10 ^ dbMaxNumericPrecision * 10 ^ dbMaxNumericPrecision :=
          Nat.mul_le_mul_left _ y.bounded_max.le
      _ <= 2 ^ 255 := by decide
      _ <= magnitude x y := h
  have habs : (correctQuotient x y).natAbs = _ := Int.natAbs_mul _ _
  rw [Int.natAbs_sign_of_ne_zero (Int.mul_ne_zero hx hy), Int.natAbs_natCast, Nat.one_mul] at habs
  rw [heq, Fits, habs] at hfits
  omega

/-- Moving the quotient `q` by one is correct unless the doubled remainder `r` wraps
or the sign is lost; `p` has the sign of the quotient. -/
theorem roundAway_eq_iff {p : Int} {q r d : Nat} (hr : r < d) (hd : d < 2 ^ 127)
    (hzero : p = 0 -> q = 0 ∧ r = 0) :
    (if Reaches d r then if p.sign * q < 0 then p.sign * q - 1 else p.sign * q + 1
      else p.sign * q) = p.sign * (q + (if d <= 2 * r then 1 else 0) : Nat) <->
      ¬ 2 ^ 126 <= r ∧ ¬ (q = 0 ∧ p < 0 ∧ d <= 2 * r) := by
  have hsign : p.sign = -1 ∧ p < 0 ∨ p.sign = 0 ∧ p = 0 ∨ p.sign = 1 ∧ 0 < p := by
    rcases lt_trichotomy p 0 with hneg | heq | hpos
    · exact .inl ⟨Int.sign_eq_neg_one_of_neg hneg, hneg⟩
    · exact .inr (.inl ⟨Int.sign_eq_zero_iff_zero.mpr heq, heq⟩)
    · exact .inr (.inr ⟨Int.sign_eq_one_of_pos hpos, hpos⟩)
  by_cases hhalf : d <= 2 * r
  · rw [if_pos hhalf]
    by_cases hwrap : r < 2 ^ 126
    · rw [if_pos ⟨hhalf, hwrap⟩]
      rcases hsign with ⟨hs, hp⟩ | ⟨hs, hp⟩ | ⟨hs, hp⟩ <;> rw [hs] <;> split <;> omega
    · rw [if_neg (fun h => hwrap h.2)]
      rcases hsign with ⟨hs, hp⟩ | ⟨hs, hp⟩ | ⟨hs, hp⟩ <;> rw [hs] <;> omega
  · rw [if_neg hhalf, if_neg (fun h => hhalf h.1), Nat.add_zero]
    omega

theorem roundedQuotient_eq_iff (hy : y.toInt ≠ 0)
    (hfits : Fits (roundedQuotient (dividend x y) y.toInt)) :
    roundedQuotient (dividend x y) y.toInt = correctQuotient x y <->
      magnitude x y < 2 ^ 255 ∧ ¬ RemainderWraps x y ∧ ¬ SignLost x y := by
  by_cases hwrap : 2 ^ 255 <= magnitude x y
  · exact ⟨fun heq => absurd heq (roundedQuotient_ne_of_wrapped x y hy hfits hwrap),
      fun hright => absurd hright.1 (not_lt.mpr hwrap)⟩
  rcases dividend_of_lt x y (not_le.mp hwrap) with ⟨habs, hquo⟩
  have hpos : 0 < y.toInt.natAbs := Int.natAbs_pos.mpr hy
  have hlt := y.bounded_max
  have hten : 10 ^ dbMaxNumericPrecision < 2 ^ 127 := by decide
  have hrem := Nat.mod_lt (magnitude x y) hpos
  have hzero : x.toInt * y.toInt = 0 -> magnitude x y / y.toInt.natAbs = 0 ∧
      magnitude x y % y.toInt.natAbs = 0 := by
    intro hprod
    have hx : x.toInt = 0 := (Int.mul_eq_zero.mp hprod).resolve_right hy
    simp [magnitude, hx]
  rw [and_iff_right (not_le.mp hwrap), roundedQuotient, hquo, habs]
  exact roundAway_eq_iff hrem (by omega) hzero

end Numeric

/-- If there is an answer, it is the quotient rounded half away from zero at its scale. -/
def DivCorrect (x y : Numeric) : Prop :=
  forall value, numericDbValueDiv (some x.toDbValue) (some y.toDbValue) = some (.noError, value) ->
    exists z : Numeric, value = z.toDbValue ∧
      z.toRat = atScale roundHalfAway z.scale (x.toRat / y.toRat)

theorem divCorrect_iff_of_answer {x y : Numeric} (hy : y.toInt ≠ 0) {z : Numeric}
    (hrun : numericDbValueDiv (some x.toDbValue) (some y.toDbValue) = some (.noError, z.toDbValue))
    (hscale : z.scale = x.quotientScale y) :
    DivCorrect x y <-> z.toInt = x.correctQuotient y := by
  have hten : (10 : ℚ) ^ x.quotientScale y ≠ 0 := by positivity
  have hz : z.toRat = atScale roundHalfAway z.scale (x.toRat / y.toRat) <->
      z.toInt = x.correctQuotient y := by
    rw [hscale, atScale_quotient x y hy, toRat, hscale, div_left_inj' hten, Int.cast_inj]
  rw [← hz]
  constructor
  · intro hcorrect
    rcases hcorrect _ hrun with ⟨z', heq, hrat⟩
    rw [toDbValue_injective heq]
    exact hrat
  · intro hrat value hvalue
    rw [hrun] at hvalue
    cases hvalue
    exact ⟨z, rfl, hrat⟩

/-- The condition for a correct answer. -/
theorem numericDbValueDiv_correct_iff (x y : Numeric) (hy : y.toInt ≠ 0) :
    DivCorrect x y <-> x.DivFails y ∨
      (x.magnitude y < 2 ^ 255 ∧ ¬ x.RemainderWraps y ∧ ¬ x.SignLost y) := by
  rcases numericDbValueDiv_answers x y hy with
    ⟨hfails, hnone⟩ | ⟨hnot, z, hrun, hint, hscale⟩
  · exact ⟨fun _ => .inl hfails, fun _ value hvalue => absurd hvalue (hnone value)⟩
  have hfits : Fits (roundedQuotient (x.dividend y) y.toInt) := by
    by_contra hlost
    exact hnot (.inr (.inr hlost))
  rw [divCorrect_iff_of_answer hy hrun hscale, hint, or_iff_right hnot]
  exact roundedQuotient_eq_iff x y hy hfits

def digit (v : Int) (h : v.natAbs < 10 ^ 1) : Numeric :=
  .ofInt v 1 0 (by decide) (by decide) (by decide) h

/-- One third, to nine digits. -/
theorem divCorrect_one_third :
    (digit 3 (by decide)).toInt ≠ 0 ∧ DivCorrect (digit 1 (by decide)) (digit 3 (by decide)) := by
  have hone : (digit 1 (by decide)).toInt = 1 := toInt_ofInt
  have hthree : (digit 3 (by decide)).toInt = 3 := toInt_ofInt
  have hmagnitude : (digit 1 (by decide)).magnitude (digit 3 (by decide)) = 10 ^ 9 := by
    rw [magnitude, hone]
    rfl
  have hne : (digit 3 (by decide)).toInt ≠ 0 := by
    rw [hthree]
    decide
  refine ⟨hne, (numericDbValueDiv_correct_iff _ _ hne).mpr (.inr ?_)⟩
  unfold RemainderWraps SignLost
  rw [hmagnitude, hthree]
  decide

/-- A billionth, with the sign of `v`. -/
def billionth (v : Int) (h : v.natAbs < 10 ^ 9) : Numeric :=
  .ofInt v 9 9 (by decide) (by decide) (by decide) h

/-- Minus one billionth divided by two is rounded to plus one billionth, as is its
negation. -/
theorem not_divCorrect_billionth :
    numericDbValueDiv (some (billionth (-1) (by decide)).toDbValue)
        (some (digit 2 (by decide)).toDbValue) =
      some (.noError, (billionth 1 (by decide)).toDbValue) ∧
    numericDbValueDiv (some (billionth 1 (by decide)).toDbValue)
        (some (digit 2 (by decide)).toDbValue) =
      some (.noError, (billionth 1 (by decide)).toDbValue) ∧
    ¬ DivCorrect (billionth (-1) (by decide)) (digit 2 (by decide)) := by
  have htwo : (digit 2 (by decide)).toInt = 2 := toInt_ofInt
  have hrun : numericDbValueDiv (some (billionth (-1) (by decide)).toDbValue)
        (some (digit 2 (by decide)).toDbValue) =
      some (.noError, (billionth 1 (by decide)).toDbValue) := by
    decide +kernel
  refine ⟨hrun, by decide +kernel, fun hcorrect => ?_⟩
  have heq := (divCorrect_iff_of_answer (by rw [htwo]; decide) hrun rfl).mp hcorrect
  have hplus : (billionth 1 (by decide)).toInt = 1 := toInt_ofInt
  have hminus : (billionth (-1) (by decide)).toInt = -1 := toInt_ofInt
  rw [hplus, correctQuotient, magnitude, hminus, htwo] at heq
  revert heq
  decide

/-!
Rounding half away from zero is symmetric, and so are correct answers.
-/

theorem atScale_neg (scale : Nat) (q : ℚ) :
    atScale roundHalfAway scale (-q) = -atScale roundHalfAway scale q := by
  rw [atScale, neg_mul, roundHalfAway_neg, Int.cast_neg, neg_div]
  rfl

theorem DivCorrect.neg {x x' y z z' : Numeric} (hy : y.toInt ≠ 0)
    (hprec : x'.precision = x.precision) (hscale : x'.scale = x.scale)
    (hint : x'.toInt = -x.toInt) (h : DivCorrect x y) (h' : DivCorrect x' y)
    (hrun : numericDbValueDiv (some x.toDbValue) (some y.toDbValue) = some (.noError, z.toDbValue))
    (hrun' : numericDbValueDiv (some x'.toDbValue) (some y.toDbValue) =
      some (.noError, z'.toDbValue)) :
    z'.scale = z.scale ∧ z'.toRat = -z.toRat := by
  have hanswer : forall {x z : Numeric}, DivCorrect x y ->
      numericDbValueDiv (some x.toDbValue) (some y.toDbValue) = some (.noError, z.toDbValue) ->
      z.scale = x.quotientScale y ∧
        z.toRat = atScale roundHalfAway z.scale (x.toRat / y.toRat) := by
    intro x z hcorrect hrun
    rcases hcorrect _ hrun with ⟨w, hw, hrat⟩
    rw [toDbValue_injective hw]
    refine ⟨?_, hrat⟩
    rcases numericDbValueDiv_answers x y hy with ⟨_, hnone⟩ | ⟨_, w', hw', _, hscale⟩
    · exact absurd hrun (hnone _)
    · rw [hrun, hw] at hw'
      rw [toDbValue_injective (congrArg Prod.snd (Option.some.inj hw')), hscale]
  rcases hanswer h hrun with ⟨hz, hrat⟩
  rcases hanswer h' hrun' with ⟨hz', hrat'⟩
  have hquo : x'.quotientScale y = x.quotientScale y := by
    simp only [quotientScale, scaleup, hprec, hscale]
  have hneg : x'.toRat = -x.toRat := by
    rw [toRat, hint, hscale, Int.cast_neg, neg_div]
    rfl
  have hsame : z'.scale = z.scale := by rw [hz, hz', hquo]
  refine ⟨hsame, ?_⟩
  rw [hrat', hrat, hsame, hneg, neg_div, atScale_neg]

end Rye.Query
