import Rye.Query.Numeric.Value

/-!
# Addition and subtraction

Two numerics are first brought to a common precision and scale.  As long as the
declared precisions leave room, the buffer of the smaller scale is multiplied in
place; otherwise both values are rewritten as strings at the full precision,
which fails when a significant digit is lost.

Over a common domain the operation is the one on buffers.  A sum of two values
of 38 digits may wrap around, but a wrapped sum still has more than 38 digits,
so the test for overflow decides about the exact sum.
-/

namespace Rye.Query

open Foundation List Numeric

/-!
## Changing precision and scale
-/

def isSignificant (c : Char) : Bool :=
  '1' <= c && c <= '9'

/-- The digits at the new scale, and whether the first one cut off rounds up. -/
def scaleString (numString : List Char) (srcScale destScale : Nat) : List Char × Bool :=
  if srcScale < destScale then
    (numString ++ List.replicate (destScale - srcScale) '0', false)
  else if destScale < srcScale then
    let cut := numString.length - (srcScale - destScale)
    let first := numString.getD cut '0'
    (numString.take cut, '5' <= first && first <= '9')
  else (numString, false)

def numericCoerceNumToNum (srcNum : List UInt8) (srcPrec srcScale destPrec destScale : Nat) :
    Except ErrorCode (List UInt8) :=
  if srcPrec <= destPrec ∧ srcScale = destScale then .ok srcNum
  else
    let negateAnswer := numericIsNegative srcNum
    let destNum := if negateAnswer then numericNegate srcNum else srcNum
    let scaled := scaleString (numericCoerceNumToDecStr destNum) srcScale destScale
    let numString := scaled.1
    let roundUp := scaled.2
    if (numString.take (numString.length - destPrec)).any isSignificant then
      .error .numOverflow
    else if roundUp && (numString.drop (numString.length - destPrec)).all (fun c => c = '9')
    then .error .numOverflow
    else
      let destNum := numericCoerceDecStrToNum numString
      let destNum := if roundUp then numericIncrease destNum else destNum
      .ok (if negateAnswer then numericNegate destNum else destNum)

def makeNumeric (num : List UInt8) (prec scale : Nat) : Except ErrorCode DbValue :=
  match dbMakeNumeric num prec scale with
  | (.noError, value) => .ok value
  | (error, _) => .error error

def makeCommon (num1 num2 : List UInt8) (cprec scale : Nat) :
    Except ErrorCode (DbValue × DbValue) := do
  let common1 <- makeNumeric num1 cprec scale
  let common2 <- makeNumeric num2 cprec scale
  return (common1, common2)

/-- Both values at the larger scale; the overflow of the multiplication is not looked at. -/
def numericCommonPrecScale (dbv1 dbv2 : DbValue) : Except ErrorCode (DbValue × DbValue) :=
  if dbv1.scale = dbv2.scale then
    makeCommon dbv1.locateNumeric dbv2.locateNumeric (max dbv1.precision dbv2.precision) dbv1.scale
  else if dbv1.scale < dbv2.scale then
    let scaleDiff := dbv2.scale - dbv1.scale
    let prec1 := scaleDiff + dbv1.precision
    if prec1 > dbMaxNumericPrecision then .error .numOverflow
    else
      makeCommon (numericScaleDec dbv1.locateNumeric scaleDiff).2 dbv2.locateNumeric
        (max prec1 dbv2.precision) dbv2.scale
  else
    let scaleDiff := dbv1.scale - dbv2.scale
    let prec2 := scaleDiff + dbv2.precision
    if prec2 > dbMaxNumericPrecision then .error .numOverflow
    else
      makeCommon dbv1.locateNumeric (numericScaleDec dbv2.locateNumeric scaleDiff).2
        (max dbv1.precision prec2) dbv1.scale

def numericPrecScaleWhenOverflow (dbv1 dbv2 : DbValue) :
    Except ErrorCode (DbValue × DbValue) := do
  let scale := max dbv1.scale dbv2.scale
  let prec := dbMaxNumericPrecision
  let temp <- numericCoerceNumToNum dbv1.locateNumeric dbv1.precision dbv1.scale prec scale
  let common1 <- makeNumeric temp prec scale
  let temp <- numericCoerceNumToNum dbv2.locateNumeric dbv2.precision dbv2.scale prec scale
  let common2 <- makeNumeric temp prec scale
  return (common1, common2)

/-- The common domain as addition and subtraction find it. -/
def commonDomain (dbv1 dbv2 : DbValue) : Except ErrorCode (DbValue × DbValue) :=
  match numericCommonPrecScale dbv1 dbv2 with
  | .error .numOverflow => numericPrecScaleWhenOverflow dbv1 dbv2
  | result => result

def combine (op : List UInt8 -> List UInt8 -> List UInt8) (dbv1 dbv2 : DbValue) :
    ErrorCode × DbValue :=
  match commonDomain dbv1 dbv2 with
  | .error ret => exitOnError ret
  | .ok (common1, common2) =>
    let temp := op common1.locateNumeric common2.locateNumeric
    makeAnswer temp common1.precision common1.scale

def numericDbValueAdd (dbv1 dbv2 : Option DbValue) : ErrorCode × DbValue :=
  withNumerics dbv1 dbv2 (combine numericAdd)

def numericDbValueSub (dbv1 dbv2 : Option DbValue) : ErrorCode × DbValue :=
  withNumerics dbv1 dbv2 (combine numericSub)

/-!
## The string route
-/

theorem isSignificant_iff {c : Char} (h : c.isDigit = true) :
    isSignificant c = true <-> c ≠ '0' := by
  have hbounds := digit_bounds h
  have hzero : '0'.toNat = 48 := rfl
  have hle : isSignificant c = true <-> 49 <= c.toNat ∧ c.toNat <= 57 := by
    simp only [isSignificant, Bool.and_eq_true, decide_eq_true_eq]
    rfl
  rw [hle, Ne, ← Char.toNat_inj]
  omega

variable {s : List Char} {n scale : Nat}

theorem any_isSignificant (h : AllDigits s) : s.any isSignificant = true <-> strVal s ≠ 0 := by
  rw [Ne, h.strVal_eq_zero_iff, any_eq_true]
  push Not
  constructor
  · rintro ⟨c, hc, hsig⟩
    exact ⟨c, hc, (isSignificant_iff (h c hc)).mp hsig⟩
  · rintro ⟨c, hc, hne⟩
    exact ⟨c, hc, (isSignificant_iff (h c hc)).mpr hne⟩

/-- Significant digits in front of the last `n` are those of a number with more digits. -/
theorem any_isSignificant_take (h : AllDigits s) (hn : n <= s.length) :
    (s.take (s.length - n)).any isSignificant = true <-> 10 ^ n <= strVal s := by
  have hdrop : AllDigits (s.drop (s.length - n)) :=
    h.of_subset (drop_subset _ _)
  have hlen : (s.drop (s.length - n)).length = n := by
    rw [length_drop]
    omega
  have hdiv := strVal_append_div (s.take (s.length - n)) hdrop
  rw [take_append_drop, hlen] at hdiv
  rw [any_isSignificant (h.of_subset (take_subset _ _)), ← hdiv, Ne, Nat.div_eq_zero_iff]
  have hpos : 0 < 10 ^ n := Nat.pow_pos (by decide)
  omega

variable (x : Numeric)

theorem Numeric.magnitude_prints :
    Prints (numericCoerceNumToDecStr
      (if numericIsNegative x.buf then numericNegate x.buf else x.buf)) x.toInt.natAbs := by
  have hlen : (numericDbValueAbs x.buf).length = dbNumericBufSize := by
    rw [length_numericDbValueAbs, x.buf_length]
  have habs := beNat_numericDbValueAbs x.buf_ne_nil
  have hbound := x.bounded_max
  have hpow := pow_precision_lt
  have hint : beInt (numericDbValueAbs x.buf) = x.toInt.natAbs := by
    rw [beInt_of_small, habs]
    · rfl
    · rw [hlen, habs]
      exact lt_of_le_of_lt (Nat.mul_le_mul_left 2 hbound.le) hpow
  rcases numericCoerceNumToDecStr_prints hlen with ⟨s, heq, hprints⟩
  rw [hint, if_neg (by omega), nil_append] at heq
  rw [hint, Int.natAbs_natCast] at hprints
  change Prints (numericCoerceNumToDecStr (numericDbValueAbs x.buf)) _
  rw [heq]
  exact hprints

/-- The first digit cut off decides about the half. -/
theorem rounds_iff {c : Char} {cut : List Char} (h : AllDigits (c :: cut)) :
    ('5' <= c && c <= '9') = true <-> 10 ^ (cut.length + 1) <= 2 * strVal (c :: cut) := by
  have hc := digit_bounds (h c mem_cons_self)
  have hlt := (h.of_subset (subset_cons_self c cut)).lt
  have hfive : ('5' <= c && c <= '9') = true <-> 5 <= digitVal c := by
    have hle : ('5' <= c && c <= '9') = true <-> 53 <= c.toNat ∧ c.toNat <= 57 := by
      rw [Bool.and_eq_true, decide_eq_true_eq, decide_eq_true_eq]
      rfl
    have hzero : '0'.toNat = 48 := rfl
    rw [hle, digitVal]
    omega
  rw [hfive, strVal_cons, Nat.pow_succ]
  constructor
  · intro hge
    have hmul := Nat.mul_le_mul_right (10 ^ cut.length) hge
    omega
  intro hge
  by_contra hsmall
  have hmul := Nat.mul_le_mul_right (10 ^ cut.length) (Nat.le_of_lt_succ (not_le.mp hsmall))
  omega

theorem all_nine_iff (h : AllDigits s) :
    s.all (fun c => c = '9') = true <-> strVal s + 1 = 10 ^ s.length := by
  induction s with
  | nil => simp
  | cons c s ih =>
    have hs := h.of_subset (subset_cons_self c s)
    have hlt := hs.lt
    have hc := digitVal_lt (h c mem_cons_self)
    have hnine : c = '9' <-> digitVal c = 9 := by
      have hzero : '0'.toNat = 48 := rfl
      have hchar : '9'.toNat = 57 := rfl
      rw [← Char.toNat_inj, digitVal]
      omega
    rw [all_cons, Bool.and_eq_true, ih hs, decide_eq_true_eq, hnine, strVal_cons,
      length_cons, Nat.pow_succ]
    constructor
    · rintro ⟨hd, hrest⟩
      rw [hd]
      omega
    intro hsum
    have hd : digitVal c = 9 := by
      by_contra hne
      have hless := Nat.mul_le_mul_right (10 ^ s.length) (show digitVal c <= 8 by omega)
      omega
    rw [hd] at hsum
    omega

theorem scaleString_rounds {srcScale : Nat} (destScale : Nat) (h : Prints s n)
    (hsrc : srcScale <= dbMaxNumericPrecision) : let scaled := scaleString s srcScale destScale
    let unit := 10 ^ (srcScale - destScale)
    let value := n * 10 ^ (destScale - srcScale)
    AllDigits scaled.1 ∧ dbMaxNumericPrecision <= scaled.1.length ∧
      strVal scaled.1 = value / unit ∧ (scaled.2 = true <-> unit <= 2 * (value % unit)) := by
  have htwice : twiceNumMaxPrec = dbMaxNumericPrecision + dbMaxNumericPrecision := rfl
  have hlen := h.length
  unfold scaleString
  by_cases hup : srcScale < destScale
  · rw [if_pos hup, Nat.sub_eq_zero_of_le hup.le]
    refine ⟨allDigits_append.mpr ⟨h.digits, allDigits_replicate_zero _⟩, ?_, ?_,
      by simp [Nat.mod_one]⟩
    · rw [length_append]
      omega
    · rw [strVal_append, strVal_replicate_zero, h.value, length_replicate]
      simp
  rw [if_neg hup, Nat.sub_eq_zero_of_le (not_lt.mp hup), Nat.pow_zero, Nat.mul_one]
  by_cases hdown : destScale < srcScale
  · rw [if_pos hdown]
    let cut := s.length - (srcScale - destScale)
    have hlt : cut < s.length := by omega
    have hsplit : s = s.take cut ++ s[cut] :: s.drop (cut + 1) := by
      rw [← drop_eq_getElem_cons hlt, take_append_drop]
    have hdrop : AllDigits (s[cut] :: s.drop (cut + 1)) := by
      rw [← drop_eq_getElem_cons hlt]
      exact h.digits.of_subset (drop_subset _ _)
    have hcut : (s.drop (cut + 1)).length + 1 = srcScale - destScale := by
      rw [length_drop]
      omega
    have hdiv := strVal_append_div (s.take cut) hdrop
    have hmod := strVal_append_mod (s.take cut) hdrop
    rw [← hsplit, h.value, length_cons, hcut] at hdiv hmod
    have hfirst : s.getD cut '0' = s[cut] := by
      rw [getD_eq_getElem?_getD, getElem?_eq_getElem hlt]
      rfl
    have hround := rounds_iff hdrop
    rw [hcut, ← hmod] at hround
    refine ⟨h.digits.of_subset (take_subset _ _), ?_, hdiv.symm, ?_⟩
    · rw [length_take]
      omega
    · dsimp only
      rw [hfirst]
      exact hround
  · rw [if_neg hdown, Nat.sub_eq_zero_of_le (not_lt.mp hdown)]
    exact ⟨h.digits, by rw [hlen]; decide, by rw [h.value]; simp, by simp [Nat.mod_one]⟩

theorem all_nine_drop (h : AllDigits s) (hn : n <= s.length) (hlt : strVal s < 10 ^ n) :
    (s.drop (s.length - n)).all (fun c => c = '9') = true <-> strVal s + 1 = 10 ^ n := by
  have hdrop : AllDigits (s.drop (s.length - n)) := h.of_subset (drop_subset _ _)
  have hlen : (s.drop (s.length - n)).length = n := by
    rw [length_drop, Nat.sub_sub_self hn]
  have hmod := strVal_append_mod (s.take (s.length - n)) hdrop
  rw [take_append_drop, hlen, Nat.mod_eq_of_lt hlt] at hmod
  rw [all_nine_iff hdrop, hlen, ← hmod]

theorem beInt_rounded {a : List UInt8} (up : Bool) (hlen : a.length = dbNumericBufSize)
    (ha : beInt a = n) (hfits : 2 * (n + if up then 1 else 0) < 256 ^ dbNumericBufSize) :
    (if up then numericIncrease a else a).length = dbNumericBufSize ∧
      beInt (if up then numericIncrease a else a) = (n + if up then 1 else 0 : Nat) := by
  cases up with
  | false => exact ⟨hlen, ha⟩
  | true =>
    have hinc := beInt_numericIncrease_emod a
    rw [hlen, ha] at hinc
    exact ⟨(length_numericIncrease a).trans hlen,
      beInt_eq_of_range ((length_numericIncrease a).trans hlen) hinc (by omega) (by omega)⟩

/-- The magnitude of a value at another scale, halves rounded up. -/
def Numeric.magnitudeAt (x : Numeric) (scale : Nat) : Nat :=
  let unit := 10 ^ (x.scale - scale)
  let value := x.toInt.natAbs * 10 ^ (scale - x.scale)
  value / unit + if unit <= 2 * (value % unit) then 1 else 0

theorem Numeric.magnitudeAt_of_le (h : x.scale <= scale) :
    x.magnitudeAt scale = (x.rescaled scale).natAbs := by
  rw [magnitudeAt, Nat.sub_eq_zero_of_le h, natAbs_rescaled]
  simp [Nat.mod_one]

theorem Numeric.magnitudeAt_eq_zero (h : x.toInt = 0) : x.magnitudeAt scale = 0 := by
  rw [magnitudeAt, h]
  simp

theorem numericCoerceNumToNum_spec {destPrec : Nat} (destScale : Nat)
    (hprec : destPrec <= dbMaxNumericPrecision) :
    (x.magnitudeAt destScale < 10 ^ destPrec ∧
      exists r, numericCoerceNumToNum x.buf x.precision x.scale destPrec destScale = .ok r ∧
        r.length = dbNumericBufSize ∧ beInt r = x.toInt.sign * x.magnitudeAt destScale) ∨
    (10 ^ destPrec <= x.magnitudeAt destScale ∧
      numericCoerceNumToNum x.buf x.precision x.scale destPrec destScale =
        .error .numOverflow) := by
  unfold numericCoerceNumToNum
  by_cases htriv : x.precision <= destPrec ∧ x.scale = destScale
  · left
    have hsame : x.magnitudeAt destScale = x.toInt.natAbs := by
      rw [x.magnitudeAt_of_le htriv.2.le, ← htriv.2, x.rescaled_self]
    rw [if_pos htriv, hsame, Int.sign_mul_natAbs]
    exact ⟨lt_of_lt_of_le x.bounded (Nat.pow_le_pow_right (by decide) htriv.1), x.buf, rfl,
      x.buf_length, rfl⟩
  rw [if_neg htriv]
  dsimp only
  rcases scaleString_rounds destScale x.magnitude_prints x.scale_le_max with
    ⟨hdigits, hlen, hval, hup⟩
  generalize scaleString _ x.scale destScale = scaled at hdigits hlen hval hup ⊢
  rcases scaled with ⟨t, up⟩
  dsimp only at hdigits hlen hval hup ⊢
  have hmag : x.magnitudeAt destScale = strVal t + if up then 1 else 0 := by
    rw [magnitudeAt, hval]
    simp only [hup]
  have hn : destPrec <= t.length := le_trans hprec hlen
  have hany := any_isSignificant_take hdigits hn
  by_cases hover : 10 ^ destPrec <= strVal t
  · right
    rw [if_pos (hany.mpr hover), hmag]
    exact ⟨le_trans hover (Nat.le_add_right _ _), rfl⟩
  rw [if_neg (fun h => hover (hany.mp h))]
  have hnine := all_nine_drop hdigits hn (not_le.mp hover)
  by_cases hfull : up = true ∧ strVal t + 1 = 10 ^ destPrec
  · right
    rw [hmag, hfull.1, hnine.mpr hfull.2, ← hfull.2]
    exact ⟨le_refl _, rfl⟩
  left
  have hless : strVal t + (if up then 1 else 0) < 10 ^ destPrec := by
    cases up with
    | false => exact not_le.mp hover
    | true => exact lt_of_le_of_ne (not_le.mp hover) fun h => hfull ⟨rfl, h⟩
  have hcond : (up && (t.drop (t.length - destPrec)).all (fun c => c = '9')) = false := by
    rw [Bool.eq_false_iff, Ne, Bool.and_eq_true, hnine]
    exact hfull
  rw [hcond, if_neg (by decide), hmag]
  have hpow : 10 ^ destPrec <= 10 ^ dbMaxNumericPrecision :=
    Nat.pow_le_pow_right (by decide) hprec
  have hsize := pow_precision_lt
  rcases numericCoerceDecStrToNum_value hdigits (by omega) false with ⟨hrlen, hrval⟩
  rcases beInt_rounded up hrlen hrval (by omega) with ⟨hulen, huval⟩
  refine ⟨hless, _, rfl, (length_signed _ _).trans hulen, ?_⟩
  apply beInt_signed huval (numericIsNegative_eq x.buf_ne_nil)
  intro (hzero : x.toInt = 0)
  rw [← hmag, x.magnitudeAt_eq_zero hzero]

theorem numericCoerceNumToNum_up (hle : x.scale <= scale) :
    ((x.rescaled scale).natAbs < 10 ^ dbMaxNumericPrecision ∧
      exists r, numericCoerceNumToNum x.buf x.precision x.scale dbMaxNumericPrecision scale =
        .ok r ∧ r.length = dbNumericBufSize ∧ beInt r = x.rescaled scale) ∨
    (10 ^ dbMaxNumericPrecision <= (x.rescaled scale).natAbs ∧
      numericCoerceNumToNum x.buf x.precision x.scale dbMaxNumericPrecision scale =
        .error .numOverflow) := by
  have hspec := numericCoerceNumToNum_spec x scale (le_refl dbMaxNumericPrecision)
  rwa [x.magnitudeAt_of_le hle, ← x.sign_rescaled scale, Int.sign_mul_natAbs] at hspec

/-!
## The common domain
-/

/-- The second pair are the values of the first pair at the larger of the two scales. -/
structure Aligned (x y x' y' : Numeric) : Prop where
  scale_left : x'.scale = max x.scale y.scale
  scale_right : y'.scale = max x.scale y.scale
  precision : x'.precision = y'.precision
  toInt_left : x'.toInt = x.rescaled (max x.scale y.scale)
  toInt_right : y'.toInt = y.rescaled (max x.scale y.scale)

theorem makeNumeric_wellFormed {num : List UInt8} {precision : Nat} (hprec : 1 <= precision)
    (hmax : precision <= dbMaxNumericPrecision) (hscale : scale <= precision)
    (hlen : num.length = dbNumericBufSize) (hbound : (beInt num).natAbs < 10 ^ precision) :
    exists z : Numeric, makeNumeric num precision scale = .ok z.toDbValue ∧
      z.toInt = beInt num ∧ z.scale = scale ∧ z.precision = precision := by
  rcases dbMakeNumeric_wellFormed hprec hmax hscale hlen hbound with ⟨z, hz, hrest⟩
  refine ⟨z, ?_, hrest⟩
  rw [makeNumeric, hz]

theorem makeCommon_aligned {x y : Numeric} {num1 num2 : List UInt8} {cprec : Nat}
    (hscale : scale = max x.scale y.scale) (hmax : cprec <= dbMaxNumericPrecision)
    (hx : x.precision + (scale - x.scale) <= cprec)
    (hy : y.precision + (scale - y.scale) <= cprec) (hlen1 : num1.length = dbNumericBufSize)
    (hlen2 : num2.length = dbNumericBufSize) (hint1 : beInt num1 = x.rescaled scale)
    (hint2 : beInt num2 = y.rescaled scale) :
    exists x' y' : Numeric,
      makeCommon num1 num2 cprec scale = .ok (x'.toDbValue, y'.toDbValue) ∧ Aligned x y x' y' := by
  have hxp := x.precision_pos
  have hxs := x.scale_le
  have hprec : 1 <= cprec := by omega
  have hle : scale <= cprec := by omega
  have hb1 := x.rescaled_bound_of_le hx
  have hb2 := y.rescaled_bound_of_le hy
  rcases makeNumeric_wellFormed hprec hmax hle hlen1 (by rwa [hint1]) with
    ⟨x', hx', hxint, hxscale, hxprec⟩
  rcases makeNumeric_wellFormed hprec hmax hle hlen2 (by rwa [hint2]) with
    ⟨y', hy', hyint, hyscale, hyprec⟩
  refine ⟨x', y', ?_, ⟨?_, ?_, ?_, ?_, ?_⟩⟩
  · rw [makeCommon, hx', hy']
    rfl
  · rw [hxscale, hscale]
  · rw [hyscale, hscale]
  · rw [hxprec, hyprec]
  · rw [hxint, hint1, hscale]
  · rw [hyint, hint2, hscale]

theorem numericScaleDec_rescaled (scale : Nat)
    (hp : x.precision + (scale - x.scale) <= dbMaxNumericPrecision) :
    exists r, (numericScaleDec x.buf (scale - x.scale)).2 = r ∧ r.length = dbNumericBufSize ∧
      beInt r = x.rescaled scale := by
  have hbound := x.rescaled_bound scale
  rw [x.natAbs_rescaled] at hbound
  have hpow : 10 ^ (x.precision + (scale - x.scale)) <= 10 ^ dbMaxNumericPrecision :=
    Nat.pow_le_pow_right (by decide) hp
  have hfits : 2 * ((beInt x.buf).natAbs * 10 ^ (scale - x.scale)) < 256 ^ x.buf.length := by
    rw [x.buf_length]
    exact lt_of_le_of_lt (Nat.mul_le_mul_left 2 (le_trans hbound.le hpow)) pow_precision_lt
  rcases numericScaleDecLong_exact x.buf_ne_nil hfits with ⟨r, hr, hlen, hval⟩
  refine ⟨r, ?_, hlen.trans x.buf_length, hval⟩
  rw [numericScaleDec, hr]

variable (y : Numeric)

theorem numericCommonPrecScale_numeric :
    numericCommonPrecScale x.toDbValue y.toDbValue =
      if x.scale = y.scale then
        makeCommon x.buf y.buf (max x.precision y.precision) x.scale
      else if x.scale < y.scale then
        if y.scale - x.scale + x.precision > dbMaxNumericPrecision then .error .numOverflow
        else
          makeCommon (numericScaleDec x.buf (y.scale - x.scale)).2 y.buf
            (max (y.scale - x.scale + x.precision) y.precision) y.scale
      else
        if x.scale - y.scale + y.precision > dbMaxNumericPrecision then .error .numOverflow
        else
          makeCommon x.buf (numericScaleDec y.buf (x.scale - y.scale)).2
            (max x.precision (x.scale - y.scale + y.precision)) x.scale :=
  rfl

theorem numericCommonPrecScale_spec :
    (exists x' y' : Numeric, numericCommonPrecScale x.toDbValue y.toDbValue =
      .ok (x'.toDbValue, y'.toDbValue) ∧ Aligned x y x' y') ∨
    numericCommonPrecScale x.toDbValue y.toDbValue = .error .numOverflow := by
  have hxp := x.precision_le
  have hyp := y.precision_le
  rw [numericCommonPrecScale_numeric]
  rcases lt_trichotomy x.scale y.scale with hlt | heq | hgt
  · rw [if_neg hlt.ne, if_pos hlt]
    by_cases hover : y.scale - x.scale + x.precision > dbMaxNumericPrecision
    · right
      rw [if_pos hover]
    left
    rw [if_neg hover]
    rcases numericScaleDec_rescaled x y.scale (by omega) with
      ⟨r, hr, hrlen, hrval⟩
    rw [hr]
    exact makeCommon_aligned (max_eq_right hlt.le).symm (by omega) (by omega) (by omega)
      hrlen y.buf_length hrval y.rescaled_self.symm
  · left
    rw [if_pos heq]
    have hy : beInt y.buf = y.rescaled x.scale := by
      rw [heq, y.rescaled_self]
      rfl
    exact makeCommon_aligned (max_eq_left heq.ge).symm (by omega) (by omega) (by omega)
      x.buf_length y.buf_length x.rescaled_self.symm hy
  · rw [if_neg hgt.ne', if_neg (not_lt.mpr hgt.le)]
    by_cases hover : x.scale - y.scale + y.precision > dbMaxNumericPrecision
    · right
      rw [if_pos hover]
    left
    rw [if_neg hover]
    rcases numericScaleDec_rescaled y x.scale (by omega) with
      ⟨r, hr, hrlen, hrval⟩
    rw [hr]
    exact makeCommon_aligned (max_eq_left hgt.le).symm (by omega) (by omega) (by omega)
      x.buf_length hrlen x.rescaled_self.symm hrval

theorem numericPrecScaleWhenOverflow_spec :
    let scale := max x.scale y.scale
    ((x.rescaled scale).natAbs < 10 ^ dbMaxNumericPrecision ∧
      (y.rescaled scale).natAbs < 10 ^ dbMaxNumericPrecision ∧
      exists x' y' : Numeric, numericPrecScaleWhenOverflow x.toDbValue y.toDbValue =
        .ok (x'.toDbValue, y'.toDbValue) ∧ Aligned x y x' y') ∨
    ((10 ^ dbMaxNumericPrecision <= (x.rescaled scale).natAbs ∨
        10 ^ dbMaxNumericPrecision <= (y.rescaled scale).natAbs) ∧
      numericPrecScaleWhenOverflow x.toDbValue y.toDbValue = .error .numOverflow) := by
  intro scale
  have hmax : scale <= dbMaxNumericPrecision := max_le x.scale_le_max y.scale_le_max
  have hrun : numericPrecScaleWhenOverflow x.toDbValue y.toDbValue = do
      let temp <- numericCoerceNumToNum x.buf x.precision x.scale dbMaxNumericPrecision scale
      let common1 <- makeNumeric temp dbMaxNumericPrecision scale
      let temp <- numericCoerceNumToNum y.buf y.precision y.scale dbMaxNumericPrecision scale
      let common2 <- makeNumeric temp dbMaxNumericPrecision scale
      return (common1, common2) :=
    rfl
  rw [hrun]
  rcases numericCoerceNumToNum_up x (show x.scale <= scale from Nat.le_max_left _ _) with
    ⟨hx, r1, hr1, hlen1, hval1⟩ | ⟨hx, hr1⟩
  · rw [hr1]
    rcases makeNumeric_wellFormed (by decide) (le_refl _) hmax hlen1 (by rwa [hval1]) with
      ⟨x', hx', hxint, hxscale, hxprec⟩
    rcases numericCoerceNumToNum_up y (show y.scale <= scale from Nat.le_max_right _ _) with
      ⟨hy, r2, hr2, hlen2, hval2⟩ | ⟨hy, hr2⟩
    · left
      rcases makeNumeric_wellFormed (by decide) (le_refl _) hmax hlen2 (by rwa [hval2]) with
        ⟨y', hy', hyint, hyscale, hyprec⟩
      refine ⟨hx, hy, x', y', ?_, hxscale, hyscale, ?_, ?_, ?_⟩
      · rw [hr2]
        simp only [bind, Except.bind, hx', hy']
        rfl
      · rw [hxprec, hyprec]
      · rw [hxint, hval1]
      · rw [hyint, hval2]
    · right
      refine ⟨.inr hy, ?_⟩
      rw [hr2]
      simp only [bind, Except.bind, hx']
  · right
    refine ⟨.inl hx, ?_⟩
    rw [hr1]
    rfl

theorem commonDomain_spec :
    let scale := max x.scale y.scale
    (Fits (x.rescaled scale) ∧ Fits (y.rescaled scale) ∧
      exists x' y' : Numeric, commonDomain x.toDbValue y.toDbValue =
        .ok (x'.toDbValue, y'.toDbValue) ∧ Aligned x y x' y') ∨
    (¬ (Fits (x.rescaled scale) ∧ Fits (y.rescaled scale)) ∧
      commonDomain x.toDbValue y.toDbValue = .error .numOverflow) := by
  intro scale
  unfold commonDomain
  rcases numericCommonPrecScale_spec x y with ⟨x', y', hok, hal⟩ | hover
  · left
    refine ⟨?_, ?_, x', y', ?_, hal⟩
    · rw [← hal.toInt_left]
      exact x'.bounded_max
    · rw [← hal.toInt_right]
      exact y'.bounded_max
    · rw [hok]
  · rw [hover]
    rcases numericPrecScaleWhenOverflow_spec x y with ⟨hx, hy, hok⟩ | ⟨hlost, herr⟩
    · left
      exact ⟨hx, hy, hok⟩
    right
    refine ⟨?_, herr⟩
    rintro ⟨hx, hy⟩
    rcases hlost with hlost | hlost
    · exact absurd hx (not_lt.mpr hlost)
    · exact absurd hy (not_lt.mpr hlost)

/-!
## The result
-/

section

variable {op : List UInt8 -> List UInt8 -> List UInt8} {f : Int -> Int -> Int}

/-- An operation on buffers that computes `f` modulo the size of the buffer. -/
structure ComputesModulo (op : List UInt8 -> List UInt8 -> List UInt8)
    (f : Int -> Int -> Int) : Prop where
  length {a b : List UInt8} (h : a.length = b.length) : (op a b).length = a.length
  emod {a b : List UInt8} (h : a.length = b.length) :
    beInt (op a b) % (256 ^ a.length : Nat) = f (beInt a) (beInt b) % (256 ^ a.length : Nat)
  bound (u v : Int) : (f u v).natAbs <= u.natAbs + v.natAbs

theorem combine_aligned (hop : ComputesModulo op f) {x y x' y' : Numeric}
    (hcommon : commonDomain x.toDbValue y.toDbValue = .ok (x'.toDbValue, y'.toDbValue))
    (hprec : x'.precision = y'.precision) :
    (Fits (f x'.toInt y'.toInt) ∧
      exists z : Numeric, combine op x.toDbValue y.toDbValue = (.noError, z.toDbValue) ∧
        z.toInt = f x'.toInt y'.toInt ∧ z.scale = x'.scale) ∨
    (¬ Fits (f x'.toInt y'.toInt) ∧ (combine op x.toDbValue y.toDbValue).1 = .numOverflow) := by
  let temp := op x'.buf y'.buf
  have hsame : x'.buf.length = y'.buf.length := by rw [x'.buf_length, y'.buf_length]
  have htemp : temp.length = dbNumericBufSize := (hop.length hsame).trans x'.buf_length
  have hmod : beInt temp % (256 ^ dbNumericBufSize : Nat) =
      f x'.toInt y'.toInt % (256 ^ dbNumericBufSize : Nat) := by
    rw [← x'.buf_length]
    exact hop.emod hsame
  have hrun : combine op x.toDbValue y.toDbValue = makeAnswer temp x'.precision x'.scale := by
    rw [combine, hcommon]
    rfl
  have hsum := hop.bound x'.toInt y'.toInt
  have hx := x'.bounded
  have hy := y'.bounded
  rw [← hprec] at hy
  have htwice : (f x'.toInt y'.toInt).natAbs < 2 * 10 ^ x'.precision := by
    unfold toInt at hsum ⊢
    omega
  have hpow : 10 ^ x'.precision <= 10 ^ dbMaxNumericPrecision :=
    Nat.pow_le_pow_right (by decide) x'.precision_le
  rw [hrun]
  apply makeAnswer_spec htemp hmod (by omega) x'.precision_pos x'.precision_le x'.scale_le
  intro _
  rw [Nat.pow_succ]
  omega

theorem combine_spec (hop : ComputesModulo op f) (x y : Numeric) :
    let scale := max x.scale y.scale
    let total := f (x.rescaled scale) (y.rescaled scale)
    (Fits (x.rescaled scale) ∧ Fits (y.rescaled scale) ∧ Fits total ∧
      exists z : Numeric, combine op x.toDbValue y.toDbValue = (.noError, z.toDbValue) ∧
        z.toInt = total ∧ z.scale = scale) ∨
    (¬ (Fits (x.rescaled scale) ∧ Fits (y.rescaled scale) ∧ Fits total) ∧
      (combine op x.toDbValue y.toDbValue).1 = .numOverflow) := by
  intro scale total
  rcases commonDomain_spec x y with ⟨hx, hy, x', y', hcommon, hal⟩ | ⟨hlost, herr⟩
  · have htotal : f x'.toInt y'.toInt = total := by
      rw [hal.toInt_left, hal.toInt_right]
    have hcombined := combine_aligned hop hcommon hal.precision
    rw [htotal, hal.scale_left] at hcombined
    rcases hcombined with ⟨hfits, hok⟩ | ⟨hfits, herr⟩
    · left
      exact ⟨hx, hy, hfits, hok⟩
    · right
      exact ⟨fun h => hfits h.2.2, herr⟩
  · right
    refine ⟨fun h => hlost ⟨h.1, h.2.1⟩, ?_⟩
    rw [combine, herr]
    rfl

/-- A result at scale `scale` that is the exact number, and an error when digits are lacking. -/
structure ExactAt (result : ErrorCode × DbValue) (scale : Nat) (value : ℚ)
    (fits : Prop) : Prop where
  answer : result.1 = .noError ->
    exists z : Numeric, result.2 = z.toDbValue ∧ z.scale = scale ∧ z.toRat = value
  failure : result.1 ≠ .noError <-> ¬ fits

theorem combine_exactAt (hop : ComputesModulo op f) {g : ℚ -> ℚ -> ℚ}
    (hg : forall (u v : Int) (d : ℚ), (f u v : ℚ) / d = g (u / d) (v / d)) (x y : Numeric) :
    let scale := max x.scale y.scale
    let u := x.rescaled scale
    let v := y.rescaled scale
    ExactAt (combine op x.toDbValue y.toDbValue) scale (g x.toRat y.toRat)
      (Fits u ∧ Fits v ∧ Fits (f u v)) := by
  intro scale u v
  have hx := x.toRat_eq_rescaled (show x.scale <= scale from Nat.le_max_left _ _)
  have hy := y.toRat_eq_rescaled (show y.scale <= scale from Nat.le_max_right _ _)
  rcases combine_spec hop x y with ⟨hu, hv, huv, z, hz, hzint, hzscale⟩ | ⟨hlost, herr⟩
  · rw [hz]
    refine ⟨fun _ => ⟨z, rfl, hzscale, ?_⟩, ?_⟩
    · rw [toRat, hzint, hzscale, hx, hy, hg]
    · exact ⟨fun h => absurd rfl h, fun h => absurd ⟨hu, hv, huv⟩ h⟩
  · refine ⟨fun h => ?_, fun _ => hlost, fun _ => ?_⟩
    · rw [herr] at h
      cases h
    · rw [herr]
      decide

end

theorem numericAdd_computes : ComputesModulo numericAdd (fun u v => u + v) where
  length := length_numericAdd
  emod := beInt_numericAdd_emod
  bound u v := Int.natAbs_add_le u v

theorem numericSub_computes : ComputesModulo numericSub (fun u v => u - v) where
  length h := by
    rw [numericSub, length_numericAdd]
    rw [length_numericNegate, h]
  emod := beInt_numericSub_emod
  bound u v := Int.natAbs_sub_le u v

/-- Addition and subtraction are exact, and fail only for lack of digits. -/
theorem numericDbValueAdd_sub_exact (x y : Numeric) :
    let scale := max x.scale y.scale
    let u := x.rescaled scale
    let v := y.rescaled scale
    ExactAt (numericDbValueAdd (some x.toDbValue) (some y.toDbValue)) scale
        (x.toRat + y.toRat) (Fits u ∧ Fits v ∧ Fits (u + v)) ∧
      ExactAt (numericDbValueSub (some x.toDbValue) (some y.toDbValue)) scale
        (x.toRat - y.toRat) (Fits u ∧ Fits v ∧ Fits (u - v)) := by
  constructor
  · exact combine_exactAt numericAdd_computes (fun u v d => by rw [Int.cast_add, add_div]) x y
  · exact combine_exactAt numericSub_computes (fun u v d => by rw [Int.cast_sub, sub_div]) x y

end Rye.Query
