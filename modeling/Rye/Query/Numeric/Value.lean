import Rye.Query.Numeric.Coerce

/-!
# Numeric values

A `DB_VALUE` carries its domain (the type, the precision and the scale), a null
flag and the data.  The numeric routines take such values and hand back an error
code together with the answer.

`Numeric` collects the values that are well formed: the integer in the buffer
needs at most `precision` digits, and the scale is at most the precision.  The
number meant is that integer divided by a power of ten.
-/

namespace Rye.Query

open Foundation

inductive DbType where
  | null
  | integer
  | double
  | varchar
  | object
  | sequence
  | time
  | date
  | variable
  | sub
  | oid
  | numeric
  | varbit
  | resultset
  | table
  | bigint
  | datetime
deriving DecidableEq, Repr

inductive DbData where
  | none
  | num (buf : List UInt8)
  | int (i : Int)
deriving DecidableEq, Repr

structure DbValue where
  domainType : DbType
  isNull : Bool
  precision : Nat
  scale : Nat
  data : DbData
deriving DecidableEq, Repr

namespace DbValue

def null : DbValue :=
  { domainType := .null, isNull := true, precision := 0, scale := 0, data := .none }

/-- A null value has the null type, whatever its domain. -/
def type (v : DbValue) : DbType :=
  if v.isNull then .null else v.domainType

def ofNumeric (precision scale : Nat) (buf : List UInt8) : DbValue :=
  { domainType := .numeric
    isNull := false
    precision := precision
    scale := scale
    data := .num buf }

def locateNumeric (v : DbValue) : List UInt8 :=
  match v.data with
  | .num buf => buf
  | _ => []

end DbValue

def dbDefaultPrecision : Int := -1
def dbDefaultScale : Int := -1

/-- The initialisation for the numeric type; the fields are unsigned characters. -/
def dbValueDomainInit (precision scale : Int) : ErrorCode × DbValue :=
  let invalid := precision ≠ dbDefaultPrecision ∧
    (precision <= 0 ∨ precision > dbMaxNumericPrecision)
  let value : DbValue :=
    { domainType := .numeric
      isNull := true
      precision :=
        if invalid ∨ precision = dbDefaultPrecision then dbMaxNumericPrecision
        else (precision % 256).toNat
      scale := if invalid ∨ scale = dbDefaultScale then 0 else (scale % 256).toNat
      data := .none }
  (if invalid then .invalidPrecision else .noError, value)

def nullNumeric : DbValue :=
  (dbValueDomainInit dbDefaultPrecision dbDefaultScale).2

def dbMakeNumeric (num : List UInt8) (precision scale : Int) : ErrorCode × DbValue :=
  match dbValueDomainInit precision scale with
  | (.noError, value) =>
    (.noError, { value with isNull := false, data := .num (num.take dbNumericBufSize) })
  | failure => failure

/-- The checks at the start of the binary operations; `nullAnswer` answers null values. -/
def numericArguments (nullAnswer : DbValue) (dbv1 dbv2 : Option DbValue) :
    Except (ErrorCode × DbValue) (DbValue × DbValue) :=
  match dbv1, dbv2 with
  | some v1, some v2 =>
    if v1.type ≠ .numeric then .error (.objInvalidArguments, .null)
    else if v2.type ≠ .numeric then .error (.objInvalidArguments, .null)
    else if v1.isNull ∨ v2.isNull then .error (.noError, nullAnswer)
    else .ok (v1, v2)
  | _, _ => .error (.objInvalidArguments, .null)

def withNumerics (dbv1 dbv2 : Option DbValue)
    (body : DbValue -> DbValue -> ErrorCode × DbValue) : ErrorCode × DbValue :=
  match numericArguments nullNumeric dbv1 dbv2 with
  | .error result => result
  | .ok (v1, v2) => body v1 v2

/-- The label `exit_on_error`. -/
def exitOnError (ret : ErrorCode) : ErrorCode × DbValue :=
  (ret, nullNumeric)

/-- The answer with one more digit of precision if it needs it. -/
def makeAnswer (temp : List UInt8) (prec scale : Nat) : ErrorCode × DbValue :=
  if numericOverflow temp prec then
    if prec < dbMaxNumericPrecision then dbMakeNumeric temp (prec + 1 : Nat) scale
    else exitOnError .numOverflow
  else dbMakeNumeric temp prec scale

/-!
## Well-formed values
-/

structure Numeric where
  precision : Nat
  scale : Nat
  buf : List UInt8
  precision_pos : 1 <= precision
  precision_le : precision <= dbMaxNumericPrecision
  scale_le : scale <= precision
  buf_length : buf.length = dbNumericBufSize
  bounded : (beInt buf).natAbs < 10 ^ precision

namespace Numeric

def toDbValue (x : Numeric) : DbValue :=
  .ofNumeric x.precision x.scale x.buf

def toInt (x : Numeric) : Int :=
  beInt x.buf

def toRat (x : Numeric) : ℚ :=
  x.toInt / 10 ^ x.scale

def rescaled (x : Numeric) (scale : Nat) : Int :=
  x.toInt * 10 ^ (scale - x.scale)

variable (x : Numeric)

theorem buf_ne_nil : x.buf ≠ [] :=
  Query.buf_ne_nil x.buf_length

theorem scale_le_max : x.scale <= dbMaxNumericPrecision :=
  le_trans x.scale_le x.precision_le

theorem bounded_max : x.toInt.natAbs < 10 ^ dbMaxNumericPrecision :=
  lt_of_lt_of_le x.bounded (Nat.pow_le_pow_right (by decide) x.precision_le)

theorem toRat_eq_rescaled {scale : Nat} (h : x.scale <= scale) :
    x.toRat = x.rescaled scale / 10 ^ scale := by
  have hten : (10 : ℚ) ≠ 0 := by norm_num
  unfold toRat rescaled
  rw [Int.cast_mul, Int.cast_pow, Int.cast_ofNat, div_eq_div_iff (pow_ne_zero _ hten)
    (pow_ne_zero _ hten), mul_assoc, ← pow_add, Nat.sub_add_cancel h]

@[simp] theorem rescaled_self : x.rescaled x.scale = x.toInt := by
  rw [rescaled, Nat.sub_self, pow_zero, mul_one]

variable (scale : Nat)

theorem sign_rescaled : (x.rescaled scale).sign = x.toInt.sign := by
  have hpow : (0 : Int) < 10 ^ (scale - x.scale) := by positivity
  rw [rescaled, Int.sign_mul, Int.sign_eq_one_of_pos hpow, mul_one]

theorem natAbs_rescaled : (x.rescaled scale).natAbs = x.toInt.natAbs * 10 ^ (scale - x.scale) := by
  rw [rescaled, Int.natAbs_mul, Int.natAbs_pow]
  rfl

theorem rescaled_bound : (x.rescaled scale).natAbs < 10 ^ (x.precision + (scale - x.scale)) := by
  rw [natAbs_rescaled, pow_add]
  exact Nat.mul_lt_mul_of_pos_right x.bounded (by positivity)

theorem rescaled_bound_of_le {scale prec : Nat} (h : x.precision + (scale - x.scale) <= prec) :
    (x.rescaled scale).natAbs < 10 ^ prec :=
  lt_of_lt_of_le (x.rescaled_bound scale) (Nat.pow_le_pow_right (by decide) h)

end Numeric

/-- A number rounded to `scale` digits behind the point. -/
def atScale (rule : ℚ -> Int) (scale : Nat) (q : ℚ) : ℚ :=
  rule (q * 10 ^ scale) / 10 ^ scale

theorem pow_precision_lt : 2 * 10 ^ dbMaxNumericPrecision < 256 ^ dbNumericBufSize := by
  decide

variable {precision scale : Nat} {num : List UInt8}

theorem dbMakeNumeric_eq (hprec : 1 <= precision) (hmax : precision <= dbMaxNumericPrecision)
    (hscale : scale <= dbMaxNumericPrecision) (hlen : num.length = dbNumericBufSize) :
    dbMakeNumeric num precision scale = (.noError, .ofNumeric precision scale num) := by
  have h38 : dbMaxNumericPrecision = 38 := rfl
  have hvalid : ¬ ((precision : Int) ≠ dbDefaultPrecision ∧
      ((precision : Int) <= 0 ∨ (precision : Int) > (dbMaxNumericPrecision : Nat))) := by
    omega
  have hp : (precision : Int) ≠ dbDefaultPrecision := by
    unfold dbDefaultPrecision
    omega
  have hs : (scale : Int) ≠ dbDefaultScale := by
    unfold dbDefaultScale
    omega
  have hpmod : ((precision : Int) % 256).toNat = precision := by omega
  have hsmod : ((scale : Int) % 256).toNat = scale := by omega
  have hinit : dbValueDomainInit precision scale = (.noError,
      { domainType := .numeric, isNull := true, precision := precision, scale := scale,
        data := .none }) := by
    simp only [dbValueDomainInit, hvalid, hp, hs, hpmod, hsmod, or_false, if_false]
  rw [dbMakeNumeric, hinit, List.take_of_length_le (le_of_eq hlen)]
  rfl

def Numeric.ofInt (v : Int) (precision scale : Nat) (hpos : 1 <= precision)
    (hmax : precision <= dbMaxNumericPrecision) (hscale : scale <= precision)
    (hbound : v.natAbs < 10 ^ precision) : Numeric where
  precision := precision
  scale := scale
  buf := integerBytes dbNumericBufSize v
  precision_pos := hpos
  precision_le := hmax
  scale_le := hscale
  buf_length := length_integerBytes (le_refl _) v
  bounded := by
    have hpow : 10 ^ precision <= 10 ^ dbMaxNumericPrecision :=
      Nat.pow_le_pow_right (by decide) hmax
    have hsize := pow_precision_lt
    rwa [beInt_integerBytes (le_refl _) (by omega) (by omega)]

theorem Numeric.toInt_ofInt {v : Int} {hpos : 1 <= precision}
    {hmax : precision <= dbMaxNumericPrecision} {hscale : scale <= precision}
    {hbound : v.natAbs < 10 ^ precision} :
    (Numeric.ofInt v precision scale hpos hmax hscale hbound).toInt = v := by
  have hpow : 10 ^ precision <= 10 ^ dbMaxNumericPrecision :=
    Nat.pow_le_pow_right (by decide) hmax
  have hsize := pow_precision_lt
  exact beInt_integerBytes (le_refl _) (by omega) (by omega)

/-- What `DB_MAKE_NUMERIC` stores is a well-formed value if the digits fit. -/
theorem dbMakeNumeric_wellFormed (hprec : 1 <= precision)
    (hmax : precision <= dbMaxNumericPrecision) (hscale : scale <= precision)
    (hlen : num.length = dbNumericBufSize) (hbound : (beInt num).natAbs < 10 ^ precision) :
    exists z : Numeric, dbMakeNumeric num precision scale = (.noError, z.toDbValue) ∧
      z.toInt = beInt num ∧ z.scale = scale ∧ z.precision = precision := by
  refine ⟨⟨precision, scale, num, hprec, hmax, hscale, hlen, hbound⟩, ?_, rfl, rfl, rfl⟩
  exact dbMakeNumeric_eq hprec hmax (le_trans hscale hmax) hlen

theorem Numeric.toDbValue_injective {x y : Numeric} (h : x.toDbValue = y.toDbValue) : x = y := by
  have hprec : x.precision = y.precision := congrArg DbValue.precision h
  have hscale : x.scale = y.scale := congrArg DbValue.scale h
  have hbuf : x.buf = y.buf := DbData.num.inj (congrArg DbValue.data h)
  cases x
  cases y
  cases hprec
  cases hscale
  cases hbuf
  rfl

theorem bounded_of_toDbValue_eq {z : Numeric} (h : z.toDbValue = .ofNumeric precision scale num) :
    (beInt num).natAbs < 10 ^ precision := by
  have hbuf : z.buf = num := DbData.num.inj (congrArg DbValue.data h)
  have hprec : z.precision = precision := congrArg DbValue.precision h
  rw [← hbuf, ← hprec]
  exact z.bounded

/-!
## Answers
-/

def Fits (n : Int) : Prop :=
  n.natAbs < 10 ^ dbMaxNumericPrecision

theorem wrapped_fits {r : List UInt8} (hlen : r.length = dbNumericBufSize) {t : Int}
    (hmod : beInt r % (256 ^ dbNumericBufSize : Nat) = t % (256 ^ dbNumericBufSize : Nat))
    (ht : t.natAbs < 2 * 10 ^ dbMaxNumericPrecision) :
    (Fits t -> beInt r = t) ∧ (¬ Fits t -> ¬ Fits (beInt r)) := by
  have hlt := beNat_lt r
  have hcases := beInt_cases r
  rw [hlen] at hlt hcases
  have hzero : (beInt r - t) % (256 ^ dbNumericBufSize : Nat) = 0 :=
    Int.emod_eq_emod_iff_emod_sub_eq_zero.mp hmod
  rcases Int.dvd_of_emod_eq_zero hzero with ⟨q, hq⟩
  have hsize : 256 ^ dbNumericBufSize = 340282366920938463463374607431768211456 := rfl
  have hten : 10 ^ dbMaxNumericPrecision = 100000000000000000000000000000000000000 := rfl
  unfold Fits
  rw [hsize] at hq hcases hlt
  rw [hten] at ht ⊢
  constructor
  · intro hfits
    rcases hcases with ⟨_, hr⟩ | ⟨_, hr⟩ <;> omega
  · intro hfits
    rcases hcases with ⟨_, hr⟩ | ⟨_, hr⟩ <;> omega

theorem makeAnswer_spec {temp : List UInt8} (hlen : temp.length = dbNumericBufSize) {t : Int}
    (hmod : beInt temp % (256 ^ dbNumericBufSize : Nat) = t % (256 ^ dbNumericBufSize : Nat))
    (ht : t.natAbs < 2 * 10 ^ dbMaxNumericPrecision) {prec : Nat} (hpos : 1 <= prec)
    (hmax : prec <= dbMaxNumericPrecision) (hscale : scale <= prec)
    (hroom : prec < dbMaxNumericPrecision -> t.natAbs < 10 ^ (prec + 1)) :
    (Fits t ∧ exists z : Numeric, makeAnswer temp prec scale = (.noError, z.toDbValue) ∧
      z.toInt = t ∧ z.scale = scale) ∨
    (¬ Fits t ∧ (makeAnswer temp prec scale).1 = .numOverflow) := by
  rcases wrapped_fits hlen hmod ht with ⟨hexact, hlost⟩
  have hpow : 10 ^ prec <= 10 ^ dbMaxNumericPrecision :=
    Nat.pow_le_pow_right (by decide) hmax
  unfold makeAnswer
  rw [numericOverflow_eq hlen hmax]
  by_cases hfits : Fits t
  · left
    have hval : beInt temp = t := hexact hfits
    refine ⟨hfits, ?_⟩
    by_cases hover : 10 ^ prec <= (beInt temp).natAbs
    · have hlt : prec < dbMaxNumericPrecision := by
        by_contra hge
        have heq : prec = dbMaxNumericPrecision := by omega
        rw [hval, heq] at hover
        exact absurd hfits (not_lt.mpr hover)
      have hnext := hroom hlt
      rw [← hval] at hnext
      rw [decide_eq_true hover, if_pos rfl, if_pos hlt]
      rcases dbMakeNumeric_wellFormed (Nat.le_add_left 1 _) hlt (Nat.le_succ_of_le hscale) hlen
        hnext with ⟨z, hz, hzint, hzscale, _⟩
      exact ⟨z, hz, hzint.trans hval, hzscale⟩
    · rw [decide_eq_false hover, if_neg (by decide)]
      rcases dbMakeNumeric_wellFormed hpos hmax hscale hlen (not_le.mp hover) with
        ⟨z, hz, hzint, hzscale, _⟩
      exact ⟨z, hz, hzint.trans hval, hzscale⟩
  · right
    refine ⟨hfits, ?_⟩
    have htoo : 10 ^ dbMaxNumericPrecision <= (beInt temp).natAbs := not_lt.mp (hlost hfits)
    have hnotlt : ¬ prec < dbMaxNumericPrecision := by
      intro hlt
      have hstep : 10 ^ (prec + 1) <= 10 ^ dbMaxNumericPrecision :=
        Nat.pow_le_pow_right (by decide) hlt
      exact hfits (lt_of_lt_of_le (hroom hlt) hstep)
    rw [decide_eq_true (le_trans hpow htoo), if_pos rfl, if_neg hnotlt]
    rfl

end Rye.Query
