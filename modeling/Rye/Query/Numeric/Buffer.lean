import Mathlib.Data.Int.Order.Units
import Rye.Foundation.Bytes

/-!
# Numeric buffers

A `DB_C_NUMERIC` is a buffer of 16 bytes that holds a two's complement
integer, most significant byte first.  Some routines work on long numerics of
twice that size; the flag `is_long_num` by which they tell the two apart is
the length of the buffer here.

Each routine is followed by the equation it satisfies between the integers the
buffers stand for.
-/

namespace Rye.Query

open Foundation List

inductive ErrorCode where
  | noError
  | numOverflow
  | invalidPrecision
  | objInvalidArguments
  | domainIncompatible
  | failed
deriving DecidableEq, Repr

def dbNumericBufSize : Nat := 16
def dbLongNumericMultiplier : Nat := 2
def dbMaxNumericPrecision : Nat := 38

variable {a b : List UInt8}

theorem buf_ne_nil (h : a.length = dbNumericBufSize) : a ≠ [] := by
  rintro rfl
  cases h

/-!
## Sign, negation and magnitude
-/

def numericIsNegative (arg : List UInt8) : Bool :=
  (arg.headD 0 &&& 0x80) != 0

def numericIncrease (answer : List UInt8) : List UInt8 :=
  (increase answer).1

def numericDecrease (answer : List UInt8) : List UInt8 :=
  (decrease answer).1

def numericNegate (answer : List UInt8) : List UInt8 :=
  numericIncrease (complement answer)

def numericDbValueAbs (src : List UInt8) : List UInt8 :=
  if numericIsNegative src then numericNegate src else src

theorem and_sign_eq (b : UInt8) : b &&& 0x80 = if 128 <= b.toNat then 0x80 else 0 := by
  have hall : forall n, n < 256 -> UInt8.ofNat n &&& 0x80 = if 128 <= n then 0x80 else 0 := by
    decide +kernel
  have hb := hall b.toNat b.toNat_lt
  rwa [UInt8.ofNat_toNat] at hb

theorem and_sign_bit (b : UInt8) : ((b &&& 0x80) != 0) = decide (128 <= b.toNat) := by
  rw [and_sign_eq]
  by_cases h : 128 <= b.toNat
  · rw [if_pos h, decide_eq_true h]
    rfl
  · rw [if_neg h, decide_eq_false h]
    rfl

variable {arg : List UInt8} {exp : Nat}

theorem numericIsNegative_iff (h : arg ≠ []) : numericIsNegative arg = true <-> beInt arg < 0 := by
  cases arg with
  | nil => exact absurd rfl h
  | cons b bs =>
    rw [beInt_neg_iff, sign_byte_iff, numericIsNegative, headD_cons, and_sign_bit,
      decide_eq_true_iff]

theorem numericIsNegative_eq (h : arg ≠ []) : numericIsNegative arg = decide (beInt arg < 0) := by
  rw [Bool.eq_iff_iff, numericIsNegative_iff h, decide_eq_true_iff]

@[simp] theorem length_numericIncrease (a : List UInt8) :
    (numericIncrease a).length = a.length :=
  length_increase a

@[simp] theorem length_numericDecrease (a : List UInt8) :
    (numericDecrease a).length = a.length :=
  length_decrease a

@[simp] theorem length_numericNegate (a : List UInt8) : (numericNegate a).length = a.length := by
  simp [numericNegate]

@[simp] theorem length_numericDbValueAbs (a : List UInt8) :
    (numericDbValueAbs a).length = a.length := by
  unfold numericDbValueAbs
  split <;> simp

theorem beNat_numericNegate (a : List UInt8) :
    beNat (numericNegate a) + beNat a = 256 ^ a.length ∨
      (beNat a = 0 ∧ beNat (numericNegate a) = 0) := by
  have hinc := increase_value (complement a)
  have hcomp := complement_value a
  have hlt := beNat_lt (numericNegate a)
  rw [length_numericNegate] at hlt
  rw [length_complement] at hinc
  unfold numericNegate numericIncrease at hlt ⊢
  split at hinc
  · right
    omega
  · left
    omega

theorem beNat_numericDbValueAbs (h : a ≠ []) : beNat (numericDbValueAbs a) = (beInt a).natAbs := by
  unfold numericDbValueAbs
  rw [numericIsNegative_eq h]
  have hneg := beNat_numericNegate a
  rcases beInt_cases a with ⟨hlow, heq⟩ | ⟨hhigh, heq⟩
  · rw [heq]
    have hnot : ¬ ((beNat a : Int) < 0) := by omega
    rw [decide_eq_false hnot]
    simp
  · have hlt0 : beInt a < 0 := (beInt_neg_iff a).mpr hhigh
    rw [decide_eq_true hlt0, if_pos rfl, heq]
    omega

theorem beInt_numericNegate (h : 2 * beNat a <= 256 ^ a.length) :
    beInt (numericNegate a) = -(beNat a : Int) := by
  refine beInt_eq_of_emod (length_numericNegate a) ?_ (by omega) ?_
  · rcases beNat_numericNegate a with hsum | ⟨hzero, hzero'⟩
    · have hcast : (beNat (numericNegate a) : Int) = -(beNat a : Int) + (256 ^ a.length : Nat) := by
        omega
      rw [hcast, Int.add_emod_right]
    · rw [hzero, hzero']
      rfl
  · have hpos : 0 < 256 ^ a.length := Nat.pow_pos (by decide)
    omega

theorem beInt_numericNegate_of_gt (h : -((256 ^ a.length : Nat) : Int) < 2 * beInt a) :
    beInt (numericNegate a) = -beInt a := by
  have hlt := beNat_lt a
  rcases beInt_cases a with ⟨hlow, heq⟩ | ⟨hhigh, heq⟩
  · rw [heq]
    exact beInt_numericNegate (by omega)
  rcases beNat_numericNegate a with hsum | ⟨hzero, _⟩
  · have hsmall : 2 * beNat (numericNegate a) < 256 ^ (numericNegate a).length := by
      rw [length_numericNegate]
      omega
    rw [beInt_of_small hsmall, heq]
    omega
  · omega

@[simp] theorem length_signed (a : List UInt8) (negative : Bool) :
    (if negative then numericNegate a else a).length = a.length := by
  cases negative <;> simp

/-- A magnitude `n` with the sign of `v` put to it. -/
theorem beInt_signed {n : Nat} {v : Int} {negative : Bool} (ha : beInt a = n)
    (hsign : negative = decide (v < 0)) (hzero : v = 0 -> n = 0) :
    beInt (if negative then numericNegate a else a) = v.sign * n := by
  have hpos : 0 < 256 ^ a.length := Nat.pow_pos (by decide)
  rcases lt_trichotomy v 0 with hneg | heq | hgt
  · rw [hsign, decide_eq_true hneg, if_pos rfl, beInt_numericNegate_of_gt (by omega), ha,
      Int.sign_eq_neg_one_of_neg hneg]
    omega
  · rw [hsign, heq, decide_eq_false (lt_irrefl 0), if_neg (by decide), ha, hzero heq]
    rfl
  · rw [hsign, decide_eq_false (by omega), if_neg (by decide), ha,
      Int.sign_eq_one_of_pos hgt, Int.one_mul]

/-!
## Addition and subtraction
-/

def numericAdd (arg1 arg2 : List UInt8) : List UInt8 :=
  (carryChain (fun p => p.1.toNat + p.2.toNat) (arg1.zip arg2)).2

def numericSub (arg1 arg2 : List UInt8) : List UInt8 :=
  numericAdd arg1 (numericNegate arg2)

theorem length_numericAdd (h : a.length = b.length) : (numericAdd a b).length = a.length := by
  simp [numericAdd, h]

theorem beNat_numericAdd (h : a.length = b.length) :
    beNat (numericAdd a b) = (beNat a + beNat b) % 256 ^ a.length := by
  unfold numericAdd
  rw [carryChain_mod]
  have hcols : (a.zip b).map (fun p => p.1.toNat + p.2.toNat) =
      List.zipWith (fun x y => x + y) (a.map UInt8.toNat) (b.map UInt8.toNat) := by
    rw [zipWith_map, List.zip, map_zipWith]
  rw [hcols, posVal_zipWith_add (by simpa using h)]
  simp [beNat, h]

theorem beInt_emod (a : List UInt8) :
    beInt a % (256 ^ a.length : Nat) = (beNat a : Int) % (256 ^ a.length : Nat) := by
  rw [beInt, Int.bmod_emod]

theorem beInt_eq_of_range {n : Nat} (hlen : a.length = n) {x : Int}
    (hmod : beInt a % (256 ^ n : Nat) = x % (256 ^ n : Nat))
    (hlow : -((256 ^ n : Nat) : Int) <= x * 2) (hhigh : x * 2 < (256 ^ n : Nat)) : beInt a = x := by
  have hval := beInt_emod a
  rw [hlen] at hval
  exact beInt_eq_of_emod hlen (hval.symm.trans hmod) hlow hhigh

theorem beInt_numericAdd_emod (h : a.length = b.length) :
    beInt (numericAdd a b) % (256 ^ a.length : Nat) =
      (beInt a + beInt b) % (256 ^ a.length : Nat) := by
  have hb := beInt_emod b
  have hsum := beInt_emod (numericAdd a b)
  rw [← h] at hb
  rw [length_numericAdd h] at hsum
  rw [hsum, beNat_numericAdd h, Int.natCast_emod, Int.natCast_add,
    Int.emod_emod_of_dvd _ (dvd_refl _), Int.add_emod, ← beInt_emod a, ← hb, ← Int.add_emod]

theorem beInt_numericNegate_emod (a : List UInt8) :
    beInt (numericNegate a) % (256 ^ a.length : Nat) = -beInt a % (256 ^ a.length : Nat) := by
  have hneg := beInt_emod (numericNegate a)
  rw [length_numericNegate] at hneg
  have hcast : (beNat (numericNegate a) : Int) % (256 ^ a.length : Nat) =
      -(beNat a : Int) % (256 ^ a.length : Nat) := by
    rcases beNat_numericNegate a with hsum | ⟨hzero, hzero'⟩
    · have hvalue : (beNat (numericNegate a) : Int) =
          -(beNat a : Int) + (256 ^ a.length : Nat) := by
        omega
      rw [hvalue, Int.add_emod_right]
    · rw [hzero, hzero']
      rfl
  rw [hneg, hcast, ← Int.zero_sub, ← Int.zero_sub, Int.sub_emod, ← beInt_emod a, ← Int.sub_emod]

theorem beInt_numericSub_emod (h : a.length = b.length) :
    beInt (numericSub a b) % (256 ^ a.length : Nat) =
      (beInt a - beInt b) % (256 ^ a.length : Nat) := by
  have hlen : a.length = (numericNegate b).length := by
    rw [length_numericNegate, h]
  have hneg := beInt_numericNegate_emod b
  rw [← h] at hneg
  rw [numericSub, beInt_numericAdd_emod hlen, Int.add_emod, hneg, ← Int.add_emod,
    Int.sub_eq_add_neg]

theorem beInt_numericAdd (h : a.length = b.length)
    (hlow : -((256 ^ a.length : Nat) : Int) <= (beInt a + beInt b) * 2)
    (hhigh : (beInt a + beInt b) * 2 < (256 ^ a.length : Nat)) :
    beInt (numericAdd a b) = beInt a + beInt b := by
  exact beInt_eq_of_range (length_numericAdd h) (beInt_numericAdd_emod h) hlow hhigh

theorem beInt_emod_of_shift {r : List UInt8} (hlen : r.length = a.length) {c : Int} (k : Int)
    (h : (beNat r : Int) = beNat a + c + (256 ^ a.length : Nat) * k) :
    beInt r % (256 ^ a.length : Nat) = (beInt a + c) % (256 ^ a.length : Nat) := by
  have hr := beInt_emod r
  rw [hlen] at hr
  rw [hr, h, Int.add_mul_emod_self_left, Int.add_emod, ← beInt_emod a, ← Int.add_emod]

theorem beInt_numericIncrease_emod (a : List UInt8) :
    beInt (numericIncrease a) % (256 ^ a.length : Nat) =
      (beInt a + 1) % (256 ^ a.length : Nat) := by
  have hinc := increase_value a
  split at hinc
  · exact beInt_emod_of_shift (length_numericIncrease a) (-1) (by unfold numericIncrease; omega)
  · exact beInt_emod_of_shift (length_numericIncrease a) 0 (by unfold numericIncrease; omega)

theorem beInt_numericDecrease_emod (a : List UInt8) :
    beInt (numericDecrease a) % (256 ^ a.length : Nat) =
      (beInt a - 1) % (256 ^ a.length : Nat) := by
  have hdec := decrease_value a
  split at hdec
  · exact beInt_emod_of_shift (length_numericDecrease a) 1 (by unfold numericDecrease; omega)
  · exact beInt_emod_of_shift (length_numericDecrease a) 0 (by unfold numericDecrease; omega)

/-- A number is moved away from zero. -/
theorem beInt_moved_emod (hne : a ≠ []) :
    let moved := if numericIsNegative a then numericDecrease a else numericIncrease a
    moved.length = a.length ∧ beInt moved % (256 ^ a.length : Nat) =
      (if beInt a < 0 then beInt a - 1 else beInt a + 1) % (256 ^ a.length : Nat) := by
  rw [numericIsNegative_eq hne]
  by_cases hneg : beInt a < 0
  · rw [decide_eq_true hneg, if_pos rfl, if_pos hneg]
    exact ⟨length_numericDecrease a, beInt_numericDecrease_emod a⟩
  · rw [decide_eq_false hneg, if_neg (by decide), if_neg hneg]
    exact ⟨length_numericIncrease a, beInt_numericIncrease_emod a⟩

/-!
## Comparison
-/

def numericComparePos : List UInt8 -> List UInt8 -> Int
  | a :: as, b :: bs => if a ≠ b then if a > b then 1 else -1 else numericComparePos as bs
  | _, _ => 0

def numericCompare (arg1 arg2 : List UInt8) : Int :=
  let arg1Sign := if numericIsNegative arg1 then 1 else 0
  let arg2Sign := if numericIsNegative arg2 then 1 else 0
  if arg1Sign < arg2Sign then 1
  else if arg1Sign > arg2Sign then -1
  else if arg1Sign = 0 then numericComparePos arg1 arg2
  else -numericComparePos (numericNegate arg1) (numericNegate arg2)

def numericIsZero (arg : List UInt8) : Bool :=
  (arg.take dbNumericBufSize).all (fun b => b == 0)

theorem numericComparePos_eq (h : a.length = b.length) :
    numericComparePos a b = Int.sign ((beNat a : Int) - beNat b) := by
  induction a generalizing b with
  | nil =>
    cases b with
    | nil => rfl
    | cons y ys => cases h
  | cons x xs ih =>
    cases b with
    | nil => cases h
    | cons y ys =>
      have hlen : xs.length = ys.length := by simpa using h
      have hxs := beNat_lt xs
      have hys := beNat_lt ys
      rw [← hlen] at hys
      rw [beNat_cons, beNat_cons, ← hlen]
      unfold numericComparePos
      by_cases heq : x = y
      · rw [if_neg (by simpa using heq), ih hlen, heq]
        congr 1
        omega
      rw [if_pos heq]
      have hne : x.toNat ≠ y.toNat := fun hxy => heq (UInt8.toNat_inj.mp hxy)
      by_cases hgt : x > y
      · have hle : (y.toNat + 1) * 256 ^ xs.length <= x.toNat * 256 ^ xs.length :=
          Nat.mul_le_mul_right _ (UInt8.lt_iff_toNat_lt.mp hgt)
        rw [Nat.add_mul] at hle
        rw [if_pos hgt, Int.sign_eq_one_of_pos (by omega)]
      · have hlt : ¬ y.toNat < x.toNat :=
          fun hxy => hgt (UInt8.lt_iff_toNat_lt.mpr hxy)
        have hle : (x.toNat + 1) * 256 ^ xs.length <= y.toNat * 256 ^ xs.length :=
          Nat.mul_le_mul_right _ (by omega)
        rw [Nat.add_mul] at hle
        rw [if_neg hgt, Int.sign_eq_neg_one_of_neg (by omega)]

theorem numericCompare_eq (ha : a ≠ []) (h : a.length = b.length) :
    numericCompare a b = Int.sign (beInt a - beInt b) := by
  have hb : b ≠ [] := by
    intro hnil
    rw [hnil] at h
    exact ha (length_eq_zero_iff.mp h)
  have hlta := beNat_lt a
  have hltb := beNat_lt b
  unfold numericCompare
  rw [numericIsNegative_eq ha, numericIsNegative_eq hb]
  rcases beInt_cases a with ⟨hlowa, heqa⟩ | ⟨hhigha, heqa⟩
  · rcases beInt_cases b with ⟨hlowb, heqb⟩ | ⟨hhighb, heqb⟩
    · have hna : ¬ beInt a < 0 := by omega
      have hnb : ¬ beInt b < 0 := by omega
      simp only [hna, hnb, decide_false, Bool.false_eq_true, if_false, Nat.lt_irrefl,
        if_true, gt_iff_lt]
      rw [numericComparePos_eq h, heqa, heqb]
    · have hna : ¬ beInt a < 0 := by omega
      have hnb : beInt b < 0 := by omega
      simp only [hna, hnb, decide_false, decide_true, Bool.false_eq_true, if_false, if_true,
        Nat.zero_lt_one]
      rw [Int.sign_eq_one_of_pos (by omega)]
  · rcases beInt_cases b with ⟨hlowb, heqb⟩ | ⟨hhighb, heqb⟩
    · have hna : beInt a < 0 := by omega
      have hnb : ¬ beInt b < 0 := by omega
      simp only [hna, hnb, decide_false, decide_true, Bool.false_eq_true, if_false, if_true,
        gt_iff_lt, Nat.not_lt_zero, Nat.zero_lt_one]
      rw [Int.sign_eq_neg_one_of_neg (by omega)]
    have hna : beInt a < 0 := by omega
    have hnb : beInt b < 0 := by omega
    simp only [hna, hnb, decide_true, if_true, Nat.lt_irrefl, if_false, gt_iff_lt, Nat.one_ne_zero]
    have hlen : (numericNegate a).length = (numericNegate b).length := by simpa using h
    have hpos : 0 < 256 ^ a.length := Nat.pow_pos (by decide)
    rw [numericComparePos_eq hlen, ← Int.sign_neg, heqa, heqb, h]
    rw [h] at hhigha hlta hpos
    congr 1
    rcases beNat_numericNegate a with hsuma | ⟨hzeroa, _⟩
    · rcases beNat_numericNegate b with hsumb | ⟨hzerob, _⟩
      · rw [h] at hsuma
        omega
      · omega
    · omega

theorem numericIsZero_iff_take (arg : List UInt8) :
    numericIsZero arg = true <-> beNat (arg.take dbNumericBufSize) = 0 := by
  rw [numericIsZero, all_eq_true, beNat_eq_zero_iff]
  simp only [beq_iff_eq]

theorem numericIsZero_iff (h : a.length = dbNumericBufSize) :
    numericIsZero a = true <-> beInt a = 0 := by
  have htake : a.take dbNumericBufSize = a := by
    rw [← h, take_length]
  have hlt := beNat_lt a
  rw [numericIsZero_iff_take, htake]
  rcases beInt_cases a with ⟨_, heq⟩ | ⟨_, heq⟩ <;> rw [heq] <;> omega

/-!
## Decimal scaling

A buffer is scaled by a power of ten one digit at a time.  The only test for
overflow is the sign bit after each digit, so what the routine computes is the
magnitude modulo the size of the buffer as long as no such test fires.
-/

/-- One digit; the buffer is left as it is when the overflow is seen. -/
def numericScaleByTen (arg : List UInt8) : ErrorCode × List UInt8 :=
  let scaled := (carryChain (fun b => 10 * b.toNat) (numericDbValueAbs arg)).2
  if (scaled.headD 0).toNat > 0x7f then (.numOverflow, scaled)
  else (.noError, if numericIsNegative arg then numericNegate scaled else scaled)

def numericScaleDecLong (answer : List UInt8) : Nat -> ErrorCode × List UInt8
  | 0 => (.noError, answer)
  | dscale + 1 =>
    match numericScaleByTen answer with
    | (.noError, scaled) => numericScaleDecLong scaled dscale
    | failure => failure

def numericScaleDec (arg : List UInt8) (dscale : Nat) : ErrorCode × List UInt8 :=
  numericScaleDecLong arg dscale

theorem beNat_scaleChain (bs : List UInt8) :
    beNat (carryChain (fun b : UInt8 => 10 * b.toNat) bs).2 = 10 * beNat bs % 256 ^ bs.length := by
  have hmap : bs.map (fun b : UInt8 => 10 * b.toNat) =
      (bs.map UInt8.toNat).map (fun d => 10 * d) := by
    rw [map_map]
    rfl
  rw [carryChain_mod, hmap, posVal_map_mul]
  rfl

theorem head_gt_iff {bs : List UInt8} (h : bs ≠ []) :
    (bs.headD 0).toNat > 0x7f <-> 256 ^ bs.length <= 2 * beNat bs := by
  cases bs with
  | nil => exact absurd rfl h
  | cons b bs =>
    rw [sign_byte_iff, headD_cons]
    omega

theorem ne_nil_of_length_eq (h : a.length = b.length) (hb : b ≠ []) : a ≠ [] := by
  intro hnil
  rw [hnil] at h
  exact hb (length_eq_zero_iff.mp h.symm)

section

variable (h : a ≠ [])
include h

theorem natAbs_beInt_lt : (beInt a).natAbs < 256 ^ a.length := by
  have hlt := beNat_lt (numericDbValueAbs a)
  rwa [length_numericDbValueAbs, beNat_numericDbValueAbs h] at hlt

theorem numericScaleByTen_overflow
    (hover : 256 ^ a.length <= 2 * (10 * (beInt a).natAbs % 256 ^ a.length)) :
    (numericScaleByTen a).1 = .numOverflow := by
  have hne : (carryChain (fun b : UInt8 => 10 * b.toNat) (numericDbValueAbs a)).2 ≠ [] :=
    ne_nil_of_length_eq (by simp) h
  unfold numericScaleByTen
  rw [if_pos]
  rw [head_gt_iff hne, length_carryChain, length_numericDbValueAbs, beNat_scaleChain,
    length_numericDbValueAbs, beNat_numericDbValueAbs h]
  exact hover

theorem numericScaleByTen_noError
    (hfits : 2 * (10 * (beInt a).natAbs % 256 ^ a.length) < 256 ^ a.length) :
    exists r, numericScaleByTen a = (.noError, r) ∧ r.length = a.length ∧
      beInt r = (beInt a).sign * (10 * (beInt a).natAbs % 256 ^ a.length : Nat) := by
  let scaled := (carryChain (fun b : UInt8 => 10 * b.toNat) (numericDbValueAbs a)).2
  have hlen : scaled.length = a.length := by simp [scaled]
  have hval : beNat scaled = 10 * (beInt a).natAbs % 256 ^ a.length := by
    simp only [scaled]
    rw [beNat_scaleChain, length_numericDbValueAbs, beNat_numericDbValueAbs h]
  have hne : scaled ≠ [] := ne_nil_of_length_eq hlen h
  have hhead : ¬ (scaled.headD 0).toNat > 0x7f := by
    rw [head_gt_iff hne, hlen, hval]
    omega
  refine ⟨if numericIsNegative a then numericNegate scaled else scaled, ?_, ?_, ?_⟩
  · change (if (scaled.headD 0).toNat > 0x7f then _ else _) = _
    rw [if_neg hhead]
  · split <;> simp [hlen]
  rw [← hval, numericIsNegative_eq h]
  by_cases hneg : beInt a < 0
  · rw [decide_eq_true hneg, if_pos rfl, beInt_numericNegate (by rw [hlen, hval]; omega),
      Int.sign_eq_neg_one_of_neg hneg]
    omega
  rw [decide_eq_false hneg]
  simp only [Bool.false_eq_true, if_false]
  rw [beInt_of_small (by rw [hlen, hval]; exact hfits)]
  by_cases hzero : beInt a = 0
  · rw [hval, hzero]
    simp
  · rw [Int.sign_eq_one_of_pos (by omega)]
    omega

/-- What the sign tests of the scaling loop do not see is lost modulo the buffer size. -/
theorem numericScaleDecLong_cases (k : Nat) :
    ((exists i, 1 <= i ∧ i <= k ∧
        256 ^ a.length <= 2 * ((beInt a).natAbs * 10 ^ i % 256 ^ a.length)) ∧
      (numericScaleDecLong a k).1 = .numOverflow) ∨
    ((forall i, 1 <= i -> i <= k ->
        2 * ((beInt a).natAbs * 10 ^ i % 256 ^ a.length) < 256 ^ a.length) ∧
      exists r, numericScaleDecLong a k = (.noError, r) ∧ r.length = a.length ∧
        beInt r = (beInt a).sign * ((beInt a).natAbs * 10 ^ k % 256 ^ a.length : Nat)) := by
  induction k generalizing a with
  | zero =>
    right
    refine ⟨fun i h1 h2 => by omega, a, rfl, rfl, ?_⟩
    rw [Nat.pow_zero, Nat.mul_one, Nat.mod_eq_of_lt (natAbs_beInt_lt h)]
    exact (Int.sign_mul_natAbs _).symm
  | succ k ih =>
    have hfirst : (beInt a).natAbs * 10 ^ 1 = 10 * (beInt a).natAbs := by
      rw [Nat.pow_one, Nat.mul_comm]
    by_cases hover : 256 ^ a.length <= 2 * (10 * (beInt a).natAbs % 256 ^ a.length)
    · left
      refine ⟨⟨1, le_refl _, by omega, by rw [hfirst]; exact hover⟩, ?_⟩
      have hcode := numericScaleByTen_overflow h hover
      unfold numericScaleDecLong
      split
      · rename_i heq
        rw [heq] at hcode
        cases hcode
      · exact hcode
    have hfits : 2 * (10 * (beInt a).natAbs % 256 ^ a.length) < 256 ^ a.length := by
      omega
    rcases numericScaleByTen_noError h hfits with ⟨r, hr, hlen, hval⟩
    have habs : (beInt r).natAbs = 10 * (beInt a).natAbs % 256 ^ a.length := by
      by_cases hzero : beInt a = 0
      · rw [hval, hzero]
        simp
      · rw [hval, Int.natAbs_mul, Int.natAbs_sign_of_ne_zero hzero, Int.natAbs_natCast, Nat.one_mul]
    have hshift : forall i, (beInt r).natAbs * 10 ^ i % 256 ^ r.length =
        (beInt a).natAbs * 10 ^ (i + 1) % 256 ^ a.length := by
      intro i
      rw [habs, hlen, Nat.mod_mul_mod]
      congr 1
      ring
    have hstep : numericScaleDecLong a (k + 1) = numericScaleDecLong r k := by
      rw [numericScaleDecLong, hr]
    rw [hstep]
    rcases ih (ne_nil_of_length_eq hlen h) with
      ⟨⟨i, h1, h2, hi⟩, hcode⟩ | ⟨hall, r', hr', hlen', hval'⟩
    · left
      refine ⟨⟨i + 1, by omega, by omega, ?_⟩, hcode⟩
      rw [hshift, hlen] at hi
      exact hi
    right
    refine ⟨?_, r', hr', hlen'.trans hlen, ?_⟩
    · intro i h1 h2
      by_cases hone : i = 1
      · rw [hone, hfirst]
        exact hfits
      rcases Nat.exists_eq_add_of_le h1 with ⟨j, rfl⟩
      have hj := hall j (by omega) (by omega)
      rw [hshift, hlen, Nat.add_comm j 1] at hj
      exact hj
    · rw [hval', hshift, hval]
      by_cases hzero : 10 * (beInt a).natAbs % 256 ^ a.length = 0
      · have hrest : (beInt a).natAbs * 10 ^ (k + 1) % 256 ^ a.length = 0 := by
          have hk := hshift k
          rw [habs, hzero] at hk
          rw [← hk, Nat.zero_mul, Nat.zero_mod]
        rw [hrest]
        simp
      · have hsign : ((10 * (beInt a).natAbs % 256 ^ a.length : Nat) : Int).sign = 1 :=
          Int.sign_eq_one_of_pos (by omega)
        rw [Int.sign_mul, Int.sign_sign, hsign, Int.mul_one]

theorem numericScaleDecLong_exact {k : Nat}
    (hfits : 2 * ((beInt a).natAbs * 10 ^ k) < 256 ^ a.length) :
    exists r, numericScaleDecLong a k = (.noError, r) ∧ r.length = a.length ∧
      beInt r = beInt a * 10 ^ k := by
  have hmono : forall i, i <= k ->
      (beInt a).natAbs * 10 ^ i <= (beInt a).natAbs * 10 ^ k :=
    fun i hi => Nat.mul_le_mul_left _ (Nat.pow_le_pow_right (by decide) hi)
  have hmod : forall i, i <= k -> (beInt a).natAbs * 10 ^ i % 256 ^ a.length =
      (beInt a).natAbs * 10 ^ i := by
    intro i hi
    have hle := hmono i hi
    exact Nat.mod_eq_of_lt (by omega)
  rcases numericScaleDecLong_cases h k with ⟨⟨i, _, hi, hover⟩, _⟩ | ⟨_, r, hr, hlen, hval⟩
  · have hle := hmono i hi
    rw [hmod i hi] at hover
    omega
  refine ⟨r, hr, hlen, ?_⟩
  rw [hval, hmod k (le_refl _)]
  push_cast
  rw [← mul_assoc]
  congr 1
  exact_mod_cast Int.sign_mul_natAbs (beInt a)

end

/-- The table `powers_of_10`. -/
def numericGetPowOf10 : Nat -> List UInt8
  | 0 => List.replicate (dbNumericBufSize - 1) 0 ++ [1]
  | exp + 1 => (numericScaleDec (numericGetPowOf10 exp) 1).2

def numericOverflow (arg : List UInt8) (exp : Nat) : Bool :=
  numericComparePos (numericDbValueAbs arg) (numericGetPowOf10 exp) >= 0

theorem numericGetPowOf10_value (h : exp <= dbMaxNumericPrecision) :
    (numericGetPowOf10 exp).length = dbNumericBufSize ∧
      beInt (numericGetPowOf10 exp) = 10 ^ exp := by
  induction exp with
  | zero => exact ⟨rfl, by decide⟩
  | succ exp ih =>
    rcases ih (by omega) with ⟨hlen, hval⟩
    have hne : numericGetPowOf10 exp ≠ [] := buf_ne_nil hlen
    have hpow : 10 ^ (exp + 1) <= 10 ^ 38 := Nat.pow_le_pow_right (by decide) h
    have hfits : 2 * ((beInt (numericGetPowOf10 exp)).natAbs * 10 ^ 1) <
        256 ^ (numericGetPowOf10 exp).length := by
      have habs : (beInt (numericGetPowOf10 exp)).natAbs = 10 ^ exp := by
        rw [hval]
        exact Int.natAbs_pow 10 exp
      rw [hlen, habs, ← Nat.pow_add]
      exact lt_of_le_of_lt (Nat.mul_le_mul_left 2 hpow) (by decide)
    rcases numericScaleDecLong_exact hne hfits with ⟨r, hr, hrlen, hrval⟩
    have hstep : numericGetPowOf10 (exp + 1) = r := by
      rw [numericGetPowOf10, numericScaleDec, hr]
    rw [hstep]
    refine ⟨hrlen.trans hlen, ?_⟩
    rw [hrval, hval, ← pow_add]

theorem beNat_numericGetPowOf10 (h : exp <= dbMaxNumericPrecision) :
    beNat (numericGetPowOf10 exp) = 10 ^ exp := by
  rcases numericGetPowOf10_value h with ⟨hlen, hval⟩
  have hlt := beNat_lt (numericGetPowOf10 exp)
  rcases beInt_cases (numericGetPowOf10 exp) with ⟨_, heq⟩ | ⟨_, heq⟩
  · rw [hval] at heq
    exact_mod_cast heq.symm
  have hpos : (0 : Int) < 10 ^ exp := by positivity
  rw [hval] at heq
  omega

theorem numericOverflow_eq (hlen : arg.length = dbNumericBufSize)
    (h : exp <= dbMaxNumericPrecision) :
    numericOverflow arg exp = decide (10 ^ exp <= (beInt arg).natAbs) := by
  have hne : arg ≠ [] := buf_ne_nil hlen
  unfold numericOverflow
  rw [numericComparePos_eq (by rw [length_numericDbValueAbs, hlen,
    (numericGetPowOf10_value h).1]), beNat_numericDbValueAbs hne, beNat_numericGetPowOf10 h]
  congr 1
  rw [ge_iff_le, Int.sign_nonneg_iff, eq_iff_iff]
  constructor
  · intro hle
    have hcast : ((10 ^ exp : Nat) : Int) <= (beInt arg).natAbs := by omega
    exact_mod_cast hcast
  · intro hle
    omega

end Rye.Query
