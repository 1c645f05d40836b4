import Rye.Query.Numeric.Coerce

/-!
# Division of buffers

Long division runs over the bits of the dividend.  The dividend and the quotient
share one buffer: each round shifts a bit out of it into the remainder and leaves
a bit of the quotient at its end.  Small operands are divided by the machine
instead, which traps for the smallest integer divided by minus one.
-/

namespace Rye.Query

open Foundation List

/-- The bytes shifted up by `numbits`; the last one is filled from `next`. -/
def shiftBytes (numbits : UInt8) : List UInt8 -> UInt8 -> List UInt8
  | [], _ => []
  | b :: bs, next =>
    ((b <<< numbits) ||| (bs.headD next >>> (8 - numbits))) :: shiftBytes numbits bs next

/-- The new `lsb` and `msb`; bits shifted out of the first argument go to the second. -/
def numericDoubleShiftBit (arg1 arg2 : List UInt8) (numbits : UInt8) :
    List UInt8 × List UInt8 :=
  (shiftBytes numbits arg1 0, shiftBytes numbits arg2 (arg1.headD 0))

@[simp] theorem length_shiftBytes (n : UInt8) (bs : List UInt8) (next : UInt8) :
    (shiftBytes n bs next).length = bs.length := by
  induction bs with
  | nil => rfl
  | cons b bs ih => simp [shiftBytes, ih]

theorem shifted_byte (b c : UInt8) :
    ((b <<< 1) ||| (c >>> (8 - 1))).toNat = 2 * b.toNat % 256 + c.toNat / 128 := by
  have hc : c >>> (8 - 1) = 0 ∧ c.toNat / 128 = 0 ∨ c >>> (8 - 1) = 1 ∧ c.toNat / 128 = 1 := by
    have hall : forall n, n < 256 ->
        UInt8.ofNat n >>> (8 - 1) = 0 ∧ n / 128 = 0 ∨
          UInt8.ofNat n >>> (8 - 1) = 1 ∧ n / 128 = 1 := by
      decide +kernel
    have h := hall c.toNat c.toNat_lt
    rwa [UInt8.ofNat_toNat] at h
  have hb : forall n, n < 256 ->
      ((UInt8.ofNat n <<< 1) ||| 0).toNat = 2 * n % 256 ∧
        ((UInt8.ofNat n <<< 1) ||| 1).toNat = 2 * n % 256 + 1 := by
    decide +kernel
  have h := hb b.toNat b.toNat_lt
  rw [UInt8.ofNat_toNat] at h
  rcases hc with ⟨hshift, hval⟩ | ⟨hshift, hval⟩
  · rw [hshift, hval]
    exact h.1
  · rw [hshift, hval]
    exact h.2

theorem shiftBytes_value (bs : List UInt8) (next : UInt8) :
    beNat (shiftBytes 1 bs next) + (bs.headD next).toNat / 128 * 256 ^ bs.length =
      2 * beNat bs + next.toNat / 128 := by
  induction bs with
  | nil => simp [shiftBytes]
  | cons b bs ih =>
    have hsplit : 2 * b.toNat % 256 + 256 * (b.toNat / 128) = 2 * b.toNat := by omega
    rw [shiftBytes, beNat_cons, shifted_byte, length_shiftBytes, beNat_cons, headD_cons,
      length_cons, Nat.pow_succ]
    calc _ = (2 * b.toNat % 256 + 256 * (b.toNat / 128)) * 256 ^ bs.length +
          (beNat (shiftBytes 1 bs next) + (bs.headD next).toNat / 128 * 256 ^ bs.length) := by ring
      _ = _ := by
          rw [hsplit, ih]
          ring

/-!
## The loop
-/

/-- The assignment `answer[buf_size - 1] += 1`. -/
def incrementLast (answer : List UInt8) : List UInt8 :=
  answer.dropLast ++ [answer.getLastD 0 + 1]

/-- One round on the pair of `answer` and `remainder`. -/
def longDivStep (arg2 negArg2 : List UInt8) (state : List UInt8 × List UInt8) :
    List UInt8 × List UInt8 :=
  let shifted := numericDoubleShiftBit state.1 state.2 1
  let answer := shifted.1
  let remainder := shifted.2
  if numericComparePos remainder arg2 >= 0 then
    (incrementLast answer, numericAdd remainder negArg2)
  else (answer, remainder)

def longDivLoop (arg1 arg2 : List UInt8) : List UInt8 × List UInt8 :=
  let totalBit := arg1.length * 8
  (longDivStep arg2 (numericNegate arg2))^[totalBit] (arg1, numericCoerceIntToNum 0)

/-- The quotient, of the size of the dividend, and the remainder. -/
def numericLongDiv (a1 a2 : List UInt8) : List UInt8 × List UInt8 :=
  let negSign := numericIsNegative a1 != numericIsNegative a2
  let negRemainder := numericIsNegative a1
  let result := longDivLoop (numericDbValueAbs a1) (numericDbValueAbs a2)
  (if negSign then numericNegate result.1 else result.1,
    if negRemainder then numericNegate result.2 else result.2)

theorem incrementLast_value {bs : List UInt8} (hne : bs ≠ []) {n : Nat} (heven : beNat bs = 2 * n) :
    (incrementLast bs).length = bs.length ∧ beNat (incrementLast bs) = beNat bs + 1 := by
  have hsplit := dropLast_append_getLast hne
  have hlast : bs.getLastD 0 = bs.getLast hne := by
    rw [getLastD_eq_getLast?, getLast?_eq_some_getLast hne]
    rfl
  have hval : beNat bs = beNat bs.dropLast * 256 + (bs.getLast hne).toNat := by
    conv_lhs => rw [← hsplit, beNat_append, beNat_cons]
    simp
  have hb := (bs.getLast hne).toNat_lt
  have hone : (bs.getLast hne + 1).toNat = (bs.getLast hne).toNat + 1 := by
    rw [UInt8.toNat_add]
    have h1 : (1 : UInt8).toNat = 1 := rfl
    omega
  have hlen : bs.length ≠ 0 := by
    rw [Ne, length_eq_zero_iff]
    exact hne
  unfold incrementLast
  rw [hlast]
  constructor
  · rw [length_append, length_dropLast, length_singleton]
    omega
  · rw [beNat_append, beNat_cons, hone]
    simp only [length_singleton, length_nil, beNat_nil, pow_zero, pow_one]
    omega

/-- After `k` rounds: the quotient of the leading `k` bits and what is left of the others. -/
structure DivLoop (dividend divisor size k : Nat) (state : List UInt8 × List UInt8) : Prop where
  length_answer : state.1.length = size
  length_remainder : state.2.length = dbNumericBufSize
  remainder_lt : beNat state.2 < divisor
  split : exists quotient low : Nat,
    dividend = (quotient * divisor + beNat state.2) * 2 ^ (size * 8 - k) + low ∧
      low < 2 ^ (size * 8 - k) ∧ beNat state.1 = low * 2 ^ k + quotient ∧ quotient < 2 ^ k

theorem eq_of_add_mul_eq {w a b s t : Nat} (ha : a < w) (hb : b < w)
    (h : a + s * w = b + t * w) : a = b ∧ s = t := by
  have hw : 0 < w := by omega
  have hdiv := congrArg (fun n => n / w) h
  have hmod := congrArg (fun n => n % w) h
  simp only [Nat.add_mul_div_right _ _ hw, Nat.div_eq_of_lt ha, Nat.div_eq_of_lt hb,
    Nat.zero_add] at hdiv
  simp only [Nat.add_mul_mod_self_right, Nat.mod_eq_of_lt ha, Nat.mod_eq_of_lt hb] at hmod
  exact ⟨hmod, hdiv⟩

theorem shifted_out {m p low q t lsb : Nat} (hlow : low < 2 * m) (hq : q < p)
    (hlsb : lsb + t * (m * (2 * p)) = 2 * (low * p + q)) (hlt : lsb < m * (2 * p)) :
    exists low', low = t * m + low' ∧ low' < m ∧ lsb = 2 * (low' * p + q) := by
  have hm : 0 < m := by omega
  have hsplit := Nat.div_add_mod low m
  have hrest : low % m < m := Nat.mod_lt _ hm
  have hle : (low % m + 1) * p <= m * p := Nat.mul_le_mul_right p hrest
  have hsmall : 2 * (low % m * p + q) < m * (2 * p) := by
    have hm2 : m * (2 * p) = 2 * (m * p) := by ring
    rw [Nat.add_mul] at hle
    omega
  have heq : lsb + t * (m * (2 * p)) = 2 * (low % m * p + q) + low / m * (m * (2 * p)) := by
    rw [hlsb]
    conv_lhs => rw [← hsplit]
    ring
  rcases eq_of_add_mul_eq hlt hsmall heq with ⟨hl, ht⟩
  refine ⟨low % m, ?_, hrest, hl⟩
  rw [ht, Nat.mul_comm]
  exact hsplit.symm

variable {size : Nat} {arg2 : List UInt8} {bytes : Nat} {arg : List UInt8} {w : Int}
    {dividend divisor k : Nat} {v : Int} {state : List UInt8 × List UInt8}

/-- A round of the shift: the leading bit `t` of what is left moves to the remainder. -/
theorem DivLoop.shift (h : DivLoop dividend divisor size k state) (hk : k < size * 8)
    (hdivisor : 2 * divisor <= 256 ^ dbNumericBufSize) :
    let shifted := numericDoubleShiftBit state.1 state.2 1
    shifted.1.length = size ∧ shifted.2.length = dbNumericBufSize ∧
      exists quotient low : Nat,
        dividend = (2 * quotient * divisor + beNat shifted.2) * 2 ^ (size * 8 - (k + 1)) + low ∧
        low < 2 ^ (size * 8 - (k + 1)) ∧
        beNat shifted.1 = 2 * (low * 2 ^ k + quotient) ∧ quotient < 2 ^ k ∧
        beNat shifted.2 < 2 * divisor := by
  intro shifted
  rcases h.split with ⟨quotient, low, hdiv, hlow, hans, hq⟩
  have hsize : 256 ^ size = 2 ^ (size * 8) := by
    rw [Nat.mul_comm, Nat.pow_mul]
  have hexp : 2 ^ (size * 8 - k) = 2 * 2 ^ (size * 8 - (k + 1)) := by
    rw [← Nat.pow_succ']
    congr 1
    omega
  have hwhole : 2 ^ (size * 8) = 2 ^ (size * 8 - (k + 1)) * (2 * 2 ^ k) := by
    rw [← Nat.pow_succ', ← Nat.pow_add]
    congr 1
    omega
  have hlsb := shiftBytes_value state.1 0
  have hmsb := shiftBytes_value state.2 (state.1.headD 0)
  rw [h.length_answer, hsize] at hlsb
  rw [h.length_remainder] at hmsb
  have hlsblt := beNat_lt shifted.1
  have hmsblt := beNat_lt shifted.2
  have hlen1 : shifted.1.length = size := (length_shiftBytes _ _ _).trans h.length_answer
  have hlen2 : shifted.2.length = dbNumericBufSize :=
    (length_shiftBytes _ _ _).trans h.length_remainder
  rw [hlen1, hsize] at hlsblt
  rw [hlen2] at hmsblt
  have hrem := h.remainder_lt
  let t := (state.1.headD 0).toNat / 128
  have ht : t <= 1 := by
    have hb := (state.1.headD 0).toNat_lt
    omega
  rw [hexp] at hlow hdiv
  have hzero : (0 : UInt8).toNat / 128 = 0 := rfl
  rw [hwhole, hans, hzero, Nat.add_zero] at hlsb
  rw [hwhole] at hlsblt
  rcases shifted_out hlow hq hlsb hlsblt with ⟨low', hlow', hlt, hval⟩
  have hrem2 : beNat shifted.2 = 2 * beNat state.2 + t := by
    have hcarry : (state.2.headD (state.1.headD 0)).toNat / 128 = 0 := by
      by_contra hne
      have hone : 1 * 256 ^ dbNumericBufSize <=
          (state.2.headD (state.1.headD 0)).toNat / 128 * 256 ^ dbNumericBufSize :=
        Nat.mul_le_mul_right _ (Nat.one_le_iff_ne_zero.mpr hne)
      omega
    rw [hcarry, Nat.zero_mul, Nat.add_zero] at hmsb
    exact hmsb
  refine ⟨hlen1, hlen2, quotient, low', ?_, hlt, hval, hq, by omega⟩
  rw [hdiv, hlow', hrem2]
  ring

theorem beNat_subtract {a b : List UInt8} (hlen : a.length = b.length) (hpos : 0 < beNat b)
    (hle : beNat b <= beNat a) :
    beNat (numericAdd a (numericNegate b)) = beNat a - beNat b := by
  have hlt := beNat_lt a
  rcases beNat_numericNegate b with hneg | ⟨hzero, _⟩
  · have hsame : a.length = (numericNegate b).length := by rw [length_numericNegate, hlen]
    rw [← hlen] at hneg
    rw [beNat_numericAdd hsame]
    have hsum : beNat a + beNat (numericNegate b) = beNat a - beNat b + 256 ^ a.length := by
      omega
    rw [hsum, Nat.add_mod_right, Nat.mod_eq_of_lt (by omega)]
  · omega

theorem DivLoop.step (h : DivLoop dividend divisor size k state) (hk : k < size * 8)
    (hlen : arg2.length = dbNumericBufSize) (hval : beNat arg2 = divisor) (hpos : 0 < divisor)
    (hdivisor : 2 * divisor <= 256 ^ dbNumericBufSize) :
    DivLoop dividend divisor size (k + 1) (longDivStep arg2 (numericNegate arg2) state) := by
  rcases h.shift hk hdivisor with
    ⟨hlen1, hlen2, quotient, low, hdiv, hlow, hans, hq, hrem⟩
  have hsame := hlen2.trans hlen.symm
  have hpow : 2 ^ (k + 1) = 2 * 2 ^ k := by rw [Nat.pow_succ']
  unfold longDivStep
  by_cases hge : numericComparePos (numericDoubleShiftBit state.1 state.2 1).2 arg2 >= 0
  · rw [if_pos hge]
    rw [numericComparePos_eq hsame, ge_iff_le, Int.sign_nonneg_iff, hval] at hge
    have hne : (numericDoubleShiftBit state.1 state.2 1).1 ≠ [] := by
      intro hnil
      rw [hnil] at hlen1
      rw [← hlen1] at hk
      simp at hk
    rcases incrementLast_value hne hans with ⟨hinclen, hincval⟩
    have hsub := beNat_subtract hsame (by omega) (by omega)
    rw [hval] at hsub
    refine ⟨hinclen.trans hlen1, ?_, ?_, 2 * quotient + 1, low, ?_, hlow, ?_, by omega⟩
    · rw [length_numericAdd (by rw [length_numericNegate, hsame]), hlen2]
    · rw [hsub]
      omega
    · have hexpand : (2 * quotient + 1) * divisor = 2 * quotient * divisor + divisor := by ring
      rw [hsub, hexpand, hdiv]
      congr 2
      omega
    · rw [hincval, hans, hpow]
      ring
  · rw [if_neg hge]
    rw [numericComparePos_eq hsame, ge_iff_le, Int.sign_nonneg_iff, hval] at hge
    have hlt : beNat (numericDoubleShiftBit state.1 state.2 1).2 < divisor := by omega
    refine ⟨hlen1, hlen2, hlt, 2 * quotient, low, hdiv, hlow, ?_, by omega⟩
    rw [hans, hpow]
    ring

theorem DivLoop.iterate {start : List UInt8 × List UInt8}
    (h : DivLoop dividend divisor size 0 start) (hlen : arg2.length = dbNumericBufSize)
    (hval : beNat arg2 = divisor) (hpos : 0 < divisor)
    (hdivisor : 2 * divisor <= 256 ^ dbNumericBufSize) (hk : k <= size * 8) :
    DivLoop dividend divisor size k ((longDivStep arg2 (numericNegate arg2))^[k] start) := by
  induction k with
  | zero => exact h
  | succ k ih =>
    rw [Function.iterate_succ_apply']
    exact (ih (by omega)).step (by omega) hlen hval hpos hdivisor

theorem longDivLoop_value (arg1 : List UInt8) (hlen : arg2.length = dbNumericBufSize)
    (hpos : 0 < beNat arg2) (hdivisor : 2 * beNat arg2 <= 256 ^ dbNumericBufSize) :
    (longDivLoop arg1 arg2).1.length = arg1.length ∧
      (longDivLoop arg1 arg2).2.length = dbNumericBufSize ∧
      beNat (longDivLoop arg1 arg2).1 = beNat arg1 / beNat arg2 ∧
      beNat (longDivLoop arg1 arg2).2 = beNat arg1 % beNat arg2 := by
  have hzero : beNat (numericCoerceIntToNum 0) = 0 := by decide
  have hstart : DivLoop (beNat arg1) (beNat arg2) arg1.length 0
      (arg1, numericCoerceIntToNum 0) := by
    refine ⟨rfl, length_integerBytes (by decide) 0, ?_, 0, beNat arg1, ?_, ?_, ?_, by decide⟩
    · rw [hzero]
      exact hpos
    · rw [hzero]
      omega
    · have hlt := beNat_lt arg1
      rwa [Nat.sub_zero, Nat.mul_comm, Nat.pow_mul]
    · rw [Nat.pow_zero, Nat.mul_one, Nat.add_zero]
  have hend := hstart.iterate hlen rfl hpos hdivisor (le_refl _)
  -- all bits are shifted out, so nothing is left of the dividend
  rcases hend.split with ⟨quotient, low, hdiv, hlow, hans, _⟩
  have hlt := hend.remainder_lt
  rw [Nat.sub_self, Nat.pow_zero] at hdiv hlow
  have hnone : low = 0 := by omega
  rw [hnone, Nat.zero_mul, Nat.zero_add] at hans
  rw [hnone, Nat.add_zero, Nat.mul_one, Nat.mul_comm] at hdiv
  refine ⟨hend.length_answer, hend.length_remainder, ?_, ?_⟩
  · rw [hdiv, Nat.mul_add_div hpos, Nat.div_eq_of_lt hlt]
    exact hans
  · rw [hdiv, Nat.mul_add_mod, Nat.mod_eq_of_lt hlt]
    rfl

/-!
## The signs
-/

theorem tdiv_eq_signs (w v : Int) : w.tdiv v = w.sign * v.sign * (w.natAbs / v.natAbs : Nat) := by
  rcases Int.eq_nat_or_neg w with ⟨a, rfl | rfl⟩ <;>
    rcases Int.eq_nat_or_neg v with ⟨b, rfl | rfl⟩ <;>
    rcases Nat.eq_zero_or_pos a with rfl | ha <;> rcases Nat.eq_zero_or_pos b with rfl | hb <;>
    simp [Int.sign_eq_one_of_pos, *]

theorem tmod_eq_sign (w v : Int) : w.tmod v = w.sign * (w.natAbs % v.natAbs : Nat) := by
  rcases Int.eq_nat_or_neg w with ⟨a, rfl | rfl⟩ <;>
    rcases Int.eq_nat_or_neg v with ⟨b, rfl | rfl⟩ <;>
    rcases Nat.eq_zero_or_pos a with rfl | ha <;>
    simp [Int.sign_eq_one_of_pos, Int.tmod_eq_emod_of_nonneg, *]

theorem tdiv_eq_ite (w v : Int) (hv : v ≠ 0) :
    w.tdiv v = if decide (w < 0) != decide (v < 0) then -((w.natAbs / v.natAbs : Nat) : Int)
      else (w.natAbs / v.natAbs : Nat) := by
  rw [tdiv_eq_signs]
  rcases lt_trichotomy w 0 with hw | rfl | hw
  · rcases lt_or_gt_of_ne hv with hv' | hv'
    · simp [Int.sign_eq_neg_one_of_neg, hw, hv']
    · simp [Int.sign_eq_neg_one_of_neg, Int.sign_eq_one_of_pos, hw, hv', not_lt.mpr hv'.le]
  · simp
  · rcases lt_or_gt_of_ne hv with hv' | hv'
    · simp [Int.sign_eq_neg_one_of_neg, Int.sign_eq_one_of_pos, hw, not_lt.mpr hw.le, hv']
    · simp [Int.sign_eq_one_of_pos, hw, not_lt.mpr hw.le, hv', not_lt.mpr hv'.le]

theorem beInt_ite_negate_emod (a : List UInt8) (negative : Bool) :
    beInt (if negative then numericNegate a else a) % (256 ^ a.length : Nat) =
      (if negative then -(beNat a : Int) else beNat a) % (256 ^ a.length : Nat) := by
  have hpos := beInt_emod a
  cases negative with
  | true =>
    simp only [if_true]
    rw [beInt_numericNegate_emod, ← Int.zero_sub, ← Int.zero_sub, Int.sub_emod, hpos,
      ← Int.sub_emod]
  | false => exact hpos

/-- Division of integers, the quotient modulo the size of its buffer. -/
structure QuoRem (w v : Int) (size : Nat) (result : List UInt8 × List UInt8) : Prop where
  length_quo : result.1.length = size
  length_rem : result.2.length = dbNumericBufSize
  quo : beInt result.1 % (256 ^ size : Nat) = w.tdiv v % (256 ^ size : Nat)
  rem : beInt result.2 = w.tmod v

theorem natAbs_le_half {a : List UInt8} : 2 * (beInt a).natAbs <= 256 ^ a.length := by
  have hlt := beNat_lt a
  rcases beInt_cases a with ⟨_, heq⟩ | ⟨_, heq⟩ <;> rw [heq] <;> omega

theorem numericLongDiv_quoRem {a1 a2 : List UInt8} (hne : a1 ≠ [])
    (hlen : a2.length = dbNumericBufSize) (hv : beInt a2 ≠ 0) :
    QuoRem (beInt a1) (beInt a2) a1.length (numericLongDiv a1 a2) := by
  have hne2 := buf_ne_nil hlen
  have habs1 := beNat_numericDbValueAbs hne
  have habs2 := beNat_numericDbValueAbs hne2
  have hpos : 0 < (beInt a2).natAbs := Int.natAbs_pos.mpr hv
  have hhalf := natAbs_le_half (a := a2)
  rw [hlen, ← habs2] at hhalf
  rw [← habs2] at hpos
  rcases longDivLoop_value (numericDbValueAbs a1)
    ((length_numericDbValueAbs a2).trans hlen) hpos hhalf with ⟨hlen1, hlen2, hquo, hrem⟩
  rw [length_numericDbValueAbs] at hlen1
  have hremlt : 2 * ((beInt a1).natAbs % (beInt a2).natAbs) < 256 ^ dbNumericBufSize := by
    rw [← habs2]
    have hmod := Nat.mod_lt (beInt a1).natAbs hpos
    omega
  rw [habs1, habs2] at hquo hrem
  unfold numericLongDiv
  rw [numericIsNegative_eq hne, numericIsNegative_eq hne2]
  refine ⟨(length_signed _ _).trans hlen1, (length_signed _ _).trans hlen2, ?_, ?_⟩
  · have hsigned := beInt_ite_negate_emod
      (longDivLoop (numericDbValueAbs a1) (numericDbValueAbs a2)).1
      (decide (beInt a1 < 0) != decide (beInt a2 < 0))
    rw [hlen1, hquo] at hsigned
    rw [tdiv_eq_ite _ _ hv]
    exact hsigned
  · have hrem' := beInt_of_small (by rw [hlen2, hrem]; exact hremlt)
    rw [hrem] at hrem'
    rw [tmod_eq_sign]
    exact beInt_signed hrem' rfl (fun h0 => by rw [h0]; simp)

/-!
## Small operands
-/

/-- Whether the leading bytes repeat the sign of the last `bytes` bytes. -/
def isSignExtended (bytes : Nat) (arg : List UInt8) : Bool :=
  let pad := arg.headD 0
  let digit := dbNumericBufSize - bytes
  if pad ≠ 0xff ∧ pad ≠ 0 then false
  else if ((arg.take digit).drop 1).any (fun b => b != pad) then false
  else (arg.getD digit 0 &&& 0x80) == (pad &&& 0x80)

def numericIsLong (arg : List UInt8) : Bool :=
  isSignExtended 4 arg

def numericIsBigint (arg : List UInt8) : Bool :=
  isSignExtended 8 arg

def numericCoerceNumToInt (arg : List UInt8) : Int :=
  let pad := if numericIsNegative arg then 0xff else 0
  let digit := dbNumericBufSize - 4
  if ((arg.take digit).drop 1).any (fun b => b != pad) then
    if pad = 0xff then -1 else (-1 : Int) >>> (1 : Nat)
  else beInt (arg.drop digit)

def numericCoerceNumToBigint (arg : List UInt8) : Except ErrorCode Int :=
  if !numericIsBigint arg then .error .numOverflow
  else .ok (beInt (arg.drop (dbNumericBufSize - 8)))

/-- Quotient and remainder of machine integers of `bits` bits; `none` is a trap. -/
def machineDiv (bits : Nat) (a b : Int) : Option (Int × Int) :=
  if b = 0 ∨ (a = -2 ^ (bits - 1) ∧ b = -1) then none
  else some (a.tdiv b, a.tmod b)

/-- Quotient and remainder; `none` if there are none or the machine traps. -/
def numericDiv (arg1 arg2 : List UInt8) : Option (List UInt8 × List UInt8) :=
  if numericIsZero arg2 then none
  else if numericIsZero arg1 then some (numericCoerceIntToNum 0, numericCoerceIntToNum 0)
  else if numericIsLong arg1 && numericIsLong arg2 then
    (machineDiv 32 (numericCoerceNumToInt arg1) (numericCoerceNumToInt arg2)).map fun p =>
      (numericCoerceIntToNum p.1, numericCoerceIntToNum p.2)
  else if numericIsBigint arg1 && numericIsBigint arg2 then
    match numericCoerceNumToBigint arg1, numericCoerceNumToBigint arg2 with
    | .ok biArg1, .ok biArg2 =>
      (machineDiv 64 biArg1 biArg2).map fun p =>
        (numericCoerceBigintToNum p.1, numericCoerceBigintToNum p.2)
    | _, _ => none
  else some (numericLongDiv arg1 arg2)

theorem isNegative_drop (arg : List UInt8) (n : Nat) :
    numericIsNegative (arg.drop n) = ((arg.getD n 0 &&& 0x80) != 0) := by
  rw [numericIsNegative, headD_eq_head?_getD, head?_drop, getD_eq_getElem?_getD]

theorem getD_and_sign {n : Nat} (h : n < arg.length) :
    arg.getD n 0 &&& 0x80 = if beInt (arg.drop n) < 0 then 0x80 else 0 := by
  have hsign := isNegative_drop arg n
  rw [numericIsNegative_eq (fun hnil => absurd (drop_eq_nil_iff.mp hnil) (not_le.mpr h)),
    and_sign_bit, decide_eq_decide] at hsign
  rw [and_sign_eq]
  simp only [hsign]

theorem isSignExtended_iff (hlen : arg.length = dbNumericBufSize) (hpos : 0 < bytes)
    (hlt : bytes < dbNumericBufSize) :
    isSignExtended bytes arg = true <->
      beInt arg = beInt (arg.drop (dbNumericBufSize - bytes)) := by
  have hsign : arg.getD (dbNumericBufSize - bytes) 0 &&& 0x80 = _ := getD_and_sign (by omega)
  have hiff := beInt_append_eq_iff (arg.take (dbNumericBufSize - bytes))
    (arg.drop (dbNumericBufSize - bytes))
  rw [take_append_drop] at hiff
  rw [hiff]
  simp only [isSignExtended, hsign]
  generalize beInt (arg.drop (dbNumericBufSize - bytes)) = lower
  cases arg with
  | nil => cases hlen
  | cons c cs =>
    rw [take_cons (by omega), forall_mem_cons]
    simp only [headD_cons, drop_one, tail_cons]
    by_cases hff : c = 0xff
    · subst hff
      by_cases hneg : lower < 0 <;> simp [hneg, and_sign_eq]
    by_cases hzero : c = 0
    · subst hzero
      by_cases hneg : lower < 0 <;> simp [hneg]
    · have hfill : ¬ c = if lower < 0 then 0xff else 0 := by
        split <;> assumption
      simp [hff, hzero, hfill]

theorem isSignExtended_of_range (hlen : arg.length = dbNumericBufSize) (hpos : 0 < bytes)
    (hlt : bytes < dbNumericBufSize) (hlow : -((256 ^ bytes : Nat) : Int) <= beInt arg * 2)
    (hhigh : beInt arg * 2 < (256 ^ bytes : Nat)) : isSignExtended bytes arg = true := by
  have hrange := beInt_append_of_range (arg.take (dbNumericBufSize - bytes))
    (arg.drop (dbNumericBufSize - bytes))
  have hlower : dbNumericBufSize - (dbNumericBufSize - bytes) = bytes := by omega
  rw [take_append_drop, length_drop, hlen, hlower] at hrange
  exact (isSignExtended_iff hlen hpos hlt).mpr (hrange hlow hhigh)

theorem numericCoerceNumToInt_value (h : numericIsLong arg = true)
    (hlen : arg.length = dbNumericBufSize) : numericCoerceNumToInt arg = beInt arg := by
  have hval := (isSignExtended_iff hlen (by decide) (by decide)).mp h
  have hsplit := take_append_drop (dbNumericBufSize - 4) arg
  have hall := (beInt_append_eq_iff (arg.take (dbNumericBufSize - 4))
    (arg.drop (dbNumericBufSize - 4))).mp (by rw [hsplit]; exact hval)
  rw [← hval] at hall
  unfold numericCoerceNumToInt
  rw [numericIsNegative_eq (buf_ne_nil hlen)]
  simp only [decide_eq_true_eq]
  rw [if_neg]
  · exact hval.symm
  · intro hany
    rcases any_eq_true.mp hany with ⟨b, hb, hne⟩
    exact bne_iff_ne.mp hne (hall b (mem_of_mem_drop hb))

theorem numericCoerceNumToBigint_value (h : numericIsBigint arg = true)
    (hlen : arg.length = dbNumericBufSize) : numericCoerceNumToBigint arg = .ok (beInt arg) := by
  have hval := (isSignExtended_iff hlen (by decide) (by decide)).mp h
  unfold numericCoerceNumToBigint
  rw [h, hval]
  rfl

theorem isSignExtended_range (h : isSignExtended bytes arg = true)
    (hlen : arg.length = dbNumericBufSize) (hpos : 0 < bytes) (hlt : bytes < dbNumericBufSize) :
    -((256 ^ bytes : Nat) : Int) <= beInt arg * 2 ∧ beInt arg * 2 < (256 ^ bytes : Nat) := by
  rw [(isSignExtended_iff hlen hpos hlt).mp h]
  have hlower : (arg.drop (dbNumericBufSize - bytes)).length = bytes := by
    rw [length_drop, hlen]
    omega
  have hbound := beNat_lt (arg.drop (dbNumericBufSize - bytes))
  have hcases := beInt_cases (arg.drop (dbNumericBufSize - bytes))
  rw [hlower] at hbound hcases
  rcases hcases with ⟨_, h⟩ | ⟨_, h⟩ <;> rw [h] <;> omega

theorem tdiv_range {n : Int} (hlow : -n <= w) (hhigh : w < n) (hv : v ≠ 0)
    (htrap : ¬ (w = -n ∧ v = -1)) :
    (-n <= w.tdiv v ∧ w.tdiv v < n) ∧ -n <= w.tmod v ∧ w.tmod v < n := by
  have hmodle : w.natAbs % v.natAbs <= w.natAbs := Nat.mod_le _ _
  constructor
  · by_cases hone : v = 1
    · rw [hone, Int.tdiv_one]
      exact ⟨hlow, hhigh⟩
    by_cases hminus : v = -1
    · rw [hminus, Int.tdiv_neg, Int.tdiv_one]
      omega
    have hhalf : w.natAbs / v.natAbs * 2 <= w.natAbs :=
      le_trans (Nat.mul_le_mul_left _ (by omega)) (Nat.div_mul_le_self _ _)
    have habs : (w.tdiv v).natAbs = w.natAbs / v.natAbs := Int.natAbs_tdiv w v
    omega
  · rw [tmod_eq_sign]
    rcases lt_trichotomy w 0 with hw | rfl | hw
    · rw [Int.sign_eq_neg_one_of_neg hw]
      omega
    · rw [Int.sign_zero]
      omega
    · rw [Int.sign_eq_one_of_pos hw]
      omega

def MachineTrap (w v : Int) : Prop :=
  v = -1 ∧ (w = -2 ^ 31 ∨ w = -2 ^ 63)

/-- Machine division of operands that fit `bytes` bytes. -/
theorem machineDiv_quoRem (bits : Nat) (hbytes : bytes <= dbNumericBufSize)
    (hbits : (256 ^ bytes : Nat) = (2 : Int) * 2 ^ (bits - 1))
    (hlow : -((256 ^ bytes : Nat) : Int) <= w * 2) (hhigh : w * 2 < (256 ^ bytes : Nat))
    (hv : v ≠ 0) :
    (machineDiv bits w v = none ∧ w = -2 ^ (bits - 1) ∧ v = -1) ∨
      ¬ (w = -2 ^ (bits - 1) ∧ v = -1) ∧ exists p, machineDiv bits w v = some p ∧
        QuoRem w v dbNumericBufSize (integerBytes bytes p.1, integerBytes bytes p.2) := by
  unfold machineDiv
  by_cases htrap : w = -2 ^ (bits - 1) ∧ v = -1
  · left
    rw [if_pos (.inr htrap)]
    exact ⟨rfl, htrap⟩
  right
  rw [if_neg (fun h => h.elim hv htrap)]
  rcases tdiv_range (n := 2 ^ (bits - 1)) (by omega) (by omega) hv htrap with
    ⟨⟨hq1, hq2⟩, hr1, hr2⟩
  refine ⟨htrap, _, rfl, length_integerBytes hbytes _, length_integerBytes hbytes _, ?_, ?_⟩
  · rw [beInt_integerBytes hbytes (by omega) (by omega)]
  · rw [beInt_integerBytes hbytes (by omega) (by omega)]

theorem numericIsLong_of_range (hlen : arg.length = dbNumericBufSize)
    (hlow : -2 ^ 31 <= beInt arg) (hhigh : beInt arg < 2 ^ 31) : numericIsLong arg = true :=
  isSignExtended_of_range hlen (by decide) (by decide) (by omega) (by omega)

theorem numericIsBigint_of_range (hlen : arg.length = dbNumericBufSize)
    (hlow : -2 ^ 63 <= beInt arg) (hhigh : beInt arg < 2 ^ 63) : numericIsBigint arg = true :=
  isSignExtended_of_range hlen (by decide) (by decide) (by omega) (by omega)

theorem numericDiv_quoRem {arg1 : List UInt8} (hlen1 : arg1.length = dbNumericBufSize)
    (hlen2 : arg2.length = dbNumericBufSize) (hv : beInt arg2 ≠ 0) :
    (MachineTrap (beInt arg1) (beInt arg2) ∧ numericDiv arg1 arg2 = none) ∨
      ¬ MachineTrap (beInt arg1) (beInt arg2) ∧ exists r, numericDiv arg1 arg2 = some r ∧
        QuoRem (beInt arg1) (beInt arg2) dbNumericBufSize r := by
  unfold numericDiv
  rw [if_neg (fun h => hv ((numericIsZero_iff hlen2).mp h))]
  by_cases hzero : numericIsZero arg1 = true
  · right
    rw [if_pos hzero]
    rw [numericIsZero_iff hlen1] at hzero
    have hnull : beInt (numericCoerceIntToNum 0) = 0 := by decide
    refine ⟨?_, _, rfl, length_integerBytes (by decide) 0, length_integerBytes (by decide) 0,
      ?_, ?_⟩
    · rintro ⟨_, hw⟩
      omega
    · rw [hnull, hzero, Int.zero_tdiv]
    · rw [hnull, hzero, Int.zero_tmod]
  rw [if_neg hzero]
  by_cases hlong : (numericIsLong arg1 && numericIsLong arg2) = true
  · rw [if_pos hlong]
    rw [Bool.and_eq_true] at hlong
    rw [numericCoerceNumToInt_value hlong.1 hlen1, numericCoerceNumToInt_value hlong.2 hlen2]
    rcases isSignExtended_range hlong.1 hlen1 (by decide) (by decide) with ⟨hlow, hhigh⟩
    rcases machineDiv_quoRem 32 (by decide) (by norm_num) hlow hhigh hv with
      ⟨hnone, hw, hv1⟩ | ⟨hno, p, hp, hquo⟩
    · left
      rw [hnone]
      exact ⟨⟨hv1, .inl hw⟩, rfl⟩
    right
    rw [hp]
    refine ⟨?_, _, rfl, hquo⟩
    rintro ⟨hv1, hw⟩
    omega
  rw [if_neg hlong]
  by_cases hbig : (numericIsBigint arg1 && numericIsBigint arg2) = true
  · rw [if_pos hbig]
    rw [Bool.and_eq_true] at hbig
    rw [numericCoerceNumToBigint_value hbig.1 hlen1, numericCoerceNumToBigint_value hbig.2 hlen2]
    rcases isSignExtended_range hbig.1 hlen1 (by decide) (by decide) with ⟨hlow, hhigh⟩
    rcases machineDiv_quoRem 64 (by decide) (by norm_num) hlow hhigh hv with
      ⟨hnone, hw, hv1⟩ | ⟨hno, p, hp, hquo⟩
    · left
      simp only [hnone]
      exact ⟨⟨hv1, .inr hw⟩, rfl⟩
    right
    simp only [hp]
    refine ⟨?_, _, rfl, hquo⟩
    -- `-2 ^ 31` and `-1` would have been divided as long integers
    rintro ⟨hv1, hw | hw⟩
    · apply hlong
      rw [numericIsLong_of_range hlen1 (by omega) (by omega),
        numericIsLong_of_range hlen2 (by omega) (by omega)]
      rfl
    · exact hno ⟨hw, hv1⟩
  · right
    rw [if_neg hbig]
    refine ⟨?_, _, rfl, ?_⟩
    · rintro ⟨hv1, hw⟩
      apply hbig
      rw [numericIsBigint_of_range hlen1 (by omega) (by omega),
        numericIsBigint_of_range hlen2 (by omega) (by omega)]
      rfl
    · have hlongdiv := numericLongDiv_quoRem (buf_ne_nil hlen1) hlen2 hv
      rwa [hlen1] at hlongdiv

/-!
## The two ways to divide
-/

theorem beNat_injective {xs ys : List UInt8} (hlen : xs.length = ys.length)
    (h : beNat xs = beNat ys) : xs = ys := by
  induction xs generalizing ys with
  | nil => exact (length_eq_zero_iff.mp hlen.symm).symm
  | cons x xs ih =>
    cases ys with
    | nil => exact absurd hlen (Nat.succ_ne_zero _)
    | cons y ys =>
      have hrest : xs.length = ys.length := Nat.succ.inj hlen
      rw [beNat_cons, beNat_cons, hrest, Nat.add_comm, Nat.add_comm (y.toNat * _)] at h
      rcases eq_of_add_mul_eq (hrest ▸ beNat_lt xs) (beNat_lt ys) h with ⟨hlow, hhigh⟩
      rw [ih hrest hlow, UInt8.toNat_inj.mp hhigh]

theorem eq_of_beInt_emod {xs ys : List UInt8} {n : Nat} (hx : xs.length = n) (hy : ys.length = n)
    (h : beInt xs % (256 ^ n : Nat) = beInt ys % (256 ^ n : Nat)) : xs = ys := by
  have hltx := beNat_lt xs
  have hlty := beNat_lt ys
  subst hx
  rw [hy] at hlty
  have hys := beInt_emod ys
  rw [hy] at hys
  rw [beInt_emod, hys, ← Int.natCast_emod, ← Int.natCast_emod, Nat.mod_eq_of_lt hltx,
    Nat.mod_eq_of_lt hlty] at h
  exact beNat_injective hy.symm (Int.natCast_inj.mp h)

theorem QuoRem.unique {r s : List UInt8 × List UInt8} (hr : QuoRem w v size r)
    (hs : QuoRem w v size s) : r = s := by
  apply Prod.ext
  · exact eq_of_beInt_emod hr.length_quo hs.length_quo (hr.quo.trans hs.quo.symm)
  · apply eq_of_beInt_emod hr.length_rem hs.length_rem
    rw [hr.rem, hs.rem]

/-- Both ways to divide give the quotient rounded towards zero and its remainder. -/
structure DividesAlike (arg1 arg2 : List UInt8) : Prop where
  same : numericDiv arg1 arg2 = some (numericLongDiv arg1 arg2)
  quo : beInt (numericLongDiv arg1 arg2).1 = (beInt arg1).tdiv (beInt arg2)
  rem : beInt (numericLongDiv arg1 arg2).2 = (beInt arg1).tmod (beInt arg2)

/-- The machine traps at two dividends; the quotient of the third needs one bit more. -/
theorem dividesAlike_iff {arg1 arg2 : List UInt8} (hlen1 : arg1.length = dbNumericBufSize)
    (hlen2 : arg2.length = dbNumericBufSize) (hv : beInt arg2 ≠ 0) :
    DividesAlike arg1 arg2 <-> ¬ (beInt arg2 = -1 ∧
      (beInt arg1 = -2 ^ 31 ∨ beInt arg1 = -2 ^ 63 ∨ beInt arg1 = -2 ^ 127)) := by
  have hlong := numericLongDiv_quoRem (buf_ne_nil hlen1) hlen2 hv
  have hlt := beNat_lt arg1
  have hcases := beInt_cases arg1
  rw [hlen1] at hlong hlt hcases
  have hsize : 256 ^ dbNumericBufSize = 2 * 2 ^ 127 := by decide
  rw [hsize] at hlt hcases
  rcases numericDiv_quoRem hlen1 hlen2 hv with ⟨htrap, hnone⟩ | ⟨htrap, r, hr, hquo⟩
  · constructor
    · intro h
      exact absurd (h.same.symm.trans hnone) (by simp)
    · intro h
      exact absurd ⟨htrap.1, htrap.2.imp_right .inl⟩ h
  constructor
  · rintro ⟨-, hq, -⟩ ⟨hv1, hw | hw | hw⟩
    · exact htrap ⟨hv1, .inl hw⟩
    · exact htrap ⟨hv1, .inr hw⟩
    have hqcases := beInt_cases (numericLongDiv arg1 arg2).1
    have hqlt := beNat_lt (numericLongDiv arg1 arg2).1
    rw [hlong.length_quo, hsize] at hqcases hqlt
    rw [hv1, hw, Int.tdiv_neg, Int.tdiv_one] at hq
    omega
  · intro h
    have hrange := tdiv_range (n := 2 ^ 127) (w := beInt arg1) (by omega) (by omega) hv
      (fun hw => h ⟨hw.2, .inr (.inr hw.1)⟩)
    have hexact := beInt_eq_of_range hlong.length_quo hlong.quo (by omega) (by omega)
    exact ⟨hr.trans (congrArg some (hquo.unique hlong)), hexact, hlong.rem⟩

theorem dividesAlike_iff_seven :
    DividesAlike (integerBytes dbNumericBufSize (-7)) (integerBytes dbNumericBufSize 2) :=
  (dividesAlike_iff (by decide) (by decide) (by decide)).mpr (by decide)

theorem not_dividesAlike_intMin :
    ¬ DividesAlike (integerBytes dbNumericBufSize (-2 ^ 31))
      (integerBytes dbNumericBufSize (-1)) := by
  intro h
  have htrap : numericDiv (integerBytes dbNumericBufSize (-2 ^ 31))
      (integerBytes dbNumericBufSize (-1)) = none := by decide +kernel
  exact absurd (h.same.symm.trans htrap) (by simp)

end Rye.Query
