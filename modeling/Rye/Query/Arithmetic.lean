import Mathlib.Algebra.Ring.Int.Defs
import Mathlib.Algebra.Ring.Nat

/-!
# Arithmetic on integers

INTEGER and BIGINT operands are added, subtracted and multiplied with wrap-around, and a test on
the operands and the wrapped result tells whether it is exact.  The test of a product divides it
by an operand.  Dividing the smallest number by -1 has no defined result: it is an outcome of its
own here, neither a value nor an error.
-/

namespace Rye.Query

inductive DbInteger where
  | integer (i : BitVec 32)
  | bigint (bi : BitVec 64)
deriving DecidableEq

def DbInteger.width : DbInteger -> Nat
  | .integer _ => 32
  | .bigint _ => 64

def DbInteger.toInt : DbInteger -> Int
  | .integer i => i.toInt
  | .bigint bi => bi.toInt

inductive ArithErr where
  | failed
  | qprocOverflowHappened
  | qprocOverflowSubtraction
  | qprocOverflowMultiplication
  | qprocZeroDivide
deriving DecidableEq

/-- A call ends without a value when it returns `status` after setting the error `id`, or when an
undefined division is executed. -/
inductive Failure where
  | refused (status id : ArithErr)
  | undefinedDivision
deriving DecidableEq

abbrev Arith := Except Failure

/-- The smallest number of `w` bits is divided by -1. -/
def DividesMinimum (w : Nat) (x y : Int) : Prop :=
  2 * x = -2 ^ w ∧ y = -1

instance (w : Nat) (x y : Int) : Decidable (DividesMinimum w x y) :=
  inferInstanceAs (Decidable (_ ∧ _))

section

variable {w : Nat}

def machineDivide (a b : BitVec w) : Arith (BitVec w) :=
  if b.toInt = 0 ∨ DividesMinimum w a.toInt b.toInt then .error .undefinedDivision
  else .ok (a.sdiv b)

def orCheckAddOverflow (a b c : BitVec w) : Bool :=
  (0 < a.toInt && 0 < b.toInt && c.toInt < 0) || (a.toInt < 0 && b.toInt < 0 && 0 <= c.toInt)

def orCheckSubUnderflow (a b c : BitVec w) : Bool :=
  (a.toInt < b.toInt && 0 < c.toInt) || (b.toInt < a.toInt && c.toInt < 0)

def orCheckMultOverflow (a b c : BitVec w) : Arith Bool :=
  if b.toInt = 0 then .ok (c.toInt != 0) else (machineDivide c b).map fun quotient => quotient != a

variable (make : BitVec w -> DbInteger) (a b : BitVec w)

def qdataAdd : Arith DbInteger :=
  if orCheckAddOverflow a b (a + b) then
    .error (.refused .qprocOverflowHappened .qprocOverflowHappened)
  else .ok (make (a + b))

def qdataSubtract : Arith DbInteger :=
  if orCheckSubUnderflow a b (a - b) then .error (.refused .failed .qprocOverflowSubtraction)
  else .ok (make (a - b))

def qdataMultiply : Arith DbInteger := do
  if ← orCheckMultOverflow a b (a * b) then
    .error (.refused .failed .qprocOverflowMultiplication)
  else .ok (make (a * b))

def qdataDivide : Arith DbInteger :=
  (machineDivide a b).map make

end

def qdataAddInt := qdataAdd DbInteger.integer
def qdataAddBigint := qdataAdd DbInteger.bigint
def qdataSubtractInt := qdataSubtract DbInteger.integer
def qdataSubtractBigint := qdataSubtract DbInteger.bigint
def qdataMultiplyInt := qdataMultiply DbInteger.integer
def qdataMultiplyBigint := qdataMultiply DbInteger.bigint
def qdataDivideInt := qdataDivide DbInteger.integer
def qdataDivideBigint := qdataDivide DbInteger.bigint

/-- The choice by the types of the operands: an INTEGER next to a BIGINT becomes one. -/
def toDbval (int : BitVec 32 -> BitVec 32 -> Arith DbInteger)
    (bigint : BitVec 64 -> BitVec 64 -> Arith DbInteger) : DbInteger -> DbInteger -> Arith DbInteger
  | .integer i1, .integer i2 => int i1 i2
  | .integer i, .bigint bi => bigint (i.signExtend 64) bi
  | .bigint bi, .integer i => bigint bi (i.signExtend 64)
  | .bigint bi1, .bigint bi2 => bigint bi1 bi2

def qdataAddDbval := toDbval qdataAddInt qdataAddBigint

def qdataSubtractDbval := toDbval qdataSubtractInt qdataSubtractBigint

/-- The BIGINT operand is the first one of the product. -/
def qdataMultiplyDbval : DbInteger -> DbInteger -> Arith DbInteger
  | .integer i1, .integer i2 => qdataMultiplyInt i1 i2
  | .integer i, .bigint bi => qdataMultiplyBigint bi (i.signExtend 64)
  | .bigint bi, .integer i => qdataMultiplyBigint bi (i.signExtend 64)
  | .bigint bi1, .bigint bi2 => qdataMultiplyBigint bi1 bi2

def qdataIsDividedZero (v : DbInteger) : Bool :=
  v.toInt == 0

def qdataDivideDbval (v1 v2 : DbInteger) : Arith DbInteger :=
  if qdataIsDividedZero v2 then .error (.refused .qprocZeroDivide .qprocZeroDivide)
  else toDbval qdataDivideInt qdataDivideBigint v1 v2

/-!
## Exact or refused
-/

/-- The number is one of `w` bits. -/
def Within (w : Nat) (x : Int) : Prop :=
  -2 ^ w <= 2 * x ∧ 2 * x < 2 ^ w

def Refused (run : Arith DbInteger) : Prop :=
  exists status id, run = .error (.refused status id)

/-- The run returns the exact result if there is one of the width, and an error otherwise. -/
def ExactOrRefused (w : Nat) (exact : Option Int) (run : Arith DbInteger) : Prop :=
  (exists x v, exact = some x ∧ Within w x ∧ run = .ok v ∧ v.width = w ∧ v.toInt = x) ∨
    (forall x, exact = some x -> ¬ Within w x) ∧ Refused run

section

variable {w : Nat} {a b c : BitVec w} {x : Int} {make : BitVec w -> DbInteger}

theorem within_toInt (c : BitVec w) : Within w c.toInt :=
  ⟨BitVec.le_two_mul_toInt, BitVec.two_mul_toInt_lt⟩

/-- Up to twice the range, a wrapped number is exact or off by the modulus. -/
theorem wrapped_cases (hc : c.toInt = x.bmod (2 ^ w)) (hlow : -2 ^ w <= x) (hhigh : x <= 2 ^ w) :
    c.toInt = x ∨ c.toInt = x + 2 ^ w ∨ c.toInt = x - 2 ^ w := by
  have hwithin := within_toInt c
  have hpos : (0 : Int) < 2 ^ w := Int.pow_pos (by decide)
  have hdvd : (2 : Int) ^ w ∣ c.toInt - x := by
    rw [hc]
    exact_mod_cast Int.dvd_bmod_sub_self
  unfold Within at hwithin
  generalize (2 : Int) ^ w = n at *
  rcases hdvd with ⟨k, hk⟩
  have hk1 : k < 2 := by
    by_contra h
    have hle := Int.mul_le_mul_of_nonneg_left (show 2 <= k by omega) (Int.le_of_lt hpos)
    omega
  have hk2 : -2 < k := by
    by_contra h
    have hle := Int.mul_le_mul_of_nonneg_left (show k <= -2 by omega) (Int.le_of_lt hpos)
    omega
  rcases (by omega : k = -1 ∨ k = 0 ∨ k = 1) with rfl | rfl | rfl <;> omega

theorem exactOrRefused_ok (hmake : (make c).width = w ∧ (make c).toInt = c.toInt)
    (hx : c.toInt = x) : ExactOrRefused w (some x) (.ok (make c)) :=
  .inl ⟨x, make c, rfl, hx ▸ within_toInt c, rfl, hmake.1, hmake.2.trans hx⟩

theorem not_exactOrRefused_undefined {exact : Option Int} :
    ¬ ExactOrRefused w exact (.error .undefinedDivision) := by
  rintro (⟨x, v, _, _, hrun, _⟩ | ⟨_, status, id, hrun⟩)
  · cases hrun
  · cases hrun

theorem toInt_sdiv_of_defined (hb : b.toInt ≠ 0) (h : ¬ DividesMinimum w a.toInt b.toInt) :
    (a.sdiv b).toInt = a.toInt.tdiv b.toInt := by
  apply BitVec.toInt_sdiv_of_ne_or_ne
  by_contra hne
  rw [not_or, not_not, not_not] at hne
  rcases hne with ⟨rfl, rfl⟩
  cases w with
  | zero => exact hb rfl
  | succ w =>
    apply h
    constructor
    · rw [BitVec.toInt_intMin_of_pos (by omega), Nat.add_sub_cancel, Int.pow_succ]
      omega
    · rw [BitVec.neg_one_eq_allOnes, BitVec.toInt_allOnes, if_pos (by omega)]

/-- A test that tells whether the wrapped result is exact. -/
theorem exactOrRefused_ite {check : Bool} {status id : ArithErr}
    (hmake : (make c).width = w ∧ (make c).toInt = c.toInt) (hc : c.toInt = x.bmod (2 ^ w))
    (hcheck : check = false <-> c.toInt = x) :
    ExactOrRefused w (some x) (if check then .error (.refused status id) else .ok (make c)) := by
  cases check with
  | false => exact exactOrRefused_ok hmake (hcheck.mp rfl)
  | true =>
    refine .inr ⟨?_, status, id, rfl⟩
    intro y hy hwithin
    cases hy
    unfold Within at hwithin
    have hexact : x.bmod (2 ^ w) = x := by
      apply Int.bmod_eq_of_le_mul_two
      · push_cast
        omega
      · push_cast
        omega
    exact absurd (hcheck.mpr (hc.trans hexact)) (by decide)

variable (hc : c.toInt = (a.toInt * b.toInt).bmod (2 ^ w))
include hc

theorem dividesMinimum_mul_iff :
    DividesMinimum w c.toInt b.toInt <-> DividesMinimum w a.toInt b.toInt := by
  apply and_congr_left
  intro hneg
  have ha := within_toInt a
  have hwithin := within_toInt c
  unfold Within at ha hwithin
  rw [hneg, Int.mul_neg_one] at hc
  have hcases := wrapped_cases hc (by omega) (by omega)
  omega

/-- Dividing a wrapped product by an operand gives the other one only if the product is exact:
the remainder of the division is smaller than the modulus. -/
theorem sdiv_eq_iff (hb : b.toInt ≠ 0) (hmin : ¬ DividesMinimum w c.toInt b.toInt) :
    c.sdiv b = a <-> c.toInt = a.toInt * b.toInt := by
  rw [← BitVec.toInt_inj, toInt_sdiv_of_defined hb hmin]
  constructor
  · intro hquotient
    have hsum := Int.mul_tdiv_add_tmod c.toInt b.toInt
    rw [hquotient, Int.mul_comm] at hsum
    have hdvd : ((2 ^ w : Nat) : Int) ∣ c.toInt.tmod b.toInt := by
      have hdvd := @Int.dvd_bmod_sub_self (a.toInt * b.toInt) (2 ^ w)
      rwa [← hc, show c.toInt - a.toInt * b.toInt = c.toInt.tmod b.toInt by omega] at hdvd
    have hlt : (c.toInt.tmod b.toInt).natAbs < ((2 ^ w : Nat) : Int).natAbs := by
      rw [Int.natAbs_tmod]
      have hmod := Nat.mod_lt c.toInt.natAbs (Int.natAbs_pos.mpr hb)
      have hwithin := within_toInt b
      unfold Within at hwithin
      push_cast
      omega
    rw [← hsum, Int.eq_zero_of_dvd_of_natAbs_lt_natAbs hdvd hlt, Int.add_zero]
  · intro hexact
    rw [hexact, Int.mul_tdiv_cancel _ hb]

omit hc

section

variable (hmake : forall c, (make c).width = w ∧ (make c).toInt = c.toInt) (a b : BitVec w)
include hmake

theorem qdataAdd_exact :
    ExactOrRefused w (some (a.toInt + b.toInt)) (qdataAdd make a b) := by
  have ha := within_toInt a
  have hb := within_toInt b
  have hc := within_toInt (a + b)
  have hwrapped := BitVec.toInt_add a b
  unfold Within at ha hb hc
  have hcases := wrapped_cases hwrapped (by omega) (by omega)
  apply exactOrRefused_ite (hmake _) hwrapped
  simp only [orCheckAddOverflow, Bool.or_eq_false_iff, Bool.and_eq_false_iff,
    decide_eq_false_iff_not]
  omega

theorem qdataSubtract_exact :
    ExactOrRefused w (some (a.toInt - b.toInt)) (qdataSubtract make a b) := by
  have ha := within_toInt a
  have hb := within_toInt b
  have hc := within_toInt (a - b)
  have hwrapped := BitVec.toInt_sub (x := a) (y := b)
  unfold Within at ha hb hc
  have hcases := wrapped_cases hwrapped (by omega) (by omega)
  apply exactOrRefused_ite (hmake _) hwrapped
  simp only [orCheckSubUnderflow, Bool.or_eq_false_iff, Bool.and_eq_false_iff,
    decide_eq_false_iff_not]
  omega

theorem qdataMultiply_iff :
    ExactOrRefused w (some (a.toInt * b.toInt)) (qdataMultiply make a b) <->
      ¬ DividesMinimum w a.toInt b.toInt := by
  have hwrapped := BitVec.toInt_mul a b
  by_cases hb : b.toInt = 0
  · have hzero : (a * b).toInt = 0 := by
      rw [hwrapped, hb, Int.mul_zero, Int.zero_bmod]
    have hrun : qdataMultiply make a b = .ok (make (a * b)) := by
      simp [qdataMultiply, orCheckMultOverflow, hb, hzero]
      rfl
    have hexact : (a * b).toInt = a.toInt * b.toInt := by
      rw [hzero, hb, Int.mul_zero]
    rw [hrun]
    refine iff_of_true (exactOrRefused_ok (hmake _) hexact) ?_
    rintro ⟨_, hneg⟩
    omega
  rw [← dividesMinimum_mul_iff hwrapped]
  by_cases hmin : DividesMinimum w (a * b).toInt b.toInt
  · have hrun : qdataMultiply make a b = .error .undefinedDivision := by
      rw [qdataMultiply, orCheckMultOverflow, if_neg hb, machineDivide, if_pos (.inr hmin)]
      rfl
    rw [hrun]
    exact iff_of_false not_exactOrRefused_undefined (not_not.mpr hmin)
  · have hrun : qdataMultiply make a b = if (a * b).sdiv b != a then
        .error (.refused .failed .qprocOverflowMultiplication) else .ok (make (a * b)) := by
      rw [qdataMultiply, orCheckMultOverflow, if_neg hb, machineDivide,
        if_neg (not_or.mpr ⟨hb, hmin⟩)]
      rfl
    rw [hrun]
    refine iff_of_true (exactOrRefused_ite (hmake _) hwrapped ?_) hmin
    rw [bne_eq_false_iff_eq, sdiv_eq_iff hwrapped hb hmin]

theorem qdataDivide_iff :
    ExactOrRefused w (if b.toInt = 0 then none else some (a.toInt.tdiv b.toInt))
        (qdataDivide make a b) <->
      b.toInt ≠ 0 ∧ ¬ DividesMinimum w a.toInt b.toInt := by
  unfold qdataDivide machineDivide
  by_cases h : b.toInt = 0 ∨ DividesMinimum w a.toInt b.toInt
  · rw [if_pos h]
    exact iff_of_false not_exactOrRefused_undefined fun hdef => h.elim hdef.1 hdef.2
  · rw [if_neg h]
    rw [not_or] at h
    rw [if_neg h.1]
    exact iff_of_true (exactOrRefused_ok (hmake _) (toInt_sdiv_of_defined h.1 h.2)) h

end

end

/-!
## The four operations
-/

inductive ArithOp where
  | add
  | subtract
  | multiply
  | divide

def ArithOp.dbval : ArithOp -> DbInteger -> DbInteger -> Arith DbInteger
  | .add => qdataAddDbval
  | .subtract => qdataSubtractDbval
  | .multiply => qdataMultiplyDbval
  | .divide => qdataDivideDbval

def ArithOp.exact : ArithOp -> Int -> Int -> Option Int
  | .add, x, y => some (x + y)
  | .subtract, x, y => some (x - y)
  | .multiply, x, y => some (x * y)
  | .divide, x, y => if y = 0 then none else some (x.tdiv y)

/-- The width of the wider type. -/
def commonWidth (v1 v2 : DbInteger) : Nat :=
  max v1.width v2.width

/-- Where an undefined division is executed. -/
def ArithOp.Undefined (op : ArithOp) (v1 v2 : DbInteger) : Prop :=
  match op, v1, v2 with
  | .add, _, _ | .subtract, _, _ => False
  | .multiply, .integer i, .bigint bi => DividesMinimum 64 bi.toInt i.toInt
  | .multiply, v1, v2 | .divide, v1, v2 => DividesMinimum (commonWidth v1 v2) v1.toInt v2.toInt

theorem toDbval_iff
    (op : forall {w : Nat}, (BitVec w -> DbInteger) -> BitVec w -> BitVec w -> Arith DbInteger)
    (exact : Int -> Int -> Option Int) (P : Nat -> Int -> Int -> Prop)
    (h : forall {w : Nat} {make : BitVec w -> DbInteger},
      (forall c, (make c).width = w ∧ (make c).toInt = c.toInt) -> forall a b : BitVec w,
        ExactOrRefused w (exact a.toInt b.toInt) (op make a b) <-> P w a.toInt b.toInt)
    (v1 v2 : DbInteger) :
    ExactOrRefused (commonWidth v1 v2) (exact v1.toInt v2.toInt)
        (toDbval (op .integer) (op .bigint) v1 v2) <->
      P (commonWidth v1 v2) v1.toInt v2.toInt := by
  have hint := @h 32 .integer fun _ => ⟨rfl, rfl⟩
  have hbigint := @h 64 .bigint fun _ => ⟨rfl, rfl⟩
  have hwiden : forall i : BitVec 32, (i.signExtend 64).toInt = i.toInt :=
    fun i => BitVec.toInt_signExtend_of_le (by decide)
  cases v1 with
  | integer i1 =>
    cases v2 with
    | integer i2 => exact hint i1 i2
    | bigint bi =>
      have hmixed := hbigint (i1.signExtend 64) bi
      rwa [hwiden] at hmixed
  | bigint bi1 =>
    cases v2 with
    | integer i =>
      have hmixed := hbigint bi1 (i.signExtend 64)
      rwa [hwiden] at hmixed
    | bigint bi2 => exact hbigint bi1 bi2

/-- Each operation is exact or refused unless it executes an undefined division. -/
theorem dbval_exactOrRefused_iff (op : ArithOp) (v1 v2 : DbInteger) :
    ExactOrRefused (commonWidth v1 v2) (op.exact v1.toInt v2.toInt) (op.dbval v1 v2) <->
      ¬ op.Undefined v1 v2 := by
  cases op with
  | add =>
    have h := toDbval_iff qdataAdd ArithOp.add.exact (fun _ _ _ => ¬ False)
      (fun hmake a b => iff_of_true (qdataAdd_exact hmake a b) id)
    exact h v1 v2
  | subtract =>
    have h := toDbval_iff qdataSubtract ArithOp.subtract.exact (fun _ _ _ => ¬ False)
      (fun hmake a b => iff_of_true (qdataSubtract_exact hmake a b) id)
    exact h v1 v2
  | multiply =>
    have h := toDbval_iff qdataMultiply ArithOp.multiply.exact
      (fun w x y => ¬ DividesMinimum w x y) qdataMultiply_iff
    cases v1 with
    | integer i1 =>
      cases v2 with
      | integer i2 => exact h (.integer i1) (.integer i2)
      | bigint bi =>
        have hswapped := h (.bigint bi) (.integer i1)
        rwa [ArithOp.exact, Int.mul_comm] at hswapped
    | bigint bi1 =>
      cases v2 with
      | integer i => exact h (.bigint bi1) (.integer i)
      | bigint bi2 => exact h (.bigint bi1) (.bigint bi2)
  | divide =>
    have h := toDbval_iff qdataDivide ArithOp.divide.exact
      (fun w x y => y ≠ 0 ∧ ¬ DividesMinimum w x y) qdataDivide_iff v1 v2
    by_cases hzero : v2.toInt = 0
    · have hrun : qdataDivideDbval v1 v2 =
          .error (.refused .qprocZeroDivide .qprocZeroDivide) := by
        simp [qdataDivideDbval, qdataIsDividedZero, hzero]
      refine iff_of_true (.inr ⟨?_, _, _, hrun⟩) ?_
      · simp [ArithOp.exact, hzero]
      · rintro ⟨_, hneg⟩
        omega
    · have hrun : qdataDivideDbval v1 v2 = toDbval qdataDivideInt qdataDivideBigint v1 v2 := by
        simp [qdataDivideDbval, qdataIsDividedZero, hzero]
      rw [ArithOp.dbval, hrun]
      exact h.trans (and_iff_right hzero)

/-- The smallest INTEGER divided by -1. -/
theorem not_exactOrRefused_minimum :
    ¬ ExactOrRefused 32 (some 2147483648)
      (qdataDivideDbval (.integer (.ofInt 32 (-2147483648))) (.integer (.ofInt 32 (-1)))) := by
  have hrun : qdataDivideDbval (.integer (.ofInt 32 (-2147483648))) (.integer (.ofInt 32 (-1))) =
      .error .undefinedDivision := by
    decide
  rw [hrun]
  exact not_exactOrRefused_undefined

end Rye.Query
