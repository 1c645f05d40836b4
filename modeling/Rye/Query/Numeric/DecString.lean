import Rye.Query.Numeric.Buffer

/-!
# Decimal strings

A `DEC_STRING` holds 76 decimal digits, most significant first.  The digits in
front of the number are not zero but unset (`-1`), which is how the addition
knows where its first argument begins and stops there.

Printing a buffer adds up the decimal strings of the powers of two of its set
bits.  Reading a string goes the other way, nine digits at a time.
-/

namespace Rye.Query

open Foundation List

/-- One digit of a `DEC_STRING`; `none` stands for the unset digit `-1`. -/
abbrev DecDigit := Option Nat

def twiceNumMaxPrec : Nat := 2 * dbMaxNumericPrecision

def numericInitDecStr : List DecDigit :=
  List.replicate (twiceNumMaxPrec - 1) none ++ [some 0]

/-- The table `fast_mod`. -/
def fastMod (n : Nat) : Nat :=
  [0, 1, 2, 3, 4, 5, 6, 7, 8, 9, 0, 1, 2, 3, 4, 5, 6, 7, 8, 9].getD n 0

/-!
## Addition

The loop runs from the last digit.  Its state is `answer_bit`, or `none` once
the loop was left; the digits of `answer` in front of that point stay.
-/

def addDecLoop :
    List DecDigit -> List DecDigit -> List DecDigit -> List DecDigit × Option Nat
  | a :: as, b :: bs, o :: os =>
    match addDecLoop as bs os with
    | (ds, none) => (o :: ds, none)
    | (ds, some answerBit) =>
      if a = none ∧ answerBit < 10 then (o :: ds, none)
      else
        let answerBit := a.getD 0 + b.getD 0 + (if answerBit >= 10 then 1 else 0)
        (some (fastMod answerBit) :: ds, some answerBit)
  | _, _, _ => ([], some 0)

def numericAddDecStr (arg1 arg2 answer : List DecDigit) : List DecDigit :=
  (addDecLoop arg1 arg2 answer).1

/-- The table `powers_of_2`. -/
def numericGetPowOf2 : Nat -> List DecDigit
  | 0 => List.replicate (twiceNumMaxPrec - 1) none ++ [some 1]
  | exp + 1 =>
    let prior := numericGetPowOf2 exp
    numericAddDecStr prior prior numericInitDecStr

/-- The number a decimal string stands for, unset digits read as zero. -/
def decVal (ds : List DecDigit) : Nat :=
  posVal 10 (ds.map fun d => d.getD 0)

def Digits (ds : List DecDigit) : Prop :=
  forall d, d ∈ ds -> d.getD 0 < 10

def UnsetFirst (ds : List DecDigit) : Prop :=
  ds.Pairwise fun d e => d ≠ none -> e ≠ none

/-- Where the first argument is unset, the old answer reads as the second argument. -/
def KeepsSecond : List DecDigit -> List DecDigit -> List DecDigit -> Prop
  | a :: as, b :: bs, o :: os => (a = none -> o.getD 0 = b.getD 0) ∧ KeepsSecond as bs os
  | [], [], [] => True
  | _, _, _ => False

def carryOf : Option Nat -> Nat
  | none => 0
  | some answerBit => if answerBit >= 10 then 1 else 0

theorem fastMod_eq {n : Nat} (h : n < 20) : fastMod n = n % 10 := by
  interval_cases n <;> rfl

theorem decVal_cons (d : DecDigit) (ds : List DecDigit) :
    decVal (d :: ds) = d.getD 0 * 10 ^ ds.length + decVal ds := by
  simp [decVal, posVal_cons]

variable {ds as bs : List DecDigit}

theorem digits_cons {d : DecDigit} : Digits (d :: ds) <-> d.getD 0 < 10 ∧ Digits ds := by
  simp [Digits]

/-- What the addition loop has computed when it is done with a suffix. -/
structure AddDecSpec (as bs : List DecDigit) (out : List DecDigit × Option Nat) : Prop where
  length : out.1.length = as.length
  digits : Digits out.1
  value : decVal out.1 + carryOf out.2 * 10 ^ as.length = decVal as + decVal bs
  stopped : out.2 = none -> none ∈ as
  bounded : forall answerBit, out.2 = some answerBit -> answerBit < 20

variable {os : List DecDigit}

theorem keepsSecond_length (h : KeepsSecond as bs os) : bs.length = as.length := by
  induction as generalizing bs os with
  | nil =>
    cases bs with
    | nil => rfl
    | cons b bs => exact h.elim
  | cons a as ih =>
    cases bs with
    | nil => exact h.elim
    | cons b bs =>
      cases os with
      | nil => exact h.elim
      | cons o os => simp [ih h.2]

theorem AddDecSpec.keep {a b o : DecDigit} {state : Option Nat} (h : AddDecSpec as bs (ds, state))
    (hlen : bs.length = as.length) (hcarry : carryOf state = 0) (ha : a = none)
    (hb : b.getD 0 < 10) (ho : o.getD 0 = b.getD 0) :
    AddDecSpec (a :: as) (b :: bs) (o :: ds, none) where
  length := by simp [h.length]
  digits := digits_cons.mpr ⟨by rwa [ho], h.digits⟩
  value := by
    have hval : decVal ds = decVal as + decVal bs := by
      simpa [hcarry] using h.value
    simp only [carryOf, Nat.zero_mul, Nat.add_zero, decVal_cons, ho, ha, hlen, h.length,
      Option.getD_none, Nat.zero_add]
    omega
  stopped _ := by simp [ha]
  bounded := by simp

theorem AddDecSpec.add {a b : DecDigit} {answerBit : Nat}
    (h : AddDecSpec as bs (ds, some answerBit)) (hlen : bs.length = as.length)
    (ha : a.getD 0 < 10) (hb : b.getD 0 < 10) {sum : Nat}
    (hsum : sum = a.getD 0 + b.getD 0 + carryOf (some answerBit)) :
    AddDecSpec (a :: as) (b :: bs) (some (fastMod sum) :: ds, some sum) := by
  have hcarry : carryOf (some answerBit) <= 1 := by
    simp only [carryOf]
    split <;> omega
  have hbound : sum < 20 := by omega
  have hmod : fastMod sum = sum % 10 := fastMod_eq hbound
  have hdiv : carryOf (some sum) = sum / 10 := by
    simp only [carryOf]
    split <;> omega
  refine ⟨by simp [h.length], ?_, ?_, by simp, ?_⟩
  · refine digits_cons.mpr ⟨?_, h.digits⟩
    rw [Option.getD_some, hmod]
    omega
  · have hval := h.value
    simp only [decVal_cons, Option.getD_some, hmod, hdiv, hlen, h.length, length_cons, Nat.pow_succ]
    have hparts := Nat.div_add_mod sum 10
    calc
      sum % 10 * 10 ^ as.length + decVal ds + sum / 10 * (10 ^ as.length * 10)
          = (10 * (sum / 10) + sum % 10) * 10 ^ as.length + decVal ds := by ring
      _ = (a.getD 0 + b.getD 0) * 10 ^ as.length +
            (decVal ds + carryOf (some answerBit) * 10 ^ as.length) := by
          rw [hparts, hsum]
          ring
      _ = a.getD 0 * 10 ^ as.length + decVal as + (b.getD 0 * 10 ^ as.length + decVal bs) := by
          rw [hval]
          ring
  · intro bit hbit
    cases hbit
    exact hbound

theorem addDecLoop_spec (ha : Digits as) (hb : Digits bs) (hfirst : UnsetFirst as)
    (hkeeps : KeepsSecond as bs os) : AddDecSpec as bs (addDecLoop as bs os) := by
  induction as generalizing bs os with
  | nil =>
    cases bs with
    | nil =>
      refine ⟨by simp [addDecLoop], by simp [addDecLoop, Digits], ?_, ?_, ?_⟩
      · rfl
      · simp [addDecLoop]
      · simp [addDecLoop]
    | cons b bs => exact hkeeps.elim
  | cons a as ih =>
    cases bs with
    | nil => exact hkeeps.elim
    | cons b bs =>
      cases os with
      | nil => exact hkeeps.elim
      | cons o os =>
        rcases digits_cons.mp ha with ⟨ha0, ha'⟩
        rcases digits_cons.mp hb with ⟨hb0, hb'⟩
        rcases pairwise_cons.mp hfirst with ⟨hset, hfirst'⟩
        have hrest := ih ha' hb' hfirst' hkeeps.2
        have hlen : bs.length = as.length := keepsSecond_length hkeeps.2
        unfold addDecLoop
        rcases hout : addDecLoop as bs os with ⟨ds, state⟩
        rw [hout] at hrest
        cases state with
        | none =>
          have hnone : a = none := by
            by_contra hne
            exact hset none (hrest.stopped rfl) hne rfl
          exact hrest.keep hlen rfl hnone hb0 (hkeeps.1 hnone)
        | some answerBit =>
          dsimp only
          by_cases hstop : a = none ∧ answerBit < 10
          · rw [if_pos hstop]
            have hcarry : carryOf (some answerBit) = 0 := by
              simp only [carryOf]
              rw [if_neg (by omega)]
            exact hrest.keep hlen hcarry hstop.1 hb0 (hkeeps.1 hstop.1)
          · rw [if_neg hstop]
            exact hrest.add hlen ha0 hb0 rfl

structure IsDecStr (ds : List DecDigit) : Prop where
  length : ds.length = twiceNumMaxPrec
  digits : Digits ds

theorem keepsSecond_self (h : as.length = bs.length) : KeepsSecond as bs bs := by
  induction as generalizing bs with
  | nil =>
    cases bs with
    | nil => trivial
    | cons b bs => cases h
  | cons a as ih =>
    cases bs with
    | nil => cases h
    | cons b bs => exact ⟨fun _ => rfl, ih (by simpa using h)⟩

theorem numericAddDecStr_value (ha : IsDecStr as) (hb : IsDecStr bs) (hfirst : UnsetFirst as)
    (hfits : decVal as + decVal bs < 10 ^ twiceNumMaxPrec) :
    IsDecStr (numericAddDecStr as bs bs) ∧
      decVal (numericAddDecStr as bs bs) = decVal as + decVal bs := by
  have hspec := addDecLoop_spec ha.digits hb.digits hfirst
    (keepsSecond_self (ha.length.trans hb.length.symm))
  have hval := hspec.value
  rw [ha.length] at hval
  constructor
  · exact ⟨hspec.length.trans ha.length, hspec.digits⟩
  have hcarry : carryOf (addDecLoop as bs bs).2 = 0 := by
    by_contra hne
    have hle : 1 * 10 ^ twiceNumMaxPrec <=
        carryOf (addDecLoop as bs bs).2 * 10 ^ twiceNumMaxPrec :=
      Nat.mul_le_mul_right _ (Nat.one_le_iff_ne_zero.mpr hne)
    omega
  rw [hcarry, Nat.zero_mul, Nat.add_zero] at hval
  exact hval

/-!
## Powers of two

Doubling starts from an answer that is unset except for its last digit, so the
result is again unset in front of its first digit.
-/

/-- Where the first argument is unset, so is the old answer. -/
def KeepsUnset : List DecDigit -> List DecDigit -> Prop
  | a :: as, o :: os => (a = none -> o = none) ∧ KeepsUnset as os
  | [], [] => True
  | _, _ => False

theorem addDecLoop_unsetFirst (hlen : bs.length = as.length) (hkeeps : KeepsUnset as os)
    (hfirst : UnsetFirst as) :
    (forall answerBit, (addDecLoop as bs os).2 = some answerBit ->
      none ∉ (addDecLoop as bs os).1) ∧
      ((addDecLoop as bs os).2 = none -> none ∈ as) ∧ UnsetFirst (addDecLoop as bs os).1 := by
  induction as generalizing bs os with
  | nil => simp [addDecLoop, UnsetFirst]
  | cons a as ih =>
    cases bs with
    | nil => cases hlen
    | cons b bs =>
      cases os with
      | nil => exact hkeeps.elim
      | cons o os =>
        rcases pairwise_cons.mp hfirst with ⟨hset, hfirst'⟩
        have hrest := ih (by simpa using hlen) hkeeps.2 hfirst'
        unfold addDecLoop
        rcases hout : addDecLoop as bs os with ⟨ds, state⟩
        rw [hout] at hrest
        rcases hrest with ⟨hall, hstopped, hunset⟩
        cases state with
        | none =>
          have hnone : a = none := by
            by_contra hne
            exact hset none (hstopped rfl) hne rfl
          rw [hkeeps.1 hnone]
          refine ⟨by simp, fun _ => by simp [hnone], ?_⟩
          exact pairwise_cons.mpr ⟨fun _ _ h => absurd rfl h, hunset⟩
        | some answerBit =>
          dsimp only
          by_cases hstop : a = none ∧ answerBit < 10
          · rw [if_pos hstop, hkeeps.1 hstop.1]
            refine ⟨by simp, fun _ => by simp [hstop.1], ?_⟩
            exact pairwise_cons.mpr ⟨fun _ _ h => absurd rfl h, hunset⟩
          rw [if_neg hstop]
          have hset' : none ∉ ds := hall answerBit rfl
          refine ⟨fun _ _ => by simpa using hset', by simp, ?_⟩
          refine pairwise_cons.mpr ⟨fun d hd _ hnone => ?_, hunset⟩
          exact hset' (hnone ▸ hd)

theorem keepsUnset_init (q : List DecDigit) (d : Nat) :
    KeepsUnset (q ++ [some d]) (List.replicate q.length none ++ [some 0]) := by
  induction q with
  | nil => exact ⟨fun h => (by cases h), trivial⟩
  | cons a q ih => exact ⟨fun _ => rfl, ih⟩

theorem UnsetFirst.exists_last (h : UnsetFirst ds) (hpos : 0 < decVal ds) :
    exists q d, ds = q ++ [some d] := by
  rcases eq_nil_or_concat ds with hnil | ⟨q, last, hds⟩
  · rw [hnil] at hpos
    exact absurd hpos (by decide)
  rw [concat_eq_append] at hds
  cases last with
  | some d => exact ⟨q, d, hds⟩
  | none =>
    rw [hds] at h hpos
    have hunset : forall d, d ∈ q -> d = none := by
      intro d hd
      by_contra hne
      exact (pairwise_append.mp h).2.2 d hd none (by simp) hne rfl
    have hzero : (q ++ [none]).map (fun d : DecDigit => d.getD 0) =
        List.replicate (q.length + 1) 0 := by
      refine eq_replicate_iff.mpr ⟨by simp, fun n hn => ?_⟩
      rcases mem_map.mp hn with ⟨d, hd, rfl⟩
      rcases mem_append.mp hd with hd | hd
      · rw [hunset d hd]
        rfl
      · rw [mem_singleton.mp hd]
        rfl
    rw [decVal, hzero, posVal_replicate_zero] at hpos
    exact absurd hpos (by decide)

theorem keepsSecond_doubling {n : Nat} (h : ds.length = n + 1) :
    KeepsSecond ds ds (List.replicate n none ++ [some 0]) := by
  induction ds generalizing n with
  | nil => cases h
  | cons d ds ih =>
    cases n with
    | zero =>
      have hnil : ds = [] := length_eq_zero_iff.mp (by simpa using h)
      rw [hnil]
      exact ⟨fun hd => by rw [hd]; rfl, trivial⟩
    | succ n => exact ⟨fun hd => by rw [hd], ih (by simpa using h)⟩

structure IsPower (ds : List DecDigit) (value : Nat) : Prop extends IsDecStr ds where
  unsetFirst : UnsetFirst ds
  value_eq : decVal ds = value

theorem IsPower.double {value : Nat} (h : IsPower ds value) (hpos : 0 < value)
    (hfits : 2 * value < 10 ^ twiceNumMaxPrec) :
    IsPower (numericAddDecStr ds ds numericInitDecStr) (2 * value) := by
  have hspec := addDecLoop_spec h.digits h.digits h.unsetFirst
    (keepsSecond_doubling (n := twiceNumMaxPrec - 1) h.length)
  rcases h.unsetFirst.exists_last (by rw [h.value_eq]; exact hpos) with ⟨q, d, hds⟩
  have hq : q.length = twiceNumMaxPrec - 1 := by
    have hlen := h.length
    rw [hds, length_append, length_singleton] at hlen
    omega
  have hkeeps : KeepsUnset ds numericInitDecStr := by
    rw [hds, numericInitDecStr, ← hq]
    exact keepsUnset_init q d
  have hval := hspec.value
  rw [h.length, h.value_eq] at hval
  refine ⟨⟨hspec.length.trans h.length, hspec.digits⟩,
    (addDecLoop_unsetFirst rfl hkeeps h.unsetFirst).2.2, ?_⟩
  have hcarry : carryOf (addDecLoop ds ds numericInitDecStr).2 = 0 := by
    by_contra hne
    have hle : 1 * 10 ^ twiceNumMaxPrec <=
        carryOf (addDecLoop ds ds numericInitDecStr).2 * 10 ^ twiceNumMaxPrec :=
      Nat.mul_le_mul_right _ (Nat.one_le_iff_ne_zero.mpr hne)
    rw [numericInitDecStr] at hle
    omega
  rw [← numericInitDecStr, hcarry, Nat.zero_mul, Nat.add_zero] at hval
  exact hval.trans (by omega)

theorem numericGetPowOf2_isPower {exp : Nat} (h : exp <= 252) :
    IsPower (numericGetPowOf2 exp) (2 ^ exp) := by
  induction exp with
  | zero =>
    refine ⟨⟨by simp [numericGetPowOf2, twiceNumMaxPrec, dbMaxNumericPrecision], ?_⟩, ?_, ?_⟩
    · intro d hd
      have hd' : d = none ∨ d = some 1 := by
        simpa [numericGetPowOf2, twiceNumMaxPrec, dbMaxNumericPrecision] using hd
      rcases hd' with rfl | rfl <;> decide
    · refine pairwise_append.mpr ⟨?_, by simp, ?_⟩
      · exact pairwise_replicate.mpr (.inr fun hne => absurd rfl hne)
      · intro d hd e he hne
        exact absurd (eq_of_mem_replicate hd) hne
    · simp [numericGetPowOf2, decVal, posVal_append, posVal_singleton]
  | succ exp ih =>
    have hprior := ih (by omega)
    have hpow : 2 ^ (exp + 1) <= 2 ^ 252 := Nat.pow_le_pow_right (by decide) h
    have hfits : 2 * 2 ^ exp < 10 ^ twiceNumMaxPrec := by
      rw [← Nat.pow_succ']
      exact lt_of_le_of_lt hpow (by decide)
    have hdouble := hprior.double (Nat.pow_pos (by decide)) hfits
    rwa [← Nat.pow_succ'] at hdouble

end Rye.Query
