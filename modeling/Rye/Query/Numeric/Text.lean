import Rye.Query.Numeric.AddSub

/-!
# Printing and reading

The printer walks over the decimal string, leaves out the leading zeros in front
of the digit before the point, and puts the point in by its index.  The reader
drops the point again, counts precision and scale on the way, and rebuilds the
integer from the digits it has kept.  Reading what was printed gives back the
integer and the scale; the precision may be smaller.
-/

namespace Rye.Query

open Foundation List

/-- The loop of the printer at index `i`. -/
def printLoop (tempSize scale : Nat) : Nat -> Bool -> List Char -> List Char
  | _, _, [] => []
  | i, foundFirstNonZero, c :: temp =>
    let found := foundFirstNonZero || isSignificant c
    (if c = '-' then ['-'] else []) ++
      (if i + scale = tempSize then ['.'] else []) ++
      (if found || tempSize <= i + scale + 1 then [c] else []) ++
      printLoop tempSize scale (i + 1) found temp

def numericDbValuePrint (val : DbValue) : List Char :=
  if val.isNull then []
  else
    let temp := numericCoerceNumToDecStr val.locateNumeric
    printLoop temp.length val.scale 0 false temp

/-!
## The reader
-/

/-- The variables of the reader; `prec` is the length of `numString`. -/
structure ReadState where
  numString : List Char
  scale : Nat
  leadingZeroes : Bool
  signFound : Bool
  negateValue : Bool
  padCharacterZero : Bool
  trailingSpaces : Bool
  decimalPart : Bool
deriving DecidableEq, Repr

namespace ReadState

def initial : ReadState where
  numString := []
  scale := 0
  leadingZeroes := true
  signFound := false
  negateValue := false
  padCharacterZero := false
  trailingSpaces := false
  decimalPart := false

def prec (state : ReadState) : Nat :=
  state.numString.length

def kept (state : ReadState) : List Char :=
  if state.prec = 0 && state.padCharacterZero then ['0'] else state.numString

def addDigit (state : ReadState) (c : Char) : ReadState :=
  { state with numString := state.numString ++ [c], leadingZeroes := false }

end ReadState

/-- The character in front of the first digit that counts. -/
def readLeading (c : Char) (state : ReadState) : Except ErrorCode ReadState :=
  if isSignificant c then .ok (state.addDigit c)
  else if c = '+' || c = '-' then
    if state.signFound then .error .domainIncompatible
    else
      .ok { state with
        signFound := true
        negateValue := state.negateValue || c = '-' }
  else if c = '0' then .ok { state with padCharacterZero := true }
  else if isspace c then .ok state
  else .error .domainIncompatible

/-- The character behind the first digit that counts, or behind the point. -/
def readTrailing (c : Char) (state : ReadState) : Except ErrorCode ReadState :=
  if state.trailingSpaces && !isspace c then .error .domainIncompatible
  else if isspace c then .ok { state with trailingSpaces := true, scale := state.scale - 1 }
  else if c = ',' then
    if state.decimalPart then .error .domainIncompatible else .ok state
  else if '0' <= c && c <= '9' then .ok (state.addDigit c)
  else .error .domainIncompatible

def readChar (astringLength i : Nat) (c : Char) (state : ReadState) :
    Except ErrorCode ReadState :=
  if c = '.' then
    .ok { state with
      leadingZeroes := false
      decimalPart := true
      scale := astringLength - (i + 1) }
  else if state.leadingZeroes then readLeading c state
  else readTrailing c state

/-- The loop of the reader; it ends early when there are too many digits. -/
def readLoop (astringLength : Nat) : Nat -> List Char -> ReadState ->
    Except ErrorCode ReadState
  | _, [], state => .ok state
  | i, c :: rest, state =>
    match readChar astringLength i c state with
    | .error ret => .error ret
    | .ok state =>
      if state.prec > dbMaxNumericPrecision then .ok state
      else readLoop astringLength (i + 1) rest state

def readResult (state : ReadState) : ErrorCode × DbValue :=
  if state.prec > dbMaxNumericPrecision then exitOnError .numOverflow
  else
    let num := numericCoerceDecStrToNum state.kept
    let num := if state.negateValue then numericNegate num else num
    dbMakeNumeric num state.kept.length state.scale

def numericCoerceStringToNum (astring : List Char) (astringLength : Nat) :
    ErrorCode × DbValue :=
  match readLoop astringLength 0 (astring.take astringLength) .initial with
  | .error ret => exitOnError ret
  | .ok state => readResult state

/-!
## What is printed
-/

/-- The point and the digits behind it, if there are any. -/
def pointed (frac : List Char) : List Char :=
  if frac = [] then [] else '.' :: frac

variable {c : Char} {tempSize scale i : Nat} {frac digits : List Char} {astringLength : Nat}
    {state : ReadState} {x : Numeric}

theorem ne_minus (h : c.isDigit = true) : c ≠ '-' :=
  (digit_not_special h).2.1

theorem printLoop_frac {found : Bool} (h : AllDigits frac) (hi : tempSize < i + scale) :
    printLoop tempSize scale i found frac = frac := by
  induction frac generalizing i found with
  | nil => rfl
  | cons c frac ih =>
    have hkeep : tempSize <= i + scale + 1 := by omega
    rw [printLoop, if_neg (ne_minus (h c mem_cons_self)), if_neg (by omega),
      ih (h.of_subset (subset_cons_self c frac)) (by omega)]
    simp [hkeep]

theorem printLoop_point {found : Bool} (h : AllDigits frac) (hi : i + scale = tempSize) :
    printLoop tempSize scale i found frac = pointed frac := by
  cases frac with
  | nil => rfl
  | cons c frac =>
    have hkeep : tempSize <= i + scale + 1 := by omega
    rw [printLoop, if_neg (ne_minus (h c mem_cons_self)), if_pos hi,
      printLoop_frac (h.of_subset (subset_cons_self c frac)) (by omega)]
    simp [hkeep, pointed]

theorem printLoop_found (h : AllDigits digits) (hfrac : AllDigits frac)
    (hi : i + digits.length + scale = tempSize) :
    printLoop tempSize scale i true (digits ++ frac) = digits ++ pointed frac := by
  induction digits generalizing i with
  | nil => exact printLoop_point hfrac (by simpa using hi)
  | cons c digits ih =>
    rw [length_cons] at hi
    rw [cons_append, printLoop, if_neg (ne_minus (h c mem_cons_self)),
      if_neg (by omega), Bool.true_or, ih (h.of_subset (subset_cons_self c digits)) (by omega)]
    simp

/-- The digits in front of the point as they are printed: no leading zero, except for the
last digit. -/
inductive Stripped : List Char -> Prop
  | zero : Stripped ['0']
  | significant {c : Char} {digits : List Char} (h : isSignificant c = true) :
      Stripped (c :: digits)

theorem printLoop_leading {lead : List Char} (h : AllDigits lead) (hfrac : AllDigits frac)
    (hne : lead ≠ []) (hi : i + lead.length + scale = tempSize) :
    exists digits, printLoop tempSize scale i false (lead ++ frac) = digits ++ pointed frac ∧
      AllDigits digits ∧ Stripped digits ∧ strVal digits = strVal lead := by
  induction lead generalizing i with
  | nil => exact absurd rfl hne
  | cons c lead ih =>
    have hc := h c mem_cons_self
    have hlead := h.of_subset (subset_cons_self c lead)
    rw [length_cons] at hi
    rw [cons_append, printLoop, if_neg (ne_minus hc), if_neg (by omega), Bool.false_or]
    by_cases hsig : isSignificant c = true
    · refine ⟨c :: lead, ?_, h, .significant hsig, rfl⟩
      rw [hsig, printLoop_found hlead hfrac (by omega)]
      simp
    have hzero : c = '0' := not_not.mp (mt (isSignificant_iff hc).mpr hsig)
    rw [Bool.not_eq_true] at hsig
    rw [hsig, Bool.false_or]
    by_cases hlast : lead = []
    · refine ⟨['0'], ?_, ?_, .zero, ?_⟩
      · have hend : i + 1 + scale = tempSize := by
          rw [hlast] at hi
          exact hi
        have hrest : printLoop tempSize scale (i + 1) false ([] ++ frac) = pointed frac :=
          printLoop_point hfrac hend
        rw [hlast, hrest, hzero, if_pos (by simp; omega)]
        rfl
      · rw [← hzero]
        exact h.of_subset (by simp)
      · rw [hlast, hzero]
    · have hpos := length_pos_of_ne_nil hlast
      rcases ih (i := i + 1) hlead hlast (by omega) with
        ⟨digits, hrun, hdigits, hstripped, hval⟩
      refine ⟨digits, ?_, hdigits, hstripped, ?_⟩
      · rw [hrun]
        simp
        omega
      · rw [hval, strVal_cons, hzero]
        simp [digitVal]

theorem printLoop_minus {temp : List Char} (h : scale + 1 < tempSize) :
    printLoop tempSize scale 0 false ('-' :: temp) =
      '-' :: printLoop tempSize scale 1 false temp := by
  have hkeep : (false || isSignificant '-' || decide (tempSize <= 0 + scale + 1)) = false := by
    have hsig : isSignificant '-' = false := by decide
    rw [hsig]
    simp
    omega
  rw [printLoop, if_pos rfl, if_neg (by omega), hkeep]
  rfl

structure PointDigits (x : Numeric) (digits frac : List Char) : Prop where
  allDigits : AllDigits digits
  allDigits_frac : AllDigits frac
  stripped : Stripped digits
  length_frac : frac.length = x.scale
  strVal_digits : strVal digits = x.toInt.natAbs / 10 ^ x.scale
  strVal_frac : strVal frac = x.toInt.natAbs % 10 ^ x.scale

def signChars (negative : Bool) : List Char :=
  if negative then ['-'] else []

theorem numericDbValuePrint_digits (x : Numeric) :
    exists digits frac, PointDigits x digits frac ∧
      numericDbValuePrint x.toDbValue =
        signChars (decide (x.toInt < 0)) ++ (digits ++ pointed frac) := by
  rcases numericCoerceNumToDecStr_prints x.buf_length with ⟨s, hstr, hprints⟩
  have hscale : x.scale < twiceNumMaxPrec := lt_of_le_of_lt x.scale_le_max (by decide)
  have hslen := hprints.length
  let lead := s.take (s.length - x.scale)
  let frac := s.drop (s.length - x.scale)
  have hleadlen : lead.length = twiceNumMaxPrec - x.scale := by
    rw [length_take, hslen]
    omega
  have hfraclen : frac.length = x.scale := by
    rw [length_drop, hslen]
    omega
  have hlead : AllDigits lead := hprints.digits.of_subset (take_subset _ _)
  have hfrac : AllDigits frac := hprints.digits.of_subset (drop_subset _ _)
  have hsplit : lead ++ frac = s := take_append_drop _ _
  have hne : lead ≠ [] := by
    rw [← length_pos_iff_ne_nil]
    omega
  have hquo := strVal_append_div lead hfrac
  have hrem := strVal_append_mod lead hfrac
  rw [hsplit, hfraclen, hprints.value] at hquo hrem
  have hrun : numericDbValuePrint x.toDbValue = printLoop
      (numericCoerceNumToDecStr x.buf).length x.scale 0 false (numericCoerceNumToDecStr x.buf) :=
    rfl
  have hloop : forall signSize, signSize <= 1 -> exists digits, PointDigits x digits frac ∧
      printLoop (signSize + twiceNumMaxPrec) x.scale signSize false s = digits ++ pointed frac := by
    intro signSize _
    have hend : signSize + lead.length + x.scale = signSize + twiceNumMaxPrec := by omega
    rcases printLoop_leading hlead hfrac hne hend with ⟨digits, hdigits, hall, hstripped, hval⟩
    rw [hsplit] at hdigits
    exact ⟨digits, ⟨hall, hfrac, hstripped, hfraclen, hval.trans hquo.symm, hrem.symm⟩, hdigits⟩
  rw [hrun, hstr, length_append, hslen]
  by_cases hneg : x.toInt < 0
  · rcases hloop 1 (le_refl 1) with ⟨digits, hpoint, hdigits⟩
    refine ⟨digits, frac, hpoint, ?_⟩
    have hsign : beInt x.buf < 0 := hneg
    rw [if_pos hsign, decide_eq_true hneg, singleton_append, length_singleton,
      printLoop_minus (by omega), hdigits]
    rfl
  · rcases hloop 0 (by decide) with ⟨digits, hpoint, hdigits⟩
    refine ⟨digits, frac, hpoint, ?_⟩
    have hsign : ¬ beInt x.buf < 0 := hneg
    rw [if_neg hsign, decide_eq_false hneg]
    exact hdigits

/-!
## Reading it back
-/

theorem digit_range (h : c.isDigit = true) : ('0' <= c && c <= '9') = true := by
  have hbounds := digit_bounds h
  rw [Bool.and_eq_true, decide_eq_true_eq, decide_eq_true_eq]
  exact hbounds

theorem digit_ne (h : c.isDigit = true) : c ≠ '.' ∧ c ≠ ',' := by
  constructor <;> rintro rfl <;> exact absurd h (by decide)

theorem readChar_digit (hc : c.isDigit = true) (hlead : state.leadingZeroes = false)
    (htrail : state.trailingSpaces = false) :
    readChar astringLength i c state = .ok (state.addDigit c) := by
  rcases digit_ne hc with ⟨hpoint, hcomma⟩
  have hspace := (digit_not_special hc).1
  unfold readChar readTrailing
  rw [if_neg hpoint, hlead, if_neg (by decide), htrail, hspace, Bool.false_and,
    if_neg (by decide), if_neg (by decide), if_neg hcomma, if_pos (digit_range hc)]

open ReadState

theorem readLoop_digits (astringLength i : Nat) (rest : List Char) (state : ReadState)
    (h : AllDigits digits) (hlead : state.leadingZeroes = false)
    (htrail : state.trailingSpaces = false)
    (hroom : state.prec + digits.length <= dbMaxNumericPrecision) :
    readLoop astringLength i (digits ++ rest) state =
      readLoop astringLength (i + digits.length) rest
        { state with numString := state.numString ++ digits } := by
  induction digits generalizing i state with
  | nil => simp
  | cons c digits ih =>
    have hc := h c mem_cons_self
    have hprec : (state.addDigit c).prec = state.prec + 1 := by
      simp [addDigit, prec]
    rw [length_cons] at hroom
    have hrest := ih (i + 1) (state.addDigit c)
      (h.of_subset (subset_cons_self c digits)) rfl htrail (by omega)
    rw [cons_append, readLoop, readChar_digit hc hlead htrail]
    dsimp only
    rw [if_neg (by omega), hrest]
    simp [addDigit, hlead, Nat.add_comm, Nat.add_left_comm]

structure ReadState.Fresh (state : ReadState) : Prop where
  leadingZeroes : state.leadingZeroes = true
  trailingSpaces : state.trailingSpaces = false
  numString : state.numString = []
  scale : state.scale = 0

def afterDigits (digits : List Char) (state : ReadState) : ReadState :=
  if digits = ['0'] then { state with padCharacterZero := true }
  else { state with numString := digits, leadingZeroes := false }

theorem readLoop_stripped {rest : List Char} (h : AllDigits digits) (hstripped : Stripped digits)
    (hfresh : state.Fresh) (hroom : digits.length <= dbMaxNumericPrecision) :
    readLoop astringLength i (digits ++ rest) state =
      readLoop astringLength (i + digits.length) rest (afterDigits digits state) := by
  rcases hfresh with ⟨hlead, htrail, hempty, -⟩
  have hprec : state.prec = 0 := by rw [prec, hempty, length_nil]
  cases hstripped with
  | zero =>
    have hstep : readChar astringLength i '0' state =
        .ok { state with padCharacterZero := true } := by
      unfold readChar
      rw [if_neg (by decide), if_pos hlead]
      rfl
    rw [cons_append, nil_append, readLoop, hstep]
    dsimp only
    rw [if_neg (by change ¬ state.prec > _; omega)]
    rfl
  | @significant c digits hsig =>
    have hc := h c mem_cons_self
    have hstep : readChar astringLength i c state = .ok (state.addDigit c) := by
      unfold readChar readLeading
      rw [if_neg (digit_ne hc).1, if_pos hlead, if_pos hsig]
    have hone : (state.addDigit c).prec = 1 := by
      simp [addDigit, prec, hempty]
    have hnotzero : c :: digits ≠ ['0'] := by
      intro heq
      rw [(List.cons.inj heq).1] at hsig
      exact absurd hsig (by decide)
    have hrest := readLoop_digits astringLength (i + 1) rest (state.addDigit c)
      (h.of_subset (subset_cons_self c digits)) rfl htrail
      (by rw [hone, Nat.add_comm]; exact hroom)
    rw [cons_append, readLoop, hstep]
    dsimp only
    rw [if_neg (by rw [hone]; decide), hrest, afterDigits, if_neg hnotzero, length_cons,
      Nat.add_assoc, Nat.add_comm 1]
    simp [addDigit, hempty]

theorem readLoop_pointed (state : ReadState) (h : AllDigits frac)
    (hi : i + (pointed frac).length = astringLength) (htrail : state.trailingSpaces = false)
    (hscale : state.scale = 0) (hroom : state.prec + frac.length <= dbMaxNumericPrecision) :
    exists last, readLoop astringLength i (pointed frac) state = .ok last ∧
      last.numString = state.numString ++ frac ∧ last.scale = frac.length ∧
      last.negateValue = state.negateValue ∧
      last.padCharacterZero = state.padCharacterZero := by
  by_cases hnil : frac = []
  · refine ⟨state, ?_, ?_, ?_, rfl, rfl⟩
    · rw [pointed, if_pos hnil, readLoop]
    · rw [hnil, append_nil]
    · rw [hscale, hnil, length_nil]
  rw [pointed, if_neg hnil, length_cons] at hi
  have hrest := readLoop_digits astringLength (i + 1) []
    { state with
      leadingZeroes := false
      decimalPart := true
      scale := astringLength - (i + 1) }
    h rfl htrail hroom
  rw [append_nil] at hrest
  rw [pointed, if_neg hnil, readLoop, readChar, if_pos rfl]
  dsimp only
  rw [if_neg (by change ¬ state.prec > _; omega), hrest, readLoop]
  exact ⟨_, rfl, rfl, by change astringLength - (i + 1) = _; omega, rfl, rfl⟩

theorem kept_of_ne_nil (h : state.numString ≠ []) : state.kept = state.numString := by
  have hpos := length_pos_of_ne_nil h
  have hprec : state.prec ≠ 0 := by
    rw [prec]
    omega
  rw [kept, decide_eq_false hprec, Bool.false_and]
  rfl

/-- A state whose characters stand for the magnitude of `x`. -/
structure ReadsBack (x : Numeric) (state : ReadState) : Prop where
  negateValue : state.negateValue = decide (x.toInt < 0)
  scale : state.scale = x.scale
  prec_le : state.prec <= dbMaxNumericPrecision
  allDigits : AllDigits state.kept
  strVal : strVal state.kept = x.toInt.natAbs
  length_pos : 1 <= state.kept.length
  length_le : state.kept.length <= dbMaxNumericPrecision
  scale_le : x.scale <= state.kept.length

theorem le_strVal_of_significant (h : AllDigits (c :: digits)) (hsig : isSignificant c = true) :
    10 ^ digits.length <= strVal (c :: digits) := by
  have hc := h c mem_cons_self
  have hne := (isSignificant_iff hc).mp hsig
  have hpos : 1 <= digitVal c := Nat.one_le_iff_ne_zero.mpr (mt (digitVal_eq_zero_iff hc).mp hne)
  have hmul := Nat.mul_le_mul_right (10 ^ digits.length) hpos
  rw [strVal_cons]
  omega

theorem PointDigits.length_le (h : PointDigits x digits frac) (hne : digits ≠ ['0']) :
    digits.length + frac.length <= x.precision := by
  rcases h with ⟨hall, -, hstripped, hfrac, hval, -⟩
  cases hstripped with
  | zero => exact absurd rfl hne
  | @significant c digits hsig =>
    have hle := le_strVal_of_significant hall hsig
    rw [hval, Nat.le_div_iff_mul_le (by positivity), ← pow_add] at hle
    have hlt := (Nat.pow_lt_pow_iff_right (by decide)).mp (lt_of_le_of_lt hle x.bounded)
    rw [length_cons, hfrac]
    omega

theorem PointDigits.strVal_append (h : PointDigits x digits frac) :
    strVal (digits ++ frac) = x.toInt.natAbs := by
  rw [Foundation.strVal_append, h.strVal_digits, h.length_frac, h.strVal_frac]
  exact Nat.div_add_mod' _ _

theorem readLoop_zero_readsBack (h : PointDigits x ['0'] frac) (hfresh : state.Fresh)
    (hneg : state.negateValue = decide (x.toInt < 0))
    (hi : i + 1 + (pointed frac).length = astringLength) :
    exists last, readLoop astringLength i (['0'] ++ pointed frac) state = .ok last ∧
      ReadsBack x last := by
  have hfraclen := h.length_frac
  have hsmax := x.scale_le_max
  have hval := h.strVal_append
  have hprec : state.prec + frac.length <= dbMaxNumericPrecision := by
    rw [prec, hfresh.numString, length_nil]
    omega
  rw [readLoop_stripped h.allDigits h.stripped hfresh (by decide)]
  rcases readLoop_pointed { state with padCharacterZero := true } h.allDigits_frac hi
    hfresh.trailingSpaces hfresh.scale hprec with ⟨last, hrun, hstr, hscale, hlneg, hpad⟩
  rw [hfresh.numString, nil_append] at hstr
  have hlprec : last.prec = frac.length := by rw [prec, hstr]
  refine ⟨last, hrun, ?_⟩
  by_cases hnil : frac = []
  · have hkept : last.kept = ['0'] := by
      rw [kept, hlprec, hnil, hpad]
      rfl
    rw [hnil, append_nil] at hval
    rw [hnil, length_nil] at hfraclen hscale hlprec
    exact ⟨hlneg.trans hneg, by omega, by omega, hkept ▸ h.allDigits, hkept ▸ hval,
      hkept ▸ le_refl 1, by rw [hkept]; decide, by omega⟩
  · have hpos := length_pos_of_ne_nil hnil
    have hkept : last.kept = frac := by
      rw [kept_of_ne_nil (by rwa [hstr]), hstr]
    have hleading : strVal ['0'] = 0 := rfl
    rw [strVal_append, hleading, Nat.zero_mul, Nat.zero_add] at hval
    exact ⟨hlneg.trans hneg, by omega, by omega, hkept ▸ h.allDigits_frac, hkept ▸ hval,
      hkept ▸ hpos, by rw [hkept]; omega, by rw [hkept]; omega⟩

theorem readLoop_significant_readsBack (h : PointDigits x digits frac) (hne : digits ≠ ['0'])
    (hfresh : state.Fresh) (hneg : state.negateValue = decide (x.toInt < 0))
    (hi : i + digits.length + (pointed frac).length = astringLength) :
    exists last, readLoop astringLength i (digits ++ pointed frac) state = .ok last ∧
      ReadsBack x last := by
  have hmax := x.precision_le
  have hfraclen := h.length_frac
  have hlen := h.length_le hne
  have hpos : 1 <= digits.length := by
    cases h.stripped <;> simp
  have hafter : afterDigits digits state =
      { state with numString := digits, leadingZeroes := false } := by
    rw [afterDigits, if_neg hne]
  rw [readLoop_stripped h.allDigits h.stripped hfresh (by omega), hafter]
  rcases readLoop_pointed { state with numString := digits, leadingZeroes := false }
    h.allDigits_frac hi hfresh.trailingSpaces hfresh.scale
    (by change digits.length + _ <= _; omega) with ⟨last, hrun, hstr, hscale, hlneg, -⟩
  change last.numString = digits ++ frac at hstr
  have hkept : last.kept = digits ++ frac := by
    rw [kept_of_ne_nil, hstr]
    rw [hstr, ← length_pos_iff_ne_nil, length_append]
    omega
  have hklen : last.kept.length = digits.length + frac.length := by
    rw [hkept, length_append]
  have hlprec : last.prec = digits.length + frac.length := by
    rw [prec, hstr, length_append]
  exact ⟨last, hrun, hlneg.trans hneg, by omega, by omega,
    hkept ▸ allDigits_append.mpr ⟨h.allDigits, h.allDigits_frac⟩, hkept ▸ h.strVal_append,
    by omega, by omega, by omega⟩

theorem ReadsBack.result (h : ReadsBack x state) :
    exists z : Numeric, readResult state = (.noError, z.toDbValue) ∧
      z.scale = x.scale ∧ z.toInt = x.toInt := by
  have hlt := x.bounded_max
  have hsize := pow_precision_lt
  rcases numericCoerceDecStrToNum_value h.allDigits (by rw [h.strVal]; omega) false with
    ⟨hlen, hval⟩
  have hint := beInt_signed hval h.negateValue (fun h0 => by rw [h.strVal, h0]; rfl)
  rw [h.strVal, Int.sign_mul_natAbs] at hint
  have hbound := h.allDigits.lt
  rw [h.strVal, ← hint] at hbound
  have hwell := dbMakeNumeric_wellFormed h.length_pos h.length_le h.scale_le
    ((length_signed _ state.negateValue).trans hlen) hbound
  rcases hwell with ⟨z, hz, hzint, hzscale, -⟩
  refine ⟨z, ?_, hzscale, hzint.trans hint⟩
  unfold readResult
  rw [if_neg (not_lt.mpr h.prec_le), h.scale]
  exact hz

theorem readLoop_readsBack (h : PointDigits x digits frac) (hfresh : state.Fresh)
    (hneg : state.negateValue = decide (x.toInt < 0))
    (hi : i + (digits ++ pointed frac).length = astringLength) :
    exists last, readLoop astringLength i (digits ++ pointed frac) state = .ok last ∧
      ReadsBack x last := by
  rw [length_append, ← Nat.add_assoc] at hi
  by_cases hzero : digits = ['0']
  · rw [hzero] at h hi ⊢
    exact readLoop_zero_readsBack h hfresh hneg hi
  · exact readLoop_significant_readsBack h hzero hfresh hneg hi

/-- Reading a printed value gives back its integer and its scale. -/
theorem numericCoerceStringToNum_print (x : Numeric) :
    let astring := numericDbValuePrint x.toDbValue
    exists z : Numeric, numericCoerceStringToNum astring astring.length =
      (.noError, z.toDbValue) ∧ z.scale = x.scale ∧ z.toInt = x.toInt := by
  rcases numericDbValuePrint_digits x with ⟨digits, frac, hpoint, hprint⟩
  have hread : exists last, readLoop (numericDbValuePrint x.toDbValue).length 0
      (numericDbValuePrint x.toDbValue) .initial = .ok last ∧ ReadsBack x last := by
    rw [hprint]
    by_cases hneg : x.toInt < 0
    · rw [decide_eq_true hneg]
      exact readLoop_readsBack (i := 1) hpoint ⟨rfl, rfl, rfl, rfl⟩ (decide_eq_true hneg).symm
        (Nat.add_comm _ _)
    · rw [decide_eq_false hneg]
      exact readLoop_readsBack hpoint ⟨rfl, rfl, rfl, rfl⟩ (decide_eq_false hneg).symm
        (Nat.zero_add _)
  rcases hread with ⟨last, hrun, hback⟩
  intro astring
  unfold numericCoerceStringToNum
  rw [take_length, hrun]
  exact hback.result

example :
    numericDbValuePrint
        (.ofNumeric 5 2 (integerBytes dbNumericBufSize (-7))) = "-0.07".toList ∧
      numericCoerceStringToNum "-0.07".toList 5 =
        (.noError, .ofNumeric 2 2 (integerBytes dbNumericBufSize (-7))) := by
  decide +kernel

end Rye.Query
