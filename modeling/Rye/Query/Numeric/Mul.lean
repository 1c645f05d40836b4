import Mathlib.Data.List.GetD
import Mathlib.Data.Rat.Floor
import Rye.Foundation.Rounding
import Rye.Query.Numeric.Value

/-!
# Multiplication

The magnitudes are multiplied into a buffer of twice the size, which is exact.
What happens next depends on the declared precisions and scales only: the lower
half is taken as it is when the digits are bound to fit, or when the scale leaves
no room for truncation and the product happens to fit the bytes; otherwise the
last digits of the product, printed as a string, are cut off.

A product that fits the bytes may still have 39 digits.  The second route does
not look at that, and this is the only way in which the answer can be wrong.
-/

namespace Rye.Query

open Foundation List

/-- The argument moved up by `numbytes` bytes in a buffer of `length` bytes. -/
def numericShiftByte (arg : List UInt8) (numbytes length : Nat) : List UInt8 :=
  let first : Int := length - dbNumericBufSize - numbytes
  let last : Int := length - numbytes - 1
  (List.range length).map fun (digit : Nat) =>
    if first <= digit ∧ digit <= last then arg.getD (digit - first).toNat 0 else 0

/-- The loop over the digits of the second argument, from the last one. -/
def mulLoop (arg1 : List UInt8) : List UInt8 -> Nat -> List UInt8 -> List UInt8
  | [], _, answer => answer
  | digit2 :: rest, shift, answer =>
    let answer :=
      if digit2 ≠ 0 then
        let tempArg1 := numericShiftByte arg1 shift (2 * dbNumericBufSize)
        let tempTerm := (carryChain (fun b => digit2.toNat * b.toNat) tempArg1).2
        numericAdd tempTerm answer
      else answer
    mulLoop arg1 rest (shift + 1) answer

def numericMul (a1 a2 : List UInt8) : Bool × List UInt8 :=
  let answer := List.replicate (2 * dbNumericBufSize) 0
  if numericIsZero a1 || numericIsZero a2 then (true, answer)
  else
    let arg1 := numericDbValueAbs a1
    let arg2 := numericDbValueAbs a2
    let positiveAns := !numericIsNegative a1
    let positiveAns := if numericIsNegative a2 then !positiveAns else positiveAns
    let tempArg2 := List.replicate dbNumericBufSize 0 ++ arg2
    (positiveAns, mulLoop arg1 tempArg2.reverse 0 answer)

/-- Precision, scale and digits of a product that is to fit a numeric. -/
def numericGetMsbForDec (srcPrec srcScale : Nat) (src : List UInt8) :
    Except ErrorCode (Nat × Int × List UInt8) :=
  if srcPrec <= dbMaxNumericPrecision then
    .ok (srcPrec, srcScale, src.drop dbNumericBufSize)
  else if srcScale <= dbMaxNumericPrecision then
    if numericIsZero src ∧ src.getD dbNumericBufSize 0 <= 0x7f then
      .ok (dbMaxNumericPrecision, srcScale, src.drop dbNumericBufSize)
    else .error .numOverflow
  else
    let truncationDiff := srcPrec - dbMaxNumericPrecision
    let decDigits := (numericCoerceBigNumToDecStr src).take (twiceNumMaxPrec - truncationDiff)
    .ok (dbMaxNumericPrecision, srcScale - truncationDiff, numericCoerceDecStrToNum decDigits)

def numericDbValueMul (dbv1 dbv2 : Option DbValue) : ErrorCode × DbValue :=
  withNumerics dbv1 dbv2 fun v1 v2 =>
    let product := numericMul v1.locateNumeric v2.locateNumeric
    match numericGetMsbForDec (v1.precision + v2.precision + 1) (v1.scale + v2.scale)
        product.2 with
    | .error ret => exitOnError ret
    | .ok (prec, scale, result) =>
      dbMakeNumeric (if !product.1 then numericNegate result else result) prec scale

/-!
## The product of the magnitudes
-/

theorem beNat_drop (bs : List UInt8) (n : Nat) :
    beNat (bs.drop n) = beNat bs % 256 ^ (bs.length - n) := by
  have hsplit := beNat_append (bs.take n) (bs.drop n)
  have hlt := beNat_lt (bs.drop n)
  rw [take_append_drop, length_drop] at hsplit
  rw [length_drop] at hlt
  rw [hsplit, Nat.mul_comm, Nat.mul_add_mod, Nat.mod_eq_of_lt hlt]

theorem numericShiftByte_eq {arg : List UInt8} (h : arg.length = dbNumericBufSize)
    (n length : Nat) :
    numericShiftByte arg n length =
      (List.replicate length 0 ++ (arg ++ List.replicate n 0)).drop (dbNumericBufSize + n) := by
  apply ext_getElem
  · simp [numericShiftByte, h]
  intro i h1 h2
  simp only [numericShiftByte, getElem_map, getElem_range, getElem_drop,
    getElem_append, length_replicate, getElem_replicate, h]
  by_cases hbefore : dbNumericBufSize + n + i < length
  · rw [dif_pos hbefore, if_neg (by omega)]
  rw [dif_neg hbefore]
  by_cases hafter : dbNumericBufSize + n + i - length < dbNumericBufSize
  · rw [dif_pos hafter, if_pos (by omega)]
    have hindex : ((i : Int) - ((length : Int) - (dbNumericBufSize : Nat) - n)).toNat =
        dbNumericBufSize + n + i - length := by
      omega
    rw [hindex, getD_eq_getElem _ _ (by omega)]
  · rw [dif_neg hafter, if_neg (by omega)]

theorem beNat_numericShiftByte {arg : List UInt8} (h : arg.length = dbNumericBufSize)
    (n length : Nat) :
    beNat (numericShiftByte arg n length) = beNat arg * 256 ^ n % 256 ^ length := by
  have hlen : (List.replicate length 0 ++ (arg ++ List.replicate n 0)).length -
      (dbNumericBufSize + n) = length := by
    simp [h]
  rw [numericShiftByte_eq h, beNat_drop, hlen, beNat_append, beNat_append]
  simp

@[simp] theorem length_numericShiftByte (arg : List UInt8) (n length : Nat) :
    (numericShiftByte arg n length).length = length := by
  simp [numericShiftByte]

theorem beNat_mulChain (d : UInt8) (bs : List UInt8) :
    beNat (carryChain (fun b : UInt8 => d.toNat * b.toNat) bs).2 =
      d.toNat * beNat bs % 256 ^ bs.length := by
  have hmap : bs.map (fun b : UInt8 => d.toNat * b.toNat) =
      (bs.map UInt8.toNat).map (fun b => d.toNat * b) := by
    rw [map_map]
    rfl
  rw [carryChain_mod, hmap, posVal_map_mul]
  rfl

theorem mulLoop_value {arg1 : List UInt8} (h : arg1.length = dbNumericBufSize)
    (ds : List UInt8) (shift : Nat) {answer : List UInt8}
    (hlen : answer.length = 2 * dbNumericBufSize) :
    (mulLoop arg1 ds shift answer).length = 2 * dbNumericBufSize ∧
      beNat (mulLoop arg1 ds shift answer) =
        (beNat answer + beNat arg1 * 256 ^ shift * beNat ds.reverse) %
          256 ^ (2 * dbNumericBufSize) := by
  induction ds generalizing shift answer with
  | nil =>
    have hlt := beNat_lt answer
    rw [hlen] at hlt
    refine ⟨hlen, ?_⟩
    rw [mulLoop, reverse_nil, show beNat [] = 0 from rfl, Nat.mul_zero, Nat.add_zero,
      Nat.mod_eq_of_lt hlt]
  | cons d ds ih =>
    let term := (carryChain (fun b : UInt8 => d.toNat * b.toNat)
      (numericShiftByte arg1 shift (2 * dbNumericBufSize))).2
    have hterm : beNat term = d.toNat * (beNat arg1 * 256 ^ shift % 256 ^
        (2 * dbNumericBufSize)) % 256 ^ (2 * dbNumericBufSize) := by
      simp only [term]
      rw [beNat_mulChain, beNat_numericShiftByte h, length_numericShiftByte]
    have hsame : term.length = answer.length := by simp [term, hlen]
    have hnext : (if d ≠ 0 then numericAdd term answer else answer).length =
          2 * dbNumericBufSize ∧
        beNat (if d ≠ 0 then numericAdd term answer else answer) =
          (beNat answer + d.toNat * (beNat arg1 * 256 ^ shift)) % 256 ^ (2 * dbNumericBufSize) := by
      by_cases hd : d = 0
      · have hlt := beNat_lt answer
        rw [hlen] at hlt
        rw [if_neg (not_not.mpr hd), hd, UInt8.toNat_zero, Nat.zero_mul, Nat.add_zero,
          Nat.mod_eq_of_lt hlt]
        exact ⟨hlen, rfl⟩
      · rw [if_pos hd, length_numericAdd hsame, beNat_numericAdd hsame, hterm, hsame, hlen]
        refine ⟨rfl, ?_⟩
        rw [Nat.mod_add_mod, Nat.add_mod, Nat.mul_mod_mod, ← Nat.add_mod, Nat.add_comm]
    have hrest := ih (shift + 1) hnext.1
    refine ⟨hrest.1, ?_⟩
    have hdigit : beNat (ds.reverse ++ [d]) = beNat ds.reverse * 256 + d.toNat := by
      rw [beNat_append, beNat_cons]
      simp
    have hsum : beNat answer + d.toNat * (beNat arg1 * 256 ^ shift) +
        beNat arg1 * 256 ^ (shift + 1) * beNat ds.reverse =
        beNat answer + beNat arg1 * 256 ^ shift * (beNat ds.reverse * 256 + d.toNat) := by
      ring
    rw [mulLoop, hrest.2, hnext.2, Nat.mod_add_mod, reverse_cons, hdigit, hsum]

theorem numericMul_value {a1 a2 : List UInt8} (h1 : a1.length = dbNumericBufSize)
    (h2 : a2.length = dbNumericBufSize) :
    (numericMul a1 a2).2.length = 2 * dbNumericBufSize ∧
      beNat (numericMul a1 a2).2 = (beInt a1).natAbs * (beInt a2).natAbs := by
  have hne1 : a1 ≠ [] := buf_ne_nil h1
  have hne2 : a2 ≠ [] := buf_ne_nil h2
  unfold numericMul
  by_cases hzero : (numericIsZero a1 || numericIsZero a2) = true
  · rw [if_pos hzero]
    rw [Bool.or_eq_true, numericIsZero_iff h1, numericIsZero_iff h2] at hzero
    refine ⟨by simp, ?_⟩
    rw [beNat_replicate_zero]
    rcases hzero with hz | hz <;> simp [hz]
  rw [if_neg hzero]
  have hlen1 : (numericDbValueAbs a1).length = dbNumericBufSize := by
    rw [length_numericDbValueAbs, h1]
  have hloop := mulLoop_value hlen1
    (List.replicate dbNumericBufSize 0 ++ numericDbValueAbs a2).reverse 0
    (length_replicate (n := 2 * dbNumericBufSize) (a := 0))
  refine ⟨hloop.1, ?_⟩
  have hlt1 := natAbs_beInt_lt hne1
  have hlt2 := natAbs_beInt_lt hne2
  rw [h1] at hlt1
  rw [h2] at hlt2
  have hsize : 256 ^ (2 * dbNumericBufSize) = 256 ^ dbNumericBufSize * 256 ^ dbNumericBufSize := by
    rw [Nat.two_mul, Nat.pow_add]
  have hprod : (beInt a1).natAbs * (beInt a2).natAbs < 256 ^ (2 * dbNumericBufSize) := by
    rw [hsize]
    exact Nat.mul_lt_mul'' hlt1 hlt2
  rw [hloop.2, reverse_reverse, beNat_append, beNat_replicate_zero,
    beNat_replicate_zero, Nat.zero_mul, Nat.zero_add, Nat.zero_add, Nat.pow_zero, Nat.mul_one,
    beNat_numericDbValueAbs hne1, beNat_numericDbValueAbs hne2, Nat.mod_eq_of_lt hprod]

theorem numericMul_sign {a1 a2 : List UInt8} (h1 : a1.length = dbNumericBufSize)
    (h2 : a2.length = dbNumericBufSize) :
    (!(numericMul a1 a2).1) = decide (beInt a1 * beInt a2 < 0) := by
  have hne1 : a1 ≠ [] := buf_ne_nil h1
  have hne2 : a2 ≠ [] := buf_ne_nil h2
  unfold numericMul
  rw [numericIsNegative_eq hne1, numericIsNegative_eq hne2]
  by_cases hzero : (numericIsZero a1 || numericIsZero a2) = true
  · rw [if_pos hzero]
    rw [Bool.or_eq_true, numericIsZero_iff h1, numericIsZero_iff h2] at hzero
    rcases hzero with hz | hz <;> simp [hz]
  rw [if_neg hzero]
  rw [Bool.or_eq_true, numericIsZero_iff h1, numericIsZero_iff h2, not_or] at hzero
  have hsign : beInt a1 * beInt a2 < 0 <-> (beInt a1 < 0 <-> ¬ beInt a2 < 0) := by
    rw [mul_neg_iff]
    omega
  by_cases hn1 : beInt a1 < 0 <;> by_cases hn2 : beInt a2 < 0 <;> simp [hsign, hn1, hn2]

/-!
## The answer
-/

/-- An answer is well formed and the product cut off at its scale. -/
def MulCorrect (x y : Numeric) : Prop :=
  let result := numericDbValueMul (some x.toDbValue) (some y.toDbValue)
  result.1 = .noError ->
    exists z : Numeric, result.2 = z.toDbValue ∧
      z.toRat = atScale truncate z.scale (x.toRat * y.toRat) ∧
      (x.scale + y.scale <= dbMaxNumericPrecision -> z.toRat = x.toRat * y.toRat)

/-- The product needs 39 digits, fits the bytes, and may not be truncated. -/
def Overlong (x y : Numeric) : Prop :=
  dbMaxNumericPrecision < x.precision + y.precision + 1 ∧
    x.scale + y.scale <= dbMaxNumericPrecision ∧
    10 ^ dbMaxNumericPrecision <= (x.toInt * y.toInt).natAbs ∧
    (x.toInt * y.toInt).natAbs < 2 ^ 127

theorem product_value (x y : Numeric) :
    (numericMul x.buf y.buf).2.length = 2 * dbNumericBufSize ∧
      beNat (numericMul x.buf y.buf).2 = (x.toInt * y.toInt).natAbs := by
  rw [Int.natAbs_mul]
  exact numericMul_value x.buf_length y.buf_length

theorem product_sign (x y : Numeric) :
    (!(numericMul x.buf y.buf).1) = decide (x.toInt * y.toInt < 0) :=
  numericMul_sign x.buf_length y.buf_length

theorem toRat_mul (x y : Numeric) :
    x.toRat * y.toRat = (x.toInt * y.toInt : Int) / (10 ^ (x.scale + y.scale) : Nat) := by
  unfold Numeric.toRat
  rw [div_mul_div_comm, ← pow_add]
  push_cast
  rfl

theorem natAbs_mul_lt (x y : Numeric) :
    (x.toInt * y.toInt).natAbs < 10 ^ (x.precision + y.precision) := by
  rw [Int.natAbs_mul, pow_add]
  exact Nat.mul_lt_mul'' x.bounded y.bounded

variable {x y : Numeric}

theorem mulCorrect_of_exact {z : Numeric}
    (hz : (numericDbValueMul (some x.toDbValue) (some y.toDbValue)).2 = z.toDbValue)
    (hint : z.toInt = x.toInt * y.toInt) (hscale : z.scale = x.scale + y.scale) :
    MulCorrect x y := by
  intro _
  have hrat : z.toRat = x.toRat * y.toRat := by
    rw [toRat_mul, Numeric.toRat, hint, hscale]
    push_cast
    rfl
  have hten : (10 : ℚ) ^ z.scale ≠ 0 := by positivity
  have hwhole : z.toRat * 10 ^ z.scale = (z.toInt : ℚ) / (1 : Nat) := by
    rw [Numeric.toRat, div_mul_cancel₀ _ hten, Nat.cast_one, div_one]
  refine ⟨z, hz, ?_, fun _ => hrat⟩
  rw [atScale, ← hrat, hwhole, truncate_div _ (by decide), Nat.div_one, Int.sign_mul_natAbs]
  rfl

theorem product_lower (h : (x.toInt * y.toInt).natAbs < 2 ^ 127) : let product := numericMul x.buf y.buf
    let result := product.2.drop dbNumericBufSize
    let answer := if !product.1 then numericNegate result else result
    answer.length = dbNumericBufSize ∧ beInt answer = x.toInt * y.toInt := by
  intro product result answer
  rcases product_value x y with ⟨hlen, hval⟩
  have hrlen : result.length = dbNumericBufSize := by
    rw [length_drop, hlen]
    rfl
  have hnat : beNat result = (x.toInt * y.toInt).natAbs := by
    have hsmall : (x.toInt * y.toInt).natAbs < 256 ^ dbNumericBufSize :=
      lt_trans h (by decide)
    rw [beNat_drop, hval, hlen]
    exact Nat.mod_eq_of_lt hsmall
  have hint : beInt result = (x.toInt * y.toInt).natAbs := by
    rw [beInt_of_small, hnat]
    rw [hnat, hrlen]
    exact lt_of_lt_of_le (Nat.mul_lt_mul_of_pos_left h (by decide)) (by decide)
  refine ⟨(length_signed _ _).trans hrlen, ?_⟩
  rw [beInt_signed hint (product_sign x y) Int.natAbs_eq_zero.mpr, Int.sign_mul_natAbs]

theorem numericDbValueMul_numeric (x y : Numeric) :
    numericDbValueMul (some x.toDbValue) (some y.toDbValue) =
      match numericGetMsbForDec (x.precision + y.precision + 1) (x.scale + y.scale)
          (numericMul x.buf y.buf).2 with
      | .error ret => exitOnError ret
      | .ok (prec, scale, result) =>
        dbMakeNumeric (if !(numericMul x.buf y.buf).1 then numericNegate result else result)
          prec scale :=
  rfl

theorem mulCorrect_of_precision (h : x.precision + y.precision + 1 <= dbMaxNumericPrecision) :
    MulCorrect x y := by
  have hxs := x.scale_le
  have hys := y.scale_le
  have hlt := natAbs_mul_lt x y
  have hmono : 10 ^ (x.precision + y.precision) <= 10 ^ dbMaxNumericPrecision :=
    Nat.pow_le_pow_right (by decide) (by omega)
  have hbytes : (x.toInt * y.toInt).natAbs < 2 ^ 127 :=
    lt_of_lt_of_le hlt (le_trans hmono (by decide))
  rcases product_lower hbytes with ⟨hlen, hint⟩
  have hbound : (x.toInt * y.toInt).natAbs < 10 ^ (x.precision + y.precision + 1) :=
    lt_of_lt_of_le hlt (Nat.pow_le_pow_right (by decide) (by omega))
  have hscale : x.scale + y.scale <= x.precision + y.precision + 1 := by omega
  rcases dbMakeNumeric_wellFormed (Nat.le_add_left 1 _) h hscale hlen (by rwa [hint]) with
    ⟨z, hz, hzint, hzscale, _⟩
  refine mulCorrect_of_exact ?_ (hzint.trans hint) hzscale
  rw [numericDbValueMul_numeric, numericGetMsbForDec, if_pos h]
  exact congrArg Prod.snd hz

theorem upper_half_zero_iff {src : List UInt8} (hlen : src.length = 2 * dbNumericBufSize) :
    (numericIsZero src ∧ src.getD dbNumericBufSize 0 <= 0x7f) <-> beNat src < 2 ^ 127 := by
  have hsplit := beNat_append (src.take dbNumericBufSize) (src.drop dbNumericBufSize)
  have hlower : (src.drop dbNumericBufSize).length = dbNumericBufSize := by
    rw [length_drop, hlen]
    rfl
  rw [take_append_drop, hlower] at hsplit
  have hlt := beNat_lt (src.drop dbNumericBufSize)
  have hhead := head_gt_iff (buf_ne_nil hlower)
  rw [hlower] at hlt hhead
  have hdigit : src.getD dbNumericBufSize 0 = (src.drop dbNumericBufSize).headD 0 := by
    rw [headD_eq_head?_getD, head?_drop, getD_eq_getElem?_getD]
  have hle : (src.drop dbNumericBufSize).headD 0 <= 0x7f <->
      ((src.drop dbNumericBufSize).headD 0).toNat <= 0x7f := UInt8.le_iff_toNat_le
  rw [hdigit, numericIsZero_iff_take, hle, hsplit]
  have hsize : 256 ^ dbNumericBufSize = 2 * 2 ^ 127 := by decide
  rw [hsize] at hlt hhead ⊢
  constructor
  · rintro ⟨hup, hsign⟩
    rw [hup]
    omega
  intro hsmall
  have hup : beNat (src.take dbNumericBufSize) = 0 := by
    by_contra hne
    omega
  rw [hup] at hsmall
  exact ⟨hup, by omega⟩

theorem mulCorrect_of_scale (hp : dbMaxNumericPrecision < x.precision + y.precision + 1)
    (hs : x.scale + y.scale <= dbMaxNumericPrecision) : MulCorrect x y <-> ¬ Overlong x y := by
  rcases product_value x y with ⟨hlen, hval⟩
  have hupper := upper_half_zero_iff hlen
  rw [hval] at hupper
  have hrun := numericDbValueMul_numeric x y
  rw [numericGetMsbForDec, if_neg (not_le.mpr hp), if_pos hs] at hrun
  by_cases hbytes : (x.toInt * y.toInt).natAbs < 2 ^ 127
  · rw [if_pos (hupper.mpr hbytes)] at hrun
    rcases product_lower hbytes with ⟨hrlen, hint⟩
    by_cases hover : 10 ^ dbMaxNumericPrecision <= (x.toInt * y.toInt).natAbs
    · refine ⟨fun hcorrect => ?_, fun hnot => absurd ⟨hp, hs, hover, hbytes⟩ hnot⟩
      have hmade := hrun.trans (dbMakeNumeric_eq (by decide) (le_refl _) hs hrlen)
      rcases hcorrect (congrArg Prod.fst hmade) with ⟨z, hz, _⟩
      have hbound := bounded_of_toDbValue_eq (hz.symm.trans (congrArg Prod.snd hmade))
      rw [hint] at hbound
      exact absurd hbound (not_lt.mpr hover)
    · rcases dbMakeNumeric_wellFormed (by decide) (le_refl _) hs hrlen
        (by rw [hint]; exact not_le.mp hover) with ⟨z, hz, hzint, hzscale, _⟩
      refine ⟨fun _ h => hover h.2.2.1, fun _ => ?_⟩
      refine mulCorrect_of_exact ?_ (hzint.trans hint) hzscale
      rw [hrun]
      exact congrArg Prod.snd hz
  · rw [if_neg (fun h => hbytes (hupper.mp h))] at hrun
    refine ⟨fun _ h => hbytes h.2.2.2, fun _ herr => ?_⟩
    rw [hrun] at herr
    cases herr

/-- The digits of a product without the last `diff`. -/
theorem truncated_value {src : List UInt8} (hlen : src.length = 2 * dbNumericBufSize)
    {diff : Nat} (hdiff : diff <= twiceNumMaxPrec) (hlt : beNat src < 10 ^ twiceNumMaxPrec)
    (hsmall : beNat src / 10 ^ diff < 10 ^ dbMaxNumericPrecision) :
    let kept := (numericCoerceBigNumToDecStr src).take (twiceNumMaxPrec - diff)
    (numericCoerceDecStrToNum kept).length = dbNumericBufSize ∧
      beInt (numericCoerceDecStrToNum kept) = (beNat src / 10 ^ diff : Nat) := by
  intro kept
  have hprints := numericCoerceBigNumToDecStr_prints hlen hlt
  let rest := (numericCoerceBigNumToDecStr src).drop (twiceNumMaxPrec - diff)
  have hrest : AllDigits rest := hprints.digits.of_subset (drop_subset _ _)
  have hrestlen : rest.length = diff := by
    rw [length_drop, hprints.length]
    omega
  have hkept : strVal kept = beNat src / 10 ^ diff := by
    have hdiv := strVal_append_div kept hrest
    rw [take_append_drop, hrestlen, hprints.value] at hdiv
    exact hdiv.symm
  have hfits : 2 * strVal kept < 256 ^ dbNumericBufSize := by
    rw [hkept]
    exact lt_trans (Nat.mul_lt_mul_of_pos_left hsmall (by decide)) pow_precision_lt
  have hread := numericCoerceDecStrToNum_value
    (hprints.digits.of_subset (take_subset _ _)) hfits false
  rw [← hkept]
  exact hread

theorem mulCorrect_of_truncation (hs : dbMaxNumericPrecision < x.scale + y.scale) :
    MulCorrect x y := by
  have hxs := x.scale_le
  have hys := y.scale_le
  have hxp := x.precision_le
  have hyp := y.precision_le
  have h38 : dbMaxNumericPrecision = 38 := rfl
  have h76 : twiceNumMaxPrec = 76 := rfl
  rcases product_value x y with ⟨hlen, hval⟩
  have hlt := natAbs_mul_lt x y
  obtain ⟨diff, hdiff⟩ : exists diff, x.precision + y.precision + 1 = diff + 38 :=
    ⟨x.precision + y.precision + 1 - 38, by omega⟩
  have hmono : 10 ^ (x.precision + y.precision) <= 10 ^ twiceNumMaxPrec :=
    Nat.pow_le_pow_right (by decide) (by omega)
  have hsmall : (x.toInt * y.toInt).natAbs / 10 ^ diff < 10 ^ dbMaxNumericPrecision := by
    rw [Nat.div_lt_iff_lt_mul (by positivity), ← pow_add]
    exact lt_of_lt_of_le hlt (Nat.pow_le_pow_right (by decide) (by omega))
  rcases truncated_value hlen (show diff <= twiceNumMaxPrec by omega) (by rw [hval]; omega)
    (by rwa [hval]) with ⟨hrlen, hrval⟩
  rw [hval] at hrval
  have hsigned := beInt_signed hrval (product_sign x y) (fun h0 => by rw [h0]; simp)
  have hbound : ((x.toInt * y.toInt).sign *
      ((x.toInt * y.toInt).natAbs / 10 ^ diff : Nat)).natAbs < 10 ^ dbMaxNumericPrecision := by
    rw [Int.natAbs_mul, Int.natAbs_natCast]
    have hone : (x.toInt * y.toInt).sign.natAbs <= 1 := by
      rcases Int.sign_trichotomy (x.toInt * y.toInt) with h | h | h <;> simp [h]
    calc _ <= 1 * ((x.toInt * y.toInt).natAbs / 10 ^ diff) := Nat.mul_le_mul_right _ hone
      _ < _ := by rwa [Nat.one_mul]
  rw [← hsigned] at hbound
  rcases dbMakeNumeric_wellFormed (by decide) (le_refl _)
    (show x.scale + y.scale - diff <= dbMaxNumericPrecision by omega)
    ((length_signed _ _).trans hrlen) hbound with ⟨z, hz, hzint, hzscale, _⟩
  have hrun : numericDbValueMul (some x.toDbValue) (some y.toDbValue) =
      (.noError, z.toDbValue) := by
    have hscale : ((x.scale + y.scale : Nat) : Int) - (diff : Nat) =
        (x.scale + y.scale - diff : Nat) := by
      omega
    have hsub : x.precision + y.precision + 1 - dbMaxNumericPrecision = diff := by omega
    rw [numericDbValueMul_numeric, numericGetMsbForDec, if_neg (by omega), if_neg (by omega),
      ← hz, ← hscale, hsub]
  intro _
  refine ⟨z, congrArg Prod.snd hrun, ?_, fun h => absurd hs (not_lt.mpr h)⟩
  have hquot : x.toRat * y.toRat * 10 ^ (x.scale + y.scale - diff) =
      (x.toInt * y.toInt : Int) / (10 ^ diff : Nat) := by
    have hten : (10 : ℚ) ≠ 0 := by norm_num
    rw [toRat_mul, Nat.cast_pow, Nat.cast_pow, Nat.cast_ofNat, div_mul_eq_mul_div,
      div_eq_div_iff (pow_ne_zero _ hten) (pow_ne_zero _ hten), mul_assoc, ← pow_add,
      Nat.sub_add_cancel (by omega)]
  rw [atScale, hzscale, hquot, truncate_div _ (by positivity), Numeric.toRat, hzint, hsigned,
    hzscale]

/-- Multiplication is right except for products of 39 digits that fit the bytes. -/
theorem numericDbValueMul_correct_iff (x y : Numeric) : MulCorrect x y <-> ¬ Overlong x y := by
  by_cases hp : x.precision + y.precision + 1 <= dbMaxNumericPrecision
  · exact ⟨fun _ hover => absurd hover.1 (by omega), fun _ => mulCorrect_of_precision hp⟩
  · by_cases hs : x.scale + y.scale <= dbMaxNumericPrecision
    · exact mulCorrect_of_scale (by omega) hs
    · exact ⟨fun _ hover => absurd hover.2.1 hs, fun _ => mulCorrect_of_truncation (by omega)⟩

/-- The integer `10 ^ 19` as a numeric of 20 digits. -/
def tenPow19 : Numeric :=
  .ofInt (10 ^ 19) 20 0 (by decide) (by decide) (by decide) (by decide)

/-- The square of `10 ^ 19` is returned with 38 digits of precision, but has 39. -/
theorem not_mulCorrect_tenPow19 :
    numericDbValueMul (some tenPow19.toDbValue) (some tenPow19.toDbValue) =
        (.noError, .ofNumeric 38 0 (integerBytes dbNumericBufSize (10 ^ 38))) ∧
      ¬ MulCorrect tenPow19 tenPow19 := by
  have hint : tenPow19.toInt = 10 ^ 19 := Numeric.toInt_ofInt
  have hsquare : (tenPow19.toInt * tenPow19.toInt).natAbs = 10 ^ 38 := by
    rw [hint, Int.natAbs_mul, Int.natAbs_pow, ← pow_add]
    rfl
  have hover : Overlong tenPow19 tenPow19 := by
    refine ⟨by decide, by decide, hsquare.ge, ?_⟩
    rw [hsquare]
    decide
  refine ⟨by decide +kernel, fun hcorrect => ?_⟩
  exact (mulCorrect_of_scale hover.1 hover.2.1).mp hcorrect hover

end Rye.Query
