import Mathlib.Data.List.TakeWhile
import Rye.Query.Numeric.DecString

/-!
# Coercions of buffers

A buffer is printed by adding up the decimal strings of its set bits, and read
back from a string nine digits at a time.  Both directions are described by the
number a string of digits stands for.
-/

namespace Rye.Query

open Foundation List

/-!
## Buffers to strings
-/

def numericIsBitSet (arg : List UInt8) (pos : Nat) : Bool :=
  (arg.getD (pos / 8) 0 &&& (1 <<< UInt8.ofNat (7 - pos % 8))) != 0

/-- Add the decimal string of one bit of a buffer of `size` bytes, if it is set. -/
def addBit (num : List UInt8) (size : Nat) (result : List DecDigit) (pos : Nat) :
    List DecDigit :=
  if numericIsBitSet num pos then
    numericAddDecStr (numericGetPowOf2 (size * 8 - pos - 1)) result result
  else result

/-- One round of the outer printing loop; a byte without set bits is skipped. -/
def addByte (num : List UInt8) (size : Nat) (result : List DecDigit) (i : Nat) :
    List DecDigit :=
  if num.getD i 0 = 0 then result
  else (range 8).foldl (fun result j => addBit num size result (i * 8 + j)) result

def digitChar (d : DecDigit) : Char :=
  Char.ofNat (d.getD 0 + '0'.toNat)

/-- The printing of a buffer twice the size of a numeric. -/
def numericCoerceBigNumToDecStr (num : List UInt8) : List Char :=
  let size := dbNumericBufSize * dbLongNumericMultiplier
  let result := (range (size * 8)).foldl (addBit num size) numericInitDecStr
  result.map digitChar

def numericCoerceNumToDecStr (num : List UInt8) : List Char :=
  let localNum := numericDbValueAbs num
  let result := (range dbNumericBufSize).foldl (addByte localNum dbNumericBufSize)
    numericInitDecStr
  (if numericIsNegative num then ['-'] else []) ++ result.map digitChar

/-- The weight of a bit in a buffer of `size` bytes. -/
def bitWeight (num : List UInt8) (size pos : Nat) : Nat :=
  if numericIsBitSet num pos then 2 ^ (size * 8 - pos - 1) else 0

variable (b : UInt8)

theorem sum_byte_bits :
    ((range 8).map fun j =>
      if (b &&& (1 <<< UInt8.ofNat (7 - j))) != 0 then 2 ^ (7 - j) else 0).sum = b.toNat := by
  have hall : forall n, n < 256 -> ((range 8).map fun j =>
        if (UInt8.ofNat n &&& (1 <<< UInt8.ofNat (7 - j))) != 0 then 2 ^ (7 - j) else 0).sum =
          n := by
    decide +kernel
  have hb := hall b.toNat b.toNat_lt
  rwa [UInt8.ofNat_toNat] at hb

theorem numericIsBitSet_cons_succ (bs : List UInt8) (pos : Nat) :
    numericIsBitSet (b :: bs) (8 + pos) = numericIsBitSet bs pos := by
  have hdiv : (8 + pos) / 8 = pos / 8 + 1 := by omega
  have hmod : (8 + pos) % 8 = pos % 8 := by omega
  rw [numericIsBitSet, hdiv, hmod, getD_cons_succ]
  rfl

theorem numericIsBitSet_cons (bs : List UInt8) {j : Nat} (h : j < 8) :
    numericIsBitSet (b :: bs) j = ((b &&& (1 <<< UInt8.ofNat (7 - j))) != 0) := by
  rw [numericIsBitSet, Nat.div_eq_of_lt h, Nat.mod_eq_of_lt h, getD_cons_zero]

theorem sum_bitWeight (num : List UInt8) :
    ((range (num.length * 8)).map (bitWeight num num.length)).sum = beNat num := by
  induction num with
  | nil => rfl
  | cons b bs ih =>
    have hlen : (b :: bs).length * 8 = 8 + bs.length * 8 := by
      rw [length_cons]
      omega
    have htail : (range (bs.length * 8)).map
        (fun pos => bitWeight (b :: bs) (b :: bs).length (8 + pos)) =
        (range (bs.length * 8)).map (bitWeight bs bs.length) := by
      refine map_congr_left fun pos _ => ?_
      rw [bitWeight, bitWeight, numericIsBitSet_cons_succ, hlen]
      congr 2
      omega
    have hhead : (range 8).map (bitWeight (b :: bs) (b :: bs).length) = ((range 8).map fun j =>
          if (b &&& (1 <<< UInt8.ofNat (7 - j))) != 0 then 2 ^ (7 - j) else 0).map
            (fun w => w * 256 ^ bs.length) := by
      rw [map_map]
      refine map_congr_left fun j hj => ?_
      have hj8 : j < 8 := mem_range.mp hj
      rw [bitWeight, numericIsBitSet_cons b bs hj8, hlen, Function.comp_apply]
      split
      · have hexp : 8 + bs.length * 8 - j - 1 = (7 - j) + 8 * bs.length := by omega
        rw [hexp, Nat.pow_add, Nat.pow_mul]
      · rw [Nat.zero_mul]
    rw [hlen, range_add, map_append, sum_append, map_map, hhead,
      sum_map_mul_right, map_id', sum_byte_bits, beNat_cons]
    congr 1
    rw [← ih, ← htail]
    rfl

theorem exp_le_of_pow_lt {e : Nat} (h : 2 ^ e < 10 ^ twiceNumMaxPrec) : e <= 252 := by
  by_contra hlt
  have hpow : 2 ^ 253 <= 2 ^ e := Nat.pow_le_pow_right (by decide) (by omega)
  have hbig : 10 ^ twiceNumMaxPrec <= 2 ^ 253 := by decide
  omega

variable {num : List UInt8} {s : List Char} {result : List DecDigit} {rest : Nat}

theorem addBit_value {size pos : Nat} (h : IsDecStr result)
    (hfits : decVal result + bitWeight num size pos < 10 ^ twiceNumMaxPrec) :
    IsDecStr (addBit num size result pos) ∧
      decVal (addBit num size result pos) = decVal result + bitWeight num size pos := by
  unfold addBit bitWeight at *
  by_cases hset : numericIsBitSet num pos = true
  · rw [if_pos hset] at hfits ⊢
    rw [if_pos hset]
    have hpower := numericGetPowOf2_isPower
      (exp_le_of_pow_lt (lt_of_le_of_lt (Nat.le_add_left _ _) hfits))
    have hsum : decVal (numericGetPowOf2 (size * 8 - pos - 1)) + decVal result <
        10 ^ twiceNumMaxPrec := by
      rw [hpower.value_eq]
      omega
    have hadd := numericAddDecStr_value hpower.toIsDecStr h hpower.unsetFirst hsum
    refine ⟨hadd.1, ?_⟩
    rw [hadd.2, hpower.value_eq, Nat.add_comm]
  · rw [if_neg hset]
    rw [if_neg hset]
    exact ⟨h, rfl⟩

theorem foldl_weights {f : List DecDigit -> Nat -> List DecDigit} {w : Nat -> Nat}
    (hstep : forall result i, IsDecStr result ->
      decVal result + w i < 10 ^ twiceNumMaxPrec ->
        IsDecStr (f result i) ∧ decVal (f result i) = decVal result + w i) {items : List Nat}
    (h : IsDecStr result) (hfits : decVal result + (items.map w).sum < 10 ^ twiceNumMaxPrec) :
    IsDecStr (items.foldl f result) ∧
      decVal (items.foldl f result) = decVal result + (items.map w).sum := by
  induction items generalizing result with
  | nil => exact ⟨h, rfl⟩
  | cons i items ih =>
    rw [map_cons, sum_cons] at hfits ⊢
    rcases hstep result i h (by omega) with ⟨hstr, hval⟩
    have hrest := ih hstr (by rw [hval]; omega)
    rw [foldl_cons]
    refine ⟨hrest.1, ?_⟩
    rw [hrest.2, hval, Nat.add_assoc]

theorem numericIsBitSet_zero_byte {i j : Nat} (h : num.getD i 0 = 0) (hj : j < 8) :
    numericIsBitSet num (i * 8 + j) = false := by
  have hdiv : (i * 8 + j) / 8 = i := by omega
  rw [numericIsBitSet, hdiv, h, UInt8.zero_and]
  rfl

def byteWeight (num : List UInt8) (size i : Nat) : Nat :=
  ((range 8).map fun j => bitWeight num size (i * 8 + j)).sum

theorem addByte_value {size i : Nat} (h : IsDecStr result)
    (hfits : decVal result + byteWeight num size i < 10 ^ twiceNumMaxPrec) :
    IsDecStr (addByte num size result i) ∧
      decVal (addByte num size result i) = decVal result + byteWeight num size i := by
  unfold addByte
  by_cases hb : num.getD i 0 = 0
  · have hnone : byteWeight num size i = 0 := by
      apply sum_eq_zero
      intro w hw
      rcases mem_map.mp hw with ⟨j, hj, rfl⟩
      rw [bitWeight, numericIsBitSet_zero_byte hb (mem_range.mp hj)]
      rfl
    rw [if_pos hb, hnone]
    exact ⟨h, rfl⟩
  · rw [if_neg hb]
    exact foldl_weights (fun result j => addBit_value) h hfits

theorem isDecStr_init : IsDecStr numericInitDecStr ∧ decVal numericInitDecStr = 0 := by
  constructor
  · refine ⟨by simp [numericInitDecStr, twiceNumMaxPrec, dbMaxNumericPrecision], ?_⟩
    intro d hd
    have hd' : d = none ∨ d = some 0 := by
      simpa [numericInitDecStr, twiceNumMaxPrec, dbMaxNumericPrecision] using hd
    rcases hd' with rfl | rfl <;> decide
  · simp [numericInitDecStr, decVal, posVal_append, posVal_singleton]

theorem sum_byteWeight (num : List UInt8) (size n : Nat) :
    ((range n).map (byteWeight num size)).sum = ((range (n * 8)).map (bitWeight num size)).sum := by
  induction n with
  | zero => rfl
  | succ n ih =>
    rw [range_succ (n := n), map_append, sum_append, ih, Nat.succ_mul, range_add,
      map_append, sum_append, map_map]
    simp [Function.comp_def, byteWeight]

theorem digitChar_spec {d : DecDigit} (h : d.getD 0 < 10) :
    (digitChar d).isDigit = true ∧ digitVal (digitChar d) = d.getD 0 := by
  unfold digitChar
  generalize d.getD 0 = n at h
  interval_cases n <;> decide

theorem IsDecStr.chars {ds : List DecDigit} (h : IsDecStr ds) :
    AllDigits (ds.map digitChar) ∧ (ds.map digitChar).length = twiceNumMaxPrec ∧
      strVal (ds.map digitChar) = decVal ds := by
  refine ⟨?_, by rw [length_map, h.length], ?_⟩
  · intro c hc
    rcases mem_map.mp hc with ⟨d, hd, rfl⟩
    exact (digitChar_spec (h.digits d hd)).1
  rw [strVal, decVal, map_map]
  congr 1
  refine map_congr_left fun d hd => ?_
  exact (digitChar_spec (h.digits d hd)).2

/-- A string of 76 digits for the number `n`. -/
structure Prints (s : List Char) (n : Nat) : Prop where
  digits : AllDigits s
  length : s.length = twiceNumMaxPrec
  value : strVal s = n

theorem numericCoerceBigNumToDecStr_prints
    (hlen : num.length = dbNumericBufSize * dbLongNumericMultiplier)
    (hfits : beNat num < 10 ^ twiceNumMaxPrec) :
    Prints (numericCoerceBigNumToDecStr num) (beNat num) := by
  rcases isDecStr_init with ⟨hinit, hzero⟩
  have hsum := sum_bitWeight num
  rw [hlen] at hsum
  have hfold := foldl_weights (fun result i => addBit_value) hinit
    (show _ + ((range (dbNumericBufSize * dbLongNumericMultiplier * 8)).map
      (bitWeight num (dbNumericBufSize * dbLongNumericMultiplier))).sum < _ by
        rw [hsum, hzero, Nat.zero_add]
        exact hfits)
  rw [hsum, hzero, Nat.zero_add] at hfold
  rcases hfold.1.chars with ⟨hdigits, hlength, hval⟩
  exact ⟨hdigits, hlength, hval.trans hfold.2⟩

theorem numericCoerceNumToDecStr_prints (hlen : num.length = dbNumericBufSize) :
    exists s, numericCoerceNumToDecStr num = (if beInt num < 0 then ['-'] else []) ++ s ∧
      Prints s (beInt num).natAbs := by
  have hne : num ≠ [] := buf_ne_nil hlen
  let localNum := numericDbValueAbs num
  have hlocal : localNum.length = dbNumericBufSize := by
    rw [length_numericDbValueAbs, hlen]
  have habs : beNat localNum = (beInt num).natAbs := beNat_numericDbValueAbs hne
  have hlt : beNat localNum < 10 ^ twiceNumMaxPrec := by
    have hbytes := beNat_lt localNum
    rw [hlocal] at hbytes
    exact lt_trans hbytes (by decide)
  have hsum := sum_bitWeight localNum
  rw [hlocal, ← sum_byteWeight] at hsum
  rcases isDecStr_init with ⟨hinit, hzero⟩
  have hfold := foldl_weights (fun result i => addByte_value) hinit
    (show _ + ((range dbNumericBufSize).map (byteWeight localNum dbNumericBufSize)).sum <
        _ by
      rw [hsum, hzero, Nat.zero_add]
      exact hlt)
  rw [hsum, hzero, Nat.zero_add] at hfold
  rcases hfold.1.chars with ⟨hdigits, hlength, hval⟩
  refine ⟨_, ?_, hdigits, hlength, hval.trans (hfold.2.trans habs)⟩
  unfold numericCoerceNumToDecStr
  rw [numericIsNegative_eq hne]
  simp only [decide_eq_true_eq]
  rfl

/-!
## Machine integers to buffers
-/

/-- The low `bytes` bytes of an integer behind its sign. -/
def integerBytes (bytes : Nat) (arg : Int) : List UInt8 :=
  let pad : UInt8 := if 0 <= arg then 0 else 0xff
  replicate (dbNumericBufSize - bytes) pad ++
    (range bytes).reverse.map fun (i : Nat) => UInt8.ofNat (arg >>> (8 * i) % 256).toNat

def numericCoerceIntToNum (arg : Int) : List UInt8 :=
  integerBytes 4 arg

def numericCoerceBigintToNum (arg : Int) : List UInt8 :=
  integerBytes 8 arg

theorem emod_mul_right_digit {m : Int} (hm : 0 < m) (x : Int) :
    x % (m * 256) = x / m % 256 * m + x % m := by
  have hx := Int.mul_ediv_add_emod x m
  have hq := Int.mul_ediv_add_emod (x / m) 256
  have hr0 := Int.emod_nonneg x (ne_of_gt hm)
  have hr1 := Int.emod_lt_of_pos x hm
  have hd0 := Int.emod_nonneg (x / m) (show (256 : Int) ≠ 0 by decide)
  have hsplit : x = (x / m % 256 * m + x % m) + (m * 256) * (x / m / 256) := by
    calc x = m * (x / m) + x % m := hx.symm
      _ = m * (256 * (x / m / 256) + x / m % 256) + x % m := by rw [hq]
      _ = (x / m % 256 * m + x % m) + (m * 256) * (x / m / 256) := by ring
  have hbound : x / m % 256 * m + x % m < m * 256 := by
    have hle : x / m % 256 * m <= 255 * m := Int.mul_le_mul_of_nonneg_right (by omega) hm.le
    omega
  have hnonneg : 0 <= x / m % 256 * m + x % m :=
    Int.add_nonneg (Int.mul_nonneg hd0 hm.le) hr0
  conv_lhs => rw [hsplit]
  rw [Int.add_mul_emod_self_left, Int.emod_eq_of_lt hnonneg hbound]

theorem beNat_low_bytes (arg : Int) (n : Nat) :
    (beNat ((range n).reverse.map fun (i : Nat) => UInt8.ofNat (arg >>> (8 * i) % 256).toNat) :
      Int) = arg % (256 ^ n : Nat) := by
  induction n with
  | zero => simp
  | succ n ih =>
    have hdigit : ((arg >>> (8 * n) % 256).toNat : Int) = arg / (256 ^ n : Nat) % 256 := by
      rw [Int.shiftRight_eq_div_pow, Nat.pow_mul]
      exact Int.toNat_of_nonneg (Int.emod_nonneg _ (by decide))
    have hlt : (arg >>> (8 * n) % 256).toNat < 256 := by
      omega
    have hbyte : (UInt8.ofNat (arg >>> (8 * n) % 256).toNat).toNat =
        (arg >>> (8 * n) % 256).toNat := by
      rw [UInt8.toNat_ofNat']
      exact Nat.mod_eq_of_lt hlt
    rw [range_succ, reverse_append, reverse_singleton, singleton_append,
      map_cons, beNat_cons, length_map, length_reverse, length_range,
      Int.natCast_add, ih, Int.natCast_mul, hbyte, hdigit, Nat.pow_succ, Int.natCast_mul]
    exact (emod_mul_right_digit (by positivity) arg).symm

theorem beNat_replicate_ff (n : Nat) : beNat (replicate n 0xff) = 256 ^ n - 1 := by
  induction n with
  | zero => rfl
  | succ n ih =>
    rw [replicate_succ, beNat_cons, ih, length_replicate, Nat.pow_succ]
    change 255 * 256 ^ n + (256 ^ n - 1) = 256 ^ n * 256 - 1
    omega

@[simp] theorem length_integerBytes {bytes : Nat} (h : bytes <= dbNumericBufSize) (arg : Int) :
    (integerBytes bytes arg).length = dbNumericBufSize := by
  simp [integerBytes]
  omega

theorem beInt_integerBytes {bytes : Nat} (h : bytes <= dbNumericBufSize) {arg : Int}
    (hlow : -((256 ^ bytes : Nat) : Int) <= arg * 2) (hhigh : arg * 2 < (256 ^ bytes : Nat)) :
    beInt (integerBytes bytes arg) = arg := by
  have hpow : 256 ^ bytes <= 256 ^ dbNumericBufSize := Nat.pow_le_pow_right (by decide) h
  have hsplit : 256 ^ (dbNumericBufSize - bytes) * 256 ^ bytes = 256 ^ dbNumericBufSize := by
    rw [← Nat.pow_add, Nat.sub_add_cancel h]
  refine beInt_eq_of_emod (length_integerBytes h arg) ?_ (by omega) (by omega)
  unfold integerBytes
  rw [beNat_append, length_map, length_reverse, length_range, Int.natCast_add, beNat_low_bytes]
  by_cases hsign : 0 <= arg
  · simp only [if_pos hsign, beNat_replicate_zero, Nat.zero_mul]
    rw [Int.emod_eq_of_lt hsign (by omega), Nat.cast_zero, Int.zero_add]
  have hlowbytes : arg % (256 ^ bytes : Nat) = arg + (256 ^ bytes : Nat) := by
    rw [← Int.add_emod_right, Int.emod_eq_of_lt (by omega) (by omega)]
  simp only [if_neg hsign, beNat_replicate_ff, Nat.sub_mul, hsplit]
  have hvalue : ((256 ^ dbNumericBufSize - 1 * 256 ^ bytes : Nat) : Int) +
      arg % (256 ^ bytes : Nat) = arg + (256 ^ dbNumericBufSize : Nat) := by
    rw [hlowbytes]
    omega
  rw [hvalue, Int.add_emod_right]

/-!
## Strings to buffers
-/

def isspace (c : Char) : Bool :=
  c = ' ' || (9 <= c.toNat && c.toNat <= 13)

/-- The C function `atol`; no chunk is long enough to overflow. -/
def atol (s : List Char) : Int :=
  let digits := fun t => (strVal (t.takeWhile Char.isDigit) : Int)
  match s.dropWhile isspace with
  | '-' :: t => -digits t
  | '+' :: t => digits t
  | t => digits t

/-- One round: the chunk of `ndigits` digits in front of the last `length - rest`. -/
def addChunk (decStr : List Char) (rest ndigits : Nat) (result : List UInt8) : List UInt8 :=
  let chunkValue := atol ((decStr.drop (rest - ndigits)).take ndigits)
  if chunkValue ≠ 0 then
    let bigChunk := numericCoerceIntToNum chunkValue
    let bigChunk :=
      if rest ≠ decStr.length then (numericScaleDec bigChunk (decStr.length - rest)).2
      else bigChunk
    numericAdd bigChunk result
  else result

/-- The loop over the chunks of nine digits; `rest` is `dec_dig + 1`. -/
def addChunks (decStr : List Char) : Nat -> Nat -> List UInt8 -> List UInt8
  | 0, _, result => result
  | fuel + 1, rest, result =>
    if rest = 0 then result
    else
      let ndigits := min rest 9
      addChunks decStr fuel (rest - ndigits) (addChunk decStr rest ndigits result)

def numericCoerceDecStrToNum (decStr : List Char) : List UInt8 :=
  let zero := replicate dbNumericBufSize 0
  match decStr with
  | '-' :: decStr => numericNegate (addChunks decStr decStr.length decStr.length zero)
  | decStr => addChunks decStr decStr.length decStr.length zero

theorem digit_not_special {c : Char} (h : c.isDigit = true) :
    isspace c = false ∧ c ≠ '-' ∧ c ≠ '+' := by
  have hlow := (digit_bounds h).1
  refine ⟨?_, ?_, ?_⟩
  · have hne : c ≠ ' ' := by
      rintro rfl
      exact absurd hlow (by decide)
    simp [isspace, hne]
    omega
  · rintro rfl
    exact absurd hlow (by decide)
  · rintro rfl
    exact absurd hlow (by decide)

theorem atol_digits (h : AllDigits s) : atol s = strVal s := by
  have htake : s.takeWhile Char.isDigit = s := takeWhile_eq_self_iff.mpr h
  cases s with
  | nil => rfl
  | cons c t =>
    rcases digit_not_special (h c mem_cons_self) with ⟨hspace, hminus, hplus⟩
    unfold atol
    rw [dropWhile_cons_of_neg (by rw [hspace]; decide)]
    split
    · rename_i heq
      exact absurd (cons.inj heq).1 hminus
    · rename_i heq
      exact absurd (cons.inj heq).1 hplus
    · change (strVal ((c :: t).takeWhile Char.isDigit) : Int) = _
      rw [htake]

theorem scaleChunk_value {chunk k : Nat} (hchunk : chunk < 10 ^ 9)
    (hfits : 2 * (chunk * 10 ^ k) < 256 ^ dbNumericBufSize) :
    (numericScaleDec (numericCoerceIntToNum chunk) k).2.length = dbNumericBufSize ∧
      beInt (numericScaleDec (numericCoerceIntToNum chunk) k).2 = (chunk * 10 ^ k : Nat) := by
  have hint : beInt (numericCoerceIntToNum chunk) = chunk :=
    beInt_integerBytes (by decide) (by omega) (by omega)
  have hlenint : (numericCoerceIntToNum chunk).length = dbNumericBufSize :=
    length_integerBytes (by decide) _
  have hne : numericCoerceIntToNum chunk ≠ [] := buf_ne_nil hlenint
  have hscale : 2 * ((beInt (numericCoerceIntToNum chunk)).natAbs * 10 ^ k) <
      256 ^ (numericCoerceIntToNum chunk).length := by
    rw [hint, hlenint, Int.natAbs_natCast]
    exact hfits
  rcases numericScaleDecLong_exact hne hscale with ⟨r, hr, hrlen, hrval⟩
  rw [numericScaleDec, hr]
  refine ⟨hrlen.trans hlenint, ?_⟩
  rw [hrval, hint]
  push_cast
  rfl

theorem strVal_drop_le (s : List Char) (n : Nat) : strVal (s.drop n) <= strVal s := by
  have hsplit := strVal_append (s.take n) (s.drop n)
  rw [take_append_drop] at hsplit
  omega

theorem strVal_drop_chunk (s : List Char) {n : Nat} (hn : n <= rest) :
    strVal (s.drop (rest - n)) =
      strVal ((s.drop (rest - n)).take n) * 10 ^ (s.length - rest) + strVal (s.drop rest) := by
  have hdrop : (s.drop (rest - n)).drop n = s.drop rest := by
    rw [drop_drop]
    congr 1
    omega
  have hsplit := strVal_append ((s.drop (rest - n)).take n) ((s.drop (rest - n)).drop n)
  rw [take_append_drop, hdrop, length_drop] at hsplit
  exact hsplit

variable {result : List UInt8}

theorem addChunk_value (h : AllDigits s) (hfits : 2 * strVal s < 256 ^ dbNumericBufSize) {n : Nat}
    (hn : n <= rest) (hn9 : n <= 9) (hlen : result.length = dbNumericBufSize)
    (hval : beInt result = strVal (s.drop rest)) :
    (addChunk s rest n result).length = dbNumericBufSize ∧
      beInt (addChunk s rest n result) = strVal (s.drop (rest - n)) := by
  let chunk := (s.drop (rest - n)).take n
  have hsplit : strVal (s.drop (rest - n)) =
      strVal chunk * 10 ^ (s.length - rest) + strVal (s.drop rest) :=
    strVal_drop_chunk s hn
  have hbound := strVal_drop_le s (rest - n)
  have hdigits : AllDigits chunk :=
    h.of_subset fun c hc => mem_of_mem_drop (mem_of_mem_take hc)
  have hatol : atol chunk = strVal chunk := atol_digits hdigits
  have hsmall : strVal chunk < 10 ^ 9 := by
    refine lt_of_lt_of_le hdigits.lt (Nat.pow_le_pow_right (by decide) ?_)
    exact le_trans (length_take_le _ _) hn9
  change (if atol chunk ≠ 0 then _ else _ : List UInt8).length = _ ∧
    beInt (if atol chunk ≠ 0 then _ else _) = _
  by_cases hzero : atol chunk = 0
  · have hvalue : strVal chunk = 0 := by omega
    rw [if_neg (not_not.mpr hzero)]
    refine ⟨hlen, ?_⟩
    rw [hval, hsplit, hvalue, Nat.zero_mul, Nat.zero_add]
  rw [if_pos hzero]
  have hterm : (if rest ≠ s.length then
      (numericScaleDec (numericCoerceIntToNum (atol chunk)) (s.length - rest)).2
      else numericCoerceIntToNum (atol chunk)) =
      (numericScaleDec (numericCoerceIntToNum (strVal chunk)) (s.length - rest)).2 := by
    rw [hatol]
    split
    · rfl
    · rename_i heq
      rw [not_not.mp heq, Nat.sub_self]
      rfl
  rw [hterm]
  rcases scaleChunk_value (k := s.length - rest) hsmall (by omega) with ⟨hlenbig, hvalbig⟩
  have hsame := hlenbig.trans hlen.symm
  generalize hpow : 256 ^ dbNumericBufSize = bound at hfits
  refine ⟨by rw [length_numericAdd hsame, hlenbig], ?_⟩
  rw [beInt_numericAdd hsame, hvalbig, hval, hsplit]
  · rfl
  · rw [hvalbig, hval, hlenbig, hpow]
    omega
  · rw [hvalbig, hval, hlenbig, hpow]
    omega

theorem addChunks_value (h : AllDigits s) (hfits : 2 * strVal s < 256 ^ dbNumericBufSize)
    {fuel : Nat} (hfuel : rest <= fuel) (hlen : result.length = dbNumericBufSize)
    (hval : beInt result = strVal (s.drop rest)) :
    (addChunks s fuel rest result).length = dbNumericBufSize ∧
      beInt (addChunks s fuel rest result) = strVal s := by
  induction fuel generalizing rest result with
  | zero =>
    have hzero : rest = 0 := by omega
    rw [hzero, drop_zero] at hval
    exact ⟨hlen, hval⟩
  | succ fuel ih =>
    unfold addChunks
    by_cases hrest : rest = 0
    · rw [if_pos hrest]
      rw [hrest, drop_zero] at hval
      exact ⟨hlen, hval⟩
    rw [if_neg hrest]
    have hround := addChunk_value h hfits (Nat.min_le_left rest 9)
      (Nat.min_le_right rest 9) hlen hval
    exact ih (by omega) hround.1 hround.2

theorem numericCoerceDecStrToNum_value (h : AllDigits s)
    (hfits : 2 * strVal s < 256 ^ dbNumericBufSize) (negative : Bool) : let num := numericCoerceDecStrToNum ((if negative then ['-'] else []) ++ s)
    num.length = dbNumericBufSize ∧
      beInt num = if negative then -(strVal s : Int) else strVal s := by
  have hzero : beInt (replicate dbNumericBufSize 0) = strVal (s.drop s.length) := by
    rw [drop_length]
    decide
  have hloop := addChunks_value h hfits (le_refl s.length)
    (length_replicate (n := dbNumericBufSize) (a := 0)) hzero
  cases negative with
  | true =>
    refine ⟨(length_numericNegate _).trans hloop.1, ?_⟩
    change beInt (numericNegate (addChunks s s.length s.length _)) = -(strVal s : Int)
    rw [beInt_numericNegate_of_gt, hloop.2]
    rw [hloop.1, hloop.2]
    omega
  | false =>
    have hplain : numericCoerceDecStrToNum s =
        addChunks s s.length s.length (replicate dbNumericBufSize 0) := by
      unfold numericCoerceDecStrToNum
      split
      · exact absurd rfl (digit_not_special (h '-' mem_cons_self)).2.1
      · rfl
    change (numericCoerceDecStrToNum s).length = _ ∧ beInt (numericCoerceDecStrToNum s) = _
    rw [hplain]
    exact hloop

end Rye.Query
