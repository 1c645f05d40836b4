import Rye.Base.Comparison
import Rye.Query.Like.Matcher

/-!
# The bounds of LIKE

For a LIKE on an indexed column the optimiser adds a range: the beginning of the
pattern up to its last usable character is the lower bound, and the same with the
next character in the last place is the upper bound.  A `_` becomes the first or
the last character.  A pattern without a usable character gets the least and the
greatest string of the domain.

The pattern is read by an iterator of its own, which knows wildcards and escapes but
not the matcher.
-/

namespace Rye.Query

open Base

structure PatternChar where
  char : Char
  isEscaped : Bool
deriving DecidableEq, Repr

/--
The characters that `db_get_next_like_pattern_character` returns in turn.  An escape character
at the end of the pattern is a character that is not escaped.
-/
def likePatternCharacters (escape : Option Char) : List Char -> List PatternChar
  | [] => []
  | [c] => [⟨c, false⟩]
  | c :: d :: rest =>
    if escape = some c then ⟨d, true⟩ :: likePatternCharacters escape rest
    else ⟨c, false⟩ :: likePatternCharacters escape (d :: rest)

def PatternChar.isMany (p : PatternChar) : Bool :=
  !p.isEscaped && p.char == likeWildcardMatchMany

def PatternChar.isOne (p : PatternChar) : Bool :=
  !p.isEscaped && p.char == likeWildcardMatchOne

def isSafeLastCharForLikeOptimization (p : PatternChar) : Bool :=
  if p.isOne || p.isMany then false
  else if p.char.toNat == maxBoundChr || p.char.toNat == minBoundChr then false
  else true

/-- Write a logical character with its escape character. -/
def PatternChar.put (escape : Option Char) (p : PatternChar) : List Char :=
  if p.isEscaped then escape.toList ++ [p.char] else [p.char]

/-- The loop of `db_compress_like_pattern`, which keeps one `%` of several. -/
def compressLoop (escape : Option Char) : Bool -> List PatternChar -> List Char
  | _, [] => []
  | inPercentSequence, p :: rest =>
    if p.isMany && inPercentSequence then compressLoop escape p.isMany rest
    else p.put escape ++ compressLoop escape p.isMany rest

def dbCompressLikePattern (escape : Option Char) (pattern : List Char) : List Char :=
  compressLoop escape false (likePatternCharacters escape pattern)

structure LikeInfo where
  numLogicalChars : Nat
  lastSafeLogicalPos : Int
  numMatchMany : Nat
  numMatchOne : Nat
deriving DecidableEq, Repr

/-- The loop of `db_get_info_for_like_optimization`. -/
def infoLoop : LikeInfo -> List PatternChar -> LikeInfo
  | info, [] => info
  | info, p :: rest =>
    let numMatchMany := if p.isMany then info.numMatchMany + 1 else info.numMatchMany
    infoLoop
      { numLogicalChars := info.numLogicalChars + 1
        lastSafeLogicalPos :=
          if numMatchMany = 0 ∧ isSafeLastCharForLikeOptimization p then info.numLogicalChars
          else info.lastSafeLogicalPos
        numMatchMany := numMatchMany
        numMatchOne := if p.isOne then info.numMatchOne + 1 else info.numMatchOne }
      rest

def dbGetInfoForLikeOptimization (escape : Option Char) (pattern : List Char) : LikeInfo :=
  infoLoop { numLogicalChars := 0, lastSafeLogicalPos := -22, numMatchMany := 0, numMatchOne := 0 }
    (likePatternCharacters escape pattern)

def boundChar (coll : LangColl) (computeLowerBound isLast : Bool) (p : PatternChar) : Nat :=
  if p.isOne then if computeLowerBound then minBoundChr else maxBoundChr
  else if isLast && !computeLowerBound then coll.nextCollChar p.char.toNat
  else p.char.toNat

/-- The loop of `db_get_like_optimization_bounds`; a pattern that is too short is an error. -/
def boundsLoop (coll : LangColl) (computeLowerBound : Bool) (lastSafeLogicalPos : Int) :
    Nat -> List PatternChar -> Option (List Nat)
  | resultLength, [] => if (resultLength : Int) <= lastSafeLogicalPos then none else some []
  | resultLength, p :: rest =>
    if (resultLength : Int) <= lastSafeLogicalPos then
      (boundsLoop coll computeLowerBound lastSafeLogicalPos (resultLength + 1) rest).map
        (boundChar coll computeLowerBound (resultLength == lastSafeLogicalPos) p :: ·)
    else some []

/-- The least and the greatest VARCHAR of `db_value_domain_min` and `db_value_domain_max`. -/
def dbValueDomainBound (computeLowerBound : Bool) : List Nat :=
  if computeLowerBound then [minBoundChr] else [maxBoundChr]

def dbGetLikeOptimizationBounds (coll : LangColl) (escape : Option Char)
    (computeLowerBound : Bool) (lastSafeLogicalPos : Int) (pattern : List Char) :
    Option (List Nat) :=
  if lastSafeLogicalPos < 0 then some (dbValueDomainBound computeLowerBound)
  else boundsLoop coll computeLowerBound lastSafeLogicalPos 0 (likePatternCharacters escape pattern)

/-- `db_like_bound` for a pattern that is not NULL; the escape character must not be zero. -/
def dbLikeBound (coll : LangColl) (escape : Option Char) (pattern : List Char)
    (computeLowerBound : Bool) : Option (List Nat) :=
  if escape = some (Char.ofNat 0) then none
  else
    let compressedPattern := dbCompressLikePattern escape pattern
    let info := dbGetInfoForLikeOptimization escape compressedPattern
    dbGetLikeOptimizationBounds coll escape computeLowerBound info.lastSafeLogicalPos
      compressedPattern

/-!
## The bound in one pass
-/

/-- The last character before the first `%` that may end a bound. -/
def lastSafeChar : List PatternChar -> Option Char
  | [] => none
  | p :: rest =>
    if p.isMany then none
    else
      match lastSafeChar rest with
      | some c => some c
      | none => if isSafeLastCharForLikeOptimization p then some p.char else none

def lastSafePos : List PatternChar -> Option Nat
  | [] => none
  | p :: rest =>
    if p.isMany then none
    else
      match lastSafePos rest with
      | some k => some (k + 1)
      | none => if isSafeLastCharForLikeOptimization p then some 0 else none

def likeBound (coll : LangColl) (computeLowerBound : Bool) : List PatternChar -> Option (List Nat)
  | [] => none
  | p :: rest =>
    if p.isMany then none
    else
      match likeBound coll computeLowerBound rest with
      | some bound => some (boundChar coll computeLowerBound false p :: bound)
      | none =>
        if isSafeLastCharForLikeOptimization p then
          some [boundChar coll computeLowerBound true p]
        else none

variable {coll : LangColl} {escape : Option Char}

theorem infoLoop_many {info : LikeInfo} (h : info.numMatchMany ≠ 0) (ps : List PatternChar) :
    (infoLoop info ps).lastSafeLogicalPos = info.lastSafeLogicalPos := by
  induction ps generalizing info with
  | nil => rfl
  | cons p ps ih =>
    have hmany : (if p.isMany then info.numMatchMany + 1 else info.numMatchMany) ≠ 0 := by
      split_ifs
      · exact Nat.succ_ne_zero _
      · exact h
    unfold infoLoop
    rw [ih hmany]
    exact if_neg fun h' => hmany h'.1

theorem infoLoop_eq {info : LikeInfo} (h : info.numMatchMany = 0) (ps : List PatternChar) :
    (infoLoop info ps).lastSafeLogicalPos =
      match lastSafePos ps with
      | some k => (info.numLogicalChars + k : Int)
      | none => info.lastSafeLogicalPos := by
  induction ps generalizing info with
  | nil => rfl
  | cons p ps ih =>
    unfold infoLoop lastSafePos
    cases hmany : p.isMany with
    | true =>
      rw [infoLoop_many (by simp)]
      simp
    | false =>
      rw [ih (by simp [h])]
      cases hrest : lastSafePos ps with
      | some k =>
        show ((info.numLogicalChars + 1 : Nat) + (k : Int)) = info.numLogicalChars + ((k + 1 : Nat) : Int)
        omega
      | none => cases hsafe : isSafeLastCharForLikeOptimization p <;> simp [h]

theorem lastSafePos_eq_none_iff (coll : LangColl) (computeLowerBound : Bool) (ps : List PatternChar) :
    lastSafePos ps = none <-> likeBound coll computeLowerBound ps = none := by
  induction ps with
  | nil => exact iff_of_true rfl rfl
  | cons p ps ih =>
    unfold lastSafePos likeBound
    cases hmany : p.isMany with
    | true => exact iff_of_true rfl rfl
    | false =>
      cases hpos : lastSafePos ps <;> cases hbound : likeBound coll computeLowerBound ps <;>
        cases hsafe : isSafeLastCharForLikeOptimization p <;> simp_all

theorem lastSafeChar_eq_none_iff (coll : LangColl) (computeLowerBound : Bool)
    (ps : List PatternChar) :
    lastSafeChar ps = none <-> likeBound coll computeLowerBound ps = none := by
  induction ps with
  | nil => exact iff_of_true rfl rfl
  | cons p ps ih =>
    unfold lastSafeChar likeBound
    cases hmany : p.isMany with
    | true => exact iff_of_true rfl rfl
    | false =>
      cases hchar : lastSafeChar ps <;> cases hbound : likeBound coll computeLowerBound ps <;>
        cases hsafe : isSafeLastCharForLikeOptimization p <;> simp_all

variable (computeLowerBound : Bool)

theorem boundsLoop_end {n : Nat} {pos : Int} (h : pos < n) (ps : List PatternChar) :
    boundsLoop coll computeLowerBound pos n ps = some [] := by
  cases ps <;> unfold boundsLoop <;> rw [if_neg (by omega)]

theorem boundsLoop_eq (coll : LangColl) (computeLowerBound : Bool) {ps : List PatternChar} {k : Nat}
    (h : lastSafePos ps = some k) (n : Nat) :
    boundsLoop coll computeLowerBound (n + k) n ps = likeBound coll computeLowerBound ps := by
  induction ps generalizing k n with
  | nil => cases h
  | cons p ps ih =>
    unfold lastSafePos at h
    unfold boundsLoop likeBound
    rw [if_pos (by omega)]
    cases hmany : p.isMany with
    | true =>
      rw [hmany, if_pos rfl] at h
      cases h
    | false =>
      rw [hmany, if_neg Bool.false_ne_true] at h
      rw [if_neg Bool.false_ne_true]
      cases hpos : lastSafePos ps with
      | some j =>
        rw [hpos] at h
        cases h
        have hrest := ih hpos (n + 1)
        rw [show ((n + 1 : Nat) : Int) + j = n + (j + 1 : Nat) by omega] at hrest
        rw [hrest]
        have hlast : ((n : Int) == n + (j + 1 : Nat)) = false := by
          rw [beq_eq_false_iff_ne]
          omega
        rw [hlast]
        cases hbound : likeBound coll computeLowerBound ps with
        | some bound => rfl
        | none =>
          rw [(lastSafePos_eq_none_iff coll computeLowerBound ps).mpr hbound] at hpos
          cases hpos
      | none =>
        rw [hpos] at h
        rw [(lastSafePos_eq_none_iff coll computeLowerBound ps).mp hpos]
        cases hsafe : isSafeLastCharForLikeOptimization p with
        | false =>
          rw [hsafe] at h
          cases h
        | true =>
          rw [hsafe] at h
          cases h
          rw [boundsLoop_end computeLowerBound (by omega)]
          simp

/-- What `db_get_like_optimization_bounds` makes of a pattern. -/
theorem dbGetLikeOptimizationBounds_eq (pattern : List Char) :
    dbGetLikeOptimizationBounds coll escape computeLowerBound
        (dbGetInfoForLikeOptimization escape pattern).lastSafeLogicalPos pattern =
      some ((likeBound coll computeLowerBound (likePatternCharacters escape pattern)).getD
        (dbValueDomainBound computeLowerBound)) := by
  unfold dbGetLikeOptimizationBounds dbGetInfoForLikeOptimization
  rw [infoLoop_eq rfl]
  cases hpos : lastSafePos (likePatternCharacters escape pattern) with
  | none =>
    rw [(lastSafePos_eq_none_iff coll computeLowerBound _).mp hpos]
    rfl
  | some k =>
    have hloop := boundsLoop_eq coll computeLowerBound hpos 0
    show (if ((0 : Nat) : Int) + k < 0 then _ else _) = _
    rw [if_neg (by omega), hloop]
    cases hbound : likeBound coll computeLowerBound (likePatternCharacters escape pattern) with
    | some bound => rfl
    | none =>
      rw [(lastSafePos_eq_none_iff coll computeLowerBound _).mpr hbound] at hpos
      cases hpos

def squeeze : Bool -> List PatternChar -> List PatternChar
  | _, [] => []
  | inPercentSequence, p :: rest =>
    if p.isMany && inPercentSequence then squeeze p.isMany rest
    else p :: squeeze p.isMany rest

theorem likePatternCharacters_cons {c : Char} (h : escape ≠ some c) (rest : List Char) :
    likePatternCharacters escape (c :: rest) = ⟨c, false⟩ :: likePatternCharacters escape rest := by
  cases rest with
  | nil => rfl
  | cons d rest => rw [likePatternCharacters, if_neg h]

theorem likePatternCharacters_escaped {c : Char} (h : escape = some c) (d : Char)
    (rest : List Char) :
    likePatternCharacters escape (c :: d :: rest) =
      ⟨d, true⟩ :: likePatternCharacters escape rest := by
  rw [likePatternCharacters, if_pos h]

open PatternChar

theorem likePatternCharacters_compressLoop (inPercentSequence : Bool) (pattern : List Char) :
    likePatternCharacters escape
        (compressLoop escape inPercentSequence (likePatternCharacters escape pattern)) =
      squeeze inPercentSequence (likePatternCharacters escape pattern) := by
  fun_induction likePatternCharacters escape pattern generalizing inPercentSequence with
  | case1 => rfl
  | case2 c =>
    cases hmany : (isMany ⟨c, false⟩ && inPercentSequence) <;>
      simp [compressLoop, squeeze, hmany, put, likePatternCharacters]
  | case3 c d rest hescape ih =>
    subst hescape
    simp [compressLoop, squeeze, isMany, put, likePatternCharacters_escaped rfl, ih]
  | case4 c d rest hescape ih =>
    cases hmany : (isMany ⟨c, false⟩ && inPercentSequence) <;>
      simp [compressLoop, squeeze, hmany, put, likePatternCharacters_cons hescape, ih]

theorem likeBound_squeeze (ps : List PatternChar) :
    likeBound coll computeLowerBound (squeeze false ps) = likeBound coll computeLowerBound ps := by
  induction ps with
  | nil => rfl
  | cons p ps ih =>
    unfold squeeze
    rw [Bool.and_false, if_neg Bool.false_ne_true]
    cases hmany : p.isMany with
    | true => simp [likeBound, hmany]
    | false => simp [likeBound, hmany, ih]

/-- The bounds that `db_like_bound` computes. -/
theorem dbLikeBound_eq (h : escape ≠ some (Char.ofNat 0)) (pattern : List Char)
    (computeLowerBound : Bool) :
    dbLikeBound coll escape pattern computeLowerBound =
      some ((likeBound coll computeLowerBound (likePatternCharacters escape pattern)).getD
        (dbValueDomainBound computeLowerBound)) := by
  unfold dbLikeBound
  rw [if_neg h]
  rw [dbGetLikeOptimizationBounds_eq, dbCompressLikePattern, likePatternCharacters_compressLoop,
    likeBound_squeeze]

end Rye.Query
