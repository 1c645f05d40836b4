import Rye.Foundation.Wildcard
import Rye.Query.Like.Matcher

/-!
# The meaning of a LIKE pattern

A pattern is a list of tokens: a gap for a `%`, a token for any character for a
`_`, and a character, which stands for all characters of its weight.  A character
behind the escape character stands for itself.  The target may have spaces behind
the part that is matched.

The matcher reads a pattern in sequences of characters between two wildcards.
This module shows that the sequences are the tokens of the pattern, up to the
last token when the escape character is the last character.
-/

namespace Rye.Query

open Base List
open Foundation

inductive LikeToken where
  | one
  | char (cp : Nat)
deriving DecidableEq, Repr

def LikeToken.Fits (coll : LangColl) : LikeToken -> Char -> Prop
  | .one, _ => True
  | .char cp, c => coll.weight c.toNat = coll.weight cp

/-- The token of a character that is not the escape character. -/
def charToken (c : Char) : Option LikeToken :=
  if c = likeWildcardMatchMany then none
  else if c = likeWildcardMatchOne then some .one
  else some (.char c.toNat)

/-- The tokens of a pattern; `last` is what the escape character stands for at the end. -/
def likeTokens (last : Char -> Nat) (escape : Option Char) :
    List Char -> List (Option LikeToken)
  | [] => []
  | [c] => [if escape = some c then some (.char (last c)) else charToken c]
  | c :: d :: rest =>
    if escape = some c then some (.char d.toNat) :: likeTokens last escape rest
    else charToken c :: likeTokens last escape (d :: rest)

def Spaces (s : List Char) : Prop :=
  forall c, c ∈ s -> c = ' '

/-- A part of the target with nothing but spaces behind it matches the pattern. -/
def LikeMatches (coll : LangColl) (escape : Option Char) (pattern tar : List Char) : Prop :=
  exists part rest, tar = part ++ rest ∧ Spaces rest ∧
    Wildcard.Accepts (LikeToken.Fits coll) (fun r => r = [])
      (likeTokens Char.toNat escape pattern) part

/-- What the matcher takes the last character for if it is the escape character. -/
def lastCode (behind : UInt8) (c : Char) : Nat :=
  if c.utf8Size = 1 then c.toNat else cpBehind behind

/-- The targets accepted for the tokens the matcher reads. -/
def CodeAccepts (coll : LangColl) (behind : UInt8) (escape : Option Char)
    (pattern tar : List Char) : Prop :=
  Wildcard.Accepts (LikeToken.Fits coll) Spaces (likeTokens (lastCode behind) escape pattern) tar

/-!
## Sequences of characters
-/

/-- Compare the beginning of a target with a list of code points. -/
def matchCodes (coll : LangColl) : List Nat -> List Char -> Option (List Char)
  | [], tar => some tar
  | _ :: _, [] => none
  | cp :: cps, c :: tar =>
    if coll.weight c.toNat = coll.weight cp then matchCodes coll cps tar else none

/-- The code points that the matching function compares. -/
def seqCodes (behind : UInt8) (escape : Option Char) (hasLastEscape : Bool) :
    List Char -> List Nat
  | [] => []
  | [c] => [if escape = some c ∧ hasLastEscape = false then cpBehind behind else c.toNat]
  | c :: d :: rest =>
    if escape = some c then d.toNat :: seqCodes behind escape hasLastEscape rest
    else c.toNat :: seqCodes behind escape hasLastEscape (d :: rest)

def charTokens (cps : List Nat) : List LikeToken :=
  cps.map LikeToken.char

variable {coll : LangColl} {behind : UInt8} {escape : Option Char} {hasLastEscape : Bool}

theorem langStrmatchUtf8_eq (str1 str2 : List Char) :
    langStrmatchUtf8 coll behind escape hasLastEscape str1 str2 =
      matchCodes coll (seqCodes behind escape hasLastEscape str2) str1 := by
  induction str1 generalizing str2 with
  | nil =>
    rcases str2 with _ | ⟨c, _ | ⟨d, rest⟩⟩
    · rfl
    · rfl
    · unfold seqCodes
      split_ifs <;> rfl
  | cons c1 str1 ih =>
    rcases str2 with _ | ⟨c, _ | ⟨d, rest⟩⟩
    · rfl
    · by_cases hescape : escape = some c <;> cases hasLastEscape <;>
        simp [langStrmatchUtf8, seqCodes, matchCodes, hescape]
    by_cases hescape : escape = some c
    · subst hescape
      simp [langStrmatchUtf8, seqCodes, matchCodes, ih]
    · simp [langStrmatchUtf8, seqCodes, matchCodes, hescape, ih]

theorem matchCodes_length {cps : List Nat} {tar tar' : List Char}
    (h : matchCodes coll cps tar = some tar') :
    cps.length <= tar.length ∧ tar' = tar.drop cps.length := by
  induction cps generalizing tar with
  | nil =>
    cases h
    exact ⟨Nat.zero_le _, rfl⟩
  | cons cp cps ih =>
    cases tar with
    | nil => cases h
    | cons c tar =>
      unfold matchCodes at h
      split_ifs at h
      have hrest := ih h
      exact ⟨Nat.succ_le_succ hrest.1, hrest.2⟩

theorem accepts_charTokens {tail : List Char -> Prop} {cps : List Nat}
    {p : List (Option LikeToken)} {tar : List Char} :
    Wildcard.Accepts (LikeToken.Fits coll) tail ((charTokens cps).map some ++ p) tar <->
      exists tar', matchCodes coll cps tar = some tar' ∧
        Wildcard.Accepts (LikeToken.Fits coll) tail p tar' := by
  induction cps generalizing tar with
  | nil =>
    constructor
    · intro h
      exact ⟨tar, rfl, h⟩
    · rintro ⟨tar', ⟨⟩, h⟩
      exact h
  | cons cp cps ih =>
    cases tar with
    | nil =>
      constructor
      · intro h
        exact absurd h id
      · rintro ⟨tar', hmatch, _⟩
        cases hmatch
    | cons c tar =>
      constructor
      · intro h
        rcases ih.mp h.2 with ⟨tar', hmatch, hrest⟩
        refine ⟨tar', ?_, hrest⟩
        have hweight : coll.weight c.toNat = coll.weight cp := h.1
        rw [matchCodes, if_pos hweight, hmatch]
      · rintro ⟨tar', hmatch, hrest⟩
        unfold matchCodes at hmatch
        split_ifs at hmatch with hweight
        exact ⟨hweight, ih.mpr ⟨tar', hmatch, hrest⟩⟩

/-- The pattern begins with a wildcard, or is at its end. -/
def AtWildcard (escape : Option Char) (expr : List Char) : Prop :=
  forall c rest, expr = c :: rest -> isMatchMany escape c = true ∨ isMatchOne escape c = true

structure LikeSeq.Reads (behind : UInt8) (escape : Option Char) (expr : List Char)
    (s : LikeSeq) : Prop where
  tokens : likeTokens (lastCode behind) escape expr =
    (charTokens (seqCodes behind escape s.hasLastEscape s.seq)).map some ++
      likeTokens (lastCode behind) escape s.rest
  unescaped : s.matchEscape = false ->
    seqCodes behind none s.hasLastEscape s.seq = seqCodes behind escape s.hasLastEscape s.seq
  wildcard : AtWildcard escape s.rest
  rest : s.rest.length <= expr.length

variable {c : Char} {last : Char -> Nat} {rest : List Char}

theorem not_wildcard_of_escape (h : escape = some c) :
    isMatchMany escape c = false ∧ isMatchOne escape c = false := by
  subst h
  constructor
  · by_cases hc : c = likeWildcardMatchMany <;> simp [isMatchMany, hc]
  · by_cases hc : c = likeWildcardMatchOne <;> simp [isMatchOne, hc]

theorem likeTokens_cons (hescape : escape ≠ some c) :
    likeTokens last escape (c :: rest) = charToken c :: likeTokens last escape rest := by
  cases rest <;> simp [likeTokens, hescape]

theorem likeTokens_escaped {d : Char} (hescape : escape = some c) :
    likeTokens last escape (c :: d :: rest) =
      some (.char d.toNat) :: likeTokens last escape rest := by
  simp [likeTokens, hescape]

theorem charToken_char (hescape : escape ≠ some c) (hmany : isMatchMany escape c = false)
    (hone : isMatchOne escape c = false) : charToken c = some (.char c.toNat) := by
  have hc : c ≠ likeWildcardMatchMany := by
    rintro rfl
    simp [isMatchMany, hescape] at hmany
  have hc' : c ≠ likeWildcardMatchOne := by
    rintro rfl
    simp [isMatchOne, hescape] at hone
  rw [charToken, if_neg hc, if_neg hc']

theorem isMatchMany_iff :
    isMatchMany escape c = true <-> escape ≠ some c ∧ c = likeWildcardMatchMany := by
  by_cases hc : c = likeWildcardMatchMany <;> simp [isMatchMany, hc]

theorem isMatchOne_iff :
    isMatchOne escape c = true <-> escape ≠ some c ∧ c = likeWildcardMatchOne := by
  by_cases hc : c = likeWildcardMatchOne <;> simp [isMatchOne, hc]

theorem likeTokens_many (h : isMatchMany escape c = true) :
    likeTokens last escape (c :: rest) = none :: likeTokens last escape rest := by
  rcases isMatchMany_iff.mp h with ⟨hescape, rfl⟩
  rw [likeTokens_cons hescape]
  rfl

theorem likeTokens_one (h : isMatchOne escape c = true) :
    likeTokens last escape (c :: rest) = some .one :: likeTokens last escape rest := by
  rcases isMatchOne_iff.mp h with ⟨hescape, rfl⟩
  rw [likeTokens_cons hescape]
  rfl

theorem seqCodes_cons {seq : List Char} (h : escape ≠ some c) :
    seqCodes behind escape hasLastEscape (c :: seq) =
      c.toNat :: seqCodes behind escape hasLastEscape seq := by
  cases seq <;> simp [seqCodes, h]

theorem likeSeq_char (hescape : escape ≠ some c) (hmany : isMatchMany escape c = false)
    (hone : isMatchOne escape c = false) :
    likeSeq escape false (c :: rest) = (likeSeq escape false rest).cons c := by
  simp [likeSeq, hescape, hmany, hone]

theorem likeSeq_escaped {d : Char} (hescape : escape = some c) :
    likeSeq escape false (c :: d :: rest) =
      { ((likeSeq escape false rest).cons d).cons c with matchEscape := true } := by
  subst hescape
  have hwild := not_wildcard_of_escape (rfl : some c = some c)
  simp [likeSeq, LikeSeq.cons, hwild.1, hwild.2]

theorem atWildcard_nil : AtWildcard escape [] := by
  intro c rest h
  cases h

theorem likeSeq_reads (behind : UInt8) (escape : Option Char) (expr : List Char) :
    (likeSeq escape false expr).Reads behind escape expr := by
  induction hlength : expr.length using Nat.strongRecOn generalizing expr with
  | _ n ih =>
    subst hlength
    cases expr with
    | nil => exact ⟨rfl, fun _ => rfl, atWildcard_nil, Nat.le_refl _⟩
    | cons c rest =>
      by_cases hescape : escape = some c
      · subst hescape
        have hwild := not_wildcard_of_escape (rfl : some c = some c)
        cases rest with
        | nil =>
          by_cases hsize : c.utf8Size = 1
          · have hseq : likeSeq (some c) false [c] =
                { seq := [c], rest := [], matchEscape := false, hasLastEscape := true } := by
              simp [likeSeq, LikeSeq.cons, hwild.1, hwild.2, hsize]
            rw [hseq]
            refine ⟨?_, ?_, atWildcard_nil, Nat.zero_le _⟩
            · simp [likeTokens, charTokens, seqCodes, lastCode, hsize]
            · simp [seqCodes]
          · have hseq : likeSeq (some c) false [c] =
                { seq := [c], rest := [], matchEscape := true, hasLastEscape := false } := by
              simp [likeSeq, LikeSeq.cons, hwild.1, hwild.2, hsize]
            rw [hseq]
            refine ⟨?_, nofun, atWildcard_nil, Nat.zero_le _⟩
            simp [likeTokens, charTokens, seqCodes, lastCode, hsize]
        | cons d rest =>
          have hread := ih rest.length (by simp only [length_cons]; omega) rest rfl
          rw [likeSeq_escaped rfl]
          refine ⟨?_, nofun, hread.wildcard, ?_⟩
          · rw [likeTokens_escaped rfl, hread.tokens]
            simp [charTokens, seqCodes, LikeSeq.cons]
          · have hle := hread.rest
            simp only [LikeSeq.cons, length_cons]
            omega
      · by_cases hwild : isMatchMany escape c = true ∨ isMatchOne escape c = true
        · have hseq : likeSeq escape false (c :: rest) =
              { seq := [], rest := c :: rest, matchEscape := false, hasLastEscape := false } := by
            unfold likeSeq
            rw [if_pos ⟨rfl, hwild⟩]
          rw [hseq]
          refine ⟨rfl, fun _ => rfl, ?_, Nat.le_refl _⟩
          rintro c' rest' ⟨⟩
          exact hwild
        have hmany : isMatchMany escape c = false := by
          simpa using fun h => hwild (.inl h)
        have hone : isMatchOne escape c = false := by
          simpa using fun h => hwild (.inr h)
        have hread := ih rest.length (by simp only [length_cons]; omega) rest rfl
        rw [likeSeq_char hescape hmany hone]
        refine ⟨?_, ?_, hread.wildcard, ?_⟩
        · rw [likeTokens_cons hescape, charToken_char hescape hmany hone, hread.tokens]
          simp [charTokens, seqCodes_cons hescape, LikeSeq.cons]
        · intro hnone
          change seqCodes behind none _ (c :: _) = seqCodes behind escape _ (c :: _)
          rw [seqCodes_cons hescape, seqCodes_cons (by simp)]
          congr 1
          exact hread.unescaped hnone
        · have hle := hread.rest
          simp only [LikeSeq.cons, length_cons]
          omega

end Rye.Query
