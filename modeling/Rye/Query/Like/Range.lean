import Rye.Query.Like.Bounds
import Rye.Query.Like.Meaning

/-!
# The range of LIKE keeps the matches

A target that matches begins with the characters of the pattern before the first
`%`.  These characters make up the bounds, so the target is found between them as long
as the next character weighs more than the last usable one.
-/

namespace Rye.Query

open Base List PatternChar LikeStep
open Foundation

/-- The target is in the range that the optimiser adds. -/
def InLikeRange (coll : LangColl) (escape : Option Char) (pattern tar : List Char) : Prop :=
  exists lower upper, dbLikeBound coll escape pattern true = some lower ∧
    dbLikeBound coll escape pattern false = some upper ∧
    0 <= coll.fastcmp (tar.map Char.toNat) lower ∧ coll.fastcmp (tar.map Char.toNat) upper < 0

variable {coll : LangColl} {behind : UInt8} {escape : Option Char}

/-!
## The beginning of a match
-/

variable {p : PatternChar} {tar : List Char} {ps : List PatternChar} {bound : List Nat}

theorem begins_charTokens {cps : List Nat} {p : List (Option LikeToken)} {tar' : List Char}
    (hmatch : matchCodes coll cps tar = some tar')
    (h : Wildcard.Begins (LikeToken.Fits coll) p tar') :
    Wildcard.Begins (LikeToken.Fits coll) ((charTokens cps).map some ++ p) tar := by
  induction cps generalizing tar with
  | nil =>
    cases hmatch
    exact h
  | cons cp cps ih =>
    rcases matchCodes_cons_iff.mp hmatch with ⟨a, rest, rfl, hweight, hrest⟩
    exact ⟨hweight, ih hrest⟩

variable {expr : List Char} {a : Char} {pattern : List Char}

/-- A pattern of `%` alone begins with a gap, unless `%` is the escape character. -/
theorem begins_onlyMany (h : OnlyMany expr)
    (hescape : expr ≠ [] -> escape ≠ some likeWildcardMatchMany) (tar : List Char) :
    Wildcard.Begins (LikeToken.Fits coll) (likeTokens (lastCode behind) escape expr) tar := by
  cases expr with
  | nil => trivial
  | cons c rest =>
    have hc : c = likeWildcardMatchMany := h c mem_cons_self
    rw [likeTokens_many (isMatchMany_iff.mpr ⟨hc ▸ hescape (cons_ne_nil _ _), hc⟩)]
    trivial

/-- What has been shown about a target that the matcher accepts without a way back. -/
def BeginsOrSlips (coll : LangColl) (behind : UInt8) (escape : Option Char)
    (expr tar : List Char) : Prop :=
  Wildcard.Begins (LikeToken.Fits coll) (likeTokens (lastCode behind) escape expr) tar ∨
    SlipAccepts coll escape expr tar

theorem beginsOrSlips_one {c : Char} (hone : isMatchOne escape c = true) {rest : List Char}
    (h : tar = [] ∧ OnlyMany rest ∨ BeginsOrSlips coll behind escape rest tar) :
    BeginsOrSlips coll behind escape (c :: rest) (a :: tar) := by
  have hbegins : Wildcard.Begins (LikeToken.Fits coll)
      (likeTokens (lastCode behind) escape rest) tar ->
      BeginsOrSlips coll behind escape (c :: rest) (a :: tar) := by
    intro hrest
    apply Or.inl
    rw [likeTokens_one hone]
    exact ⟨trivial, hrest⟩
  rcases h with ⟨hnil, hmany⟩ | hrest | hslip
  · by_cases hall : rest ≠ [] ∧ escape = some likeWildcardMatchMany
    · exact .inr ((slipAccepts_one hone rest a tar).mpr (.inl ⟨hnil, hall.2, hall.1, hmany⟩))
    · exact hbegins (begins_onlyMany hmany (fun hne hescape => hall ⟨hne, hescape⟩) tar)
  · exact hbegins hrest
  · exact .inr ((slipAccepts_one hone rest a tar).mpr (.inr hslip))

theorem beginsOrSlips_seq {tar' : List Char}
    (hmatch : matchCodes coll (headCodes behind escape expr) tar = some tar')
    (h : tar' = [] ∧ OnlyMany (likeSeq escape false expr).rest ∨
      BeginsOrSlips coll behind escape (likeSeq escape false expr).rest tar') :
    BeginsOrSlips coll behind escape expr tar := by
  have hreads := likeSeq_reads behind escape expr
  have hbegins : Wildcard.Begins (LikeToken.Fits coll)
      (likeTokens (lastCode behind) escape (likeSeq escape false expr).rest) tar' ->
      BeginsOrSlips coll behind escape expr tar := by
    intro hrest
    apply Or.inl
    rw [hreads.tokens]
    exact begins_charTokens hmatch hrest
  rcases h with ⟨_, hmany⟩ | hrest | hslip
  · refine hbegins (begins_onlyMany hmany ?_ tar')
    -- a sequence stops at a wildcard, so a `%` behind it is one
    intro hne
    rcases exists_cons_of_ne_nil hne with ⟨c, rest, hcons⟩
    have hc : c = likeWildcardMatchMany := hmany c (hcons ▸ mem_cons_self)
    cases hreads.wildcard c rest hcons with
    | inl hwild => exact hc ▸ (isMatchMany_iff.mp hwild).1
    | inr hwild => exact hc ▸ (isMatchOne_iff.mp hwild).1
  · exact hbegins hrest
  · exact .inr ((slipAccepts_seq behind expr tar).mpr ⟨tar', hmatch, hslip⟩)

def LikeStep.follow (coll : LangColl) (behind : UInt8) (escape : Option Char) (fuel : Nat) :
    LikeStep -> Option DbLogical
  | .done result => some result
  | .next s => likeLoop coll behind escape fuel s
  | .test s => likeLoop coll behind escape fuel s

theorem likeLoop_succ (fuel : Nat) (s : LikeState) :
    likeLoop coll behind escape (fuel + 1) s =
      (likeStep coll behind escape s).follow coll behind escape fuel := by
  rw [likeLoop]
  cases likeStep coll behind escape s <;> rfl

theorem LikeStep.follow_test {fuel : Nat} {s : LikeState}
    (h : (test s).settle.follow coll behind escape fuel = some .vTrue) :
    s.tar = [] ∧ OnlyMany s.expr ∨ likeLoop coll behind escape fuel s = some .vTrue := by
  unfold settle at h
  dsimp only at h
  split_ifs at h with htar hexpr
  · exact .inl ⟨htar, (onlyMany_iff s.expr).mp hexpr⟩
  · cases h
  · exact .inr h

/-- Before the first `%` the matcher has no way back. -/
theorem likeLoop_begins (fuel : Nat) (h : likeLoop coll behind escape fuel
      { status := .inCheck, tar := tar, expr := expr, stack := [] } = some .vTrue) :
    BeginsOrSlips coll behind escape expr tar := by
  induction fuel generalizing tar expr with
  | zero => cases h
  | succ fuel ih =>
    rw [likeLoop_succ] at h
    change (checkStep coll behind escape tar [] expr).settle.follow coll behind escape fuel = _ at h
    cases expr with
    | nil => exact .inl trivial
    | cons c rest =>
      cases hmany : isMatchMany escape c with
      | true =>
        apply Or.inl
        rw [likeTokens_many hmany]
        trivial
      | false =>
        cases tar with
        | nil =>
          simp only [checkStep, hmany, goBack, settle] at h
          cases h
        | cons a tar =>
          cases hone : isMatchOne escape c with
          | true =>
            simp only [checkStep, hmany, hone, Bool.false_eq_true, if_false, if_true] at h
            exact beginsOrSlips_one hone ((follow_test h).imp_right ih)
          | false =>
            simp only [checkStep, hmany, hone, Bool.false_eq_true, if_false, strmatch_eq] at h
            cases hmatch : matchCodes coll (headCodes behind escape (c :: rest))
                (a :: tar) with
            | none =>
              rw [hmatch] at h
              cases h
            | some tar' =>
              rw [hmatch] at h
              exact beginsOrSlips_seq hmatch ((follow_test h).imp_right ih)

/-!
## The beginning of a match lies between the bounds
-/

/-- The target begins with the characters of the pattern before the first `%`. -/
def FitsBeginning (coll : LangColl) : List PatternChar -> List Char -> Prop
  | [], _ => True
  | p :: _, [] => p.isMany = true
  | p :: ps, a :: tar =>
    p.isMany = true ∨
      (p.isOne = true ∨ coll.weight a.toNat = coll.weight p.char.toNat) ∧ FitsBeginning coll ps tar

theorem fitsBeginning_charToken {c : Char} {p : List (Option LikeToken)}
    (h : Wildcard.Begins (LikeToken.Fits coll) (charToken c :: p) tar)
    (hrest : forall tar, Wildcard.Begins (LikeToken.Fits coll) p tar -> FitsBeginning coll ps tar) :
    FitsBeginning coll (⟨c, false⟩ :: ps) tar := by
  unfold charToken at h
  split_ifs at h with hmany hone
  · cases tar with
    | nil => simp [FitsBeginning, isMany, hmany]
    | cons a tar => exact .inl (by simp [isMany, hmany])
  · cases tar with
    | nil => exact absurd h id
    | cons a tar => exact .inr ⟨.inl (by simp [isOne, hone]), hrest tar h.2⟩
  · cases tar with
    | nil => exact absurd h id
    | cons a tar => exact .inr ⟨.inr h.1, hrest tar h.2⟩

theorem fitsBeginning_of_begins
    (h : Wildcard.Begins (LikeToken.Fits coll) (likeTokens Char.toNat escape pattern) tar) :
    FitsBeginning coll (likePatternCharacters escape pattern) tar := by
  fun_induction likePatternCharacters escape pattern generalizing tar with
  | case1 => trivial
  | case2 c =>
    unfold likeTokens at h
    split_ifs at h with hescape
    · cases tar with
      | nil => exact absurd h id
      | cons a tar => exact .inr ⟨.inr h.1, trivial⟩
    · exact fitsBeginning_charToken h fun _ _ => trivial
  | case3 c d rest hescape ih =>
    rw [likeTokens_escaped hescape] at h
    cases tar with
    | nil => exact absurd h id
    | cons a tar => exact .inr ⟨.inr h.1, ih h.2⟩
  | case4 c d rest hescape ih =>
    rw [likeTokens_cons hescape] at h
    exact fitsBeginning_charToken h fun _ hrest => ih hrest

theorem fitsBeginning_of_true {fuel : Nat} (hlong : ¬ EndsInLongEscape escape pattern)
    (hone : ¬ EndsInEscapesBehindOne escape pattern)
    (h : qstrEvalLike coll behind escape fuel tar pattern = some .vTrue) :
    FitsBeginning coll (likePatternCharacters escape pattern) tar := by
  cases likeLoop_begins fuel h with
  | inl hbegins =>
    rw [likeTokens_lastCode hlong] at hbegins
    exact fitsBeginning_of_begins hbegins
  | inr hslip => exact absurd hslip.ends hone

theorem toNat_le_maxBoundChr (c : Char) : c.toNat <= maxBoundChr := by
  change c.val.toNat <= 0x10ffff
  rcases c.valid with hvalid | ⟨_, hvalid⟩ <;> omega

theorem isOne_of_safe (h : isSafeLastCharForLikeOptimization p = true) :
    p.isOne = false ∧ p.char.toNat ≠ maxBoundChr := by
  unfold isSafeLastCharForLikeOptimization at h
  split_ifs at h with hwild hbound
  rw [Bool.or_eq_true, not_or, Bool.not_eq_true] at hwild
  rw [Bool.or_eq_true, not_or] at hbound
  exact ⟨hwild.1, fun hmax => hbound.1 (beq_iff_eq.mpr hmax)⟩

theorem weight_boundChar_lower (isLast : Bool)
    (h : p.isOne = true ∨ coll.weight a.toNat = coll.weight p.char.toNat) :
    coll.weight (boundChar coll true isLast p) <= coll.weight a.toNat := by
  unfold boundChar
  cases hone : p.isOne with
  | true =>
    rw [if_pos rfl, if_pos rfl, coll.weight_minBoundChr]
    exact Nat.zero_le _
  | false =>
    cases h with
    | inl h =>
      rw [hone] at h
      cases h
    | inr h =>
      rw [h]
      simp

theorem weight_boundChar_upper
    (h : p.isOne = true ∨ coll.weight a.toNat = coll.weight p.char.toNat) :
    coll.weight a.toNat <= coll.weight (boundChar coll false false p) := by
  unfold boundChar
  cases hone : p.isOne with
  | true =>
    rw [if_pos rfl, if_neg Bool.false_ne_true]
    exact coll.weight_le_max (toNat_le_maxBoundChr a)
  | false =>
    cases h with
    | inl h =>
      rw [hone] at h
      cases h
    | inr h =>
      rw [h]
      simp

theorem boundChar_le_max (coll : LangColl) (p : PatternChar) :
    boundChar coll false false p <= maxBoundChr := by
  cases hone : p.isOne with
  | true => simp [boundChar, hone]
  | false => simpa [boundChar, hone] using toNat_le_maxBoundChr p.char

/-- A bound is either a character and the bound of the rest, or the last usable character. -/
theorem likeBound_cons {computeLowerBound : Bool}
    (h : likeBound coll computeLowerBound (p :: ps) = some bound) :
    p.isMany = false ∧
      ((exists bound', likeBound coll computeLowerBound ps = some bound' ∧
          bound = boundChar coll computeLowerBound false p :: bound' ∧
          lastSafeChar (p :: ps) = lastSafeChar ps) ∨
        (isSafeLastCharForLikeOptimization p = true ∧
          bound = [boundChar coll computeLowerBound true p] ∧
          lastSafeChar (p :: ps) = some p.char)) := by
  unfold likeBound at h
  rw [lastSafeChar]
  cases hmany : p.isMany with
  | true =>
    rw [hmany] at h
    cases h
  | false =>
    refine ⟨rfl, ?_⟩
    rw [hmany, if_neg Bool.false_ne_true] at h
    rw [if_neg Bool.false_ne_true]
    have hnone := lastSafeChar_eq_none_iff coll computeLowerBound ps
    cases hrest : likeBound coll computeLowerBound ps with
    | some bound' =>
      rw [hrest] at h hnone
      cases h
      cases hchar : lastSafeChar ps with
      | some c => exact .inl ⟨bound', rfl, rfl, rfl⟩
      | none => cases hnone.mp hchar
    | none =>
      rw [hrest] at h
      rw [hnone.mpr hrest]
      cases hsafe : isSafeLastCharForLikeOptimization p with
      | true =>
        rw [hsafe] at h
        cases h
        exact .inr ⟨rfl, rfl, rfl⟩
      | false =>
        rw [hsafe] at h
        cases h

theorem FitsBeginning.exists_cons (h : FitsBeginning coll (p :: ps) tar)
    (hmany : p.isMany = false) :
    exists a tar', tar = a :: tar' ∧
      (p.isOne = true ∨ coll.weight a.toNat = coll.weight p.char.toNat) ∧
      FitsBeginning coll ps tar' := by
  cases tar with
  | nil =>
    rw [FitsBeginning, hmany] at h
    cases h
  | cons a tar =>
    rw [FitsBeginning, hmany] at h
    exact ⟨a, tar, rfl, h.resolve_left Bool.false_ne_true⟩

theorem FitsBeginning.lower_le (h : FitsBeginning coll ps tar)
    (hbound : likeBound coll true ps = some bound) :
    0 <= coll.fastcmp (tar.map Char.toNat) bound := by
  have horders := coll.fastcmp_orders
  induction ps generalizing tar bound with
  | nil => cases hbound
  | cons p ps ih =>
    rcases likeBound_cons hbound with ⟨hmany, hcases⟩
    rcases h.exists_cons hmany with ⟨a, tar, rfl, hfits, hrest⟩
    rw [map_cons]
    rcases hcases with ⟨bound', hbound', rfl, _⟩ | ⟨hsafe, rfl, _⟩
    · cases Nat.lt_or_eq_of_le (weight_boundChar_lower false hfits) with
      | inl hlt => exact Int.le_of_lt (horders.more (toNat_le_maxBoundChr a) hlt _ _)
      | inr heq =>
        rw [horders.same heq.symm]
        exact ih hrest hbound'
    · cases Nat.lt_or_eq_of_le (weight_boundChar_lower true hfits) with
      | inl hlt => exact Int.le_of_lt (horders.more (toNat_le_maxBoundChr a) hlt _ _)
      | inr heq =>
        rw [horders.same heq.symm]
        exact horders.nil_right _

theorem FitsBeginning.lt_upper (h : FitsBeginning coll ps tar)
    (hbound : likeBound coll false ps = some bound) (hlast : forall c, lastSafeChar ps = some c ->
      coll.weight c.toNat < coll.weight (coll.nextCollChar c.toNat)) :
    coll.fastcmp (tar.map Char.toNat) bound < 0 := by
  have horders := coll.fastcmp_orders
  induction ps generalizing tar bound with
  | nil => cases hbound
  | cons p ps ih =>
    rcases likeBound_cons hbound with ⟨hmany, hcases⟩
    rcases h.exists_cons hmany with ⟨a, tar, rfl, hfits, hrest⟩
    rw [map_cons]
    rcases hcases with ⟨bound', hbound', rfl, hchar⟩ | ⟨hsafe, rfl, hchar⟩
    · cases Nat.lt_or_eq_of_le (weight_boundChar_upper hfits) with
      | inl hlt => exact horders.less (boundChar_le_max coll p) hlt _ _
      | inr heq =>
        rw [horders.same heq]
        exact ih hrest hbound' fun c hc => hlast c (hchar.trans hc)
    rcases isOne_of_safe hsafe with ⟨hone, hmax⟩
    have hnext : boundChar coll false true p = coll.nextCollChar p.char.toNat := by
      unfold boundChar
      rw [hone]
      rfl
    rw [hnext]
    have hweight := hlast p.char hchar
    rw [← hfits.resolve_left (by rw [hone]; exact Bool.false_ne_true)] at hweight
    apply horders.less _ hweight
    exact coll.nextCollChar_le (Nat.lt_of_le_of_ne (toNat_le_maxBoundChr p.char) hmax)

theorem domainMin_le (coll : LangColl) (tar : List Char) :
    0 <= coll.fastcmp (tar.map Char.toNat) (dbValueDomainBound true) := by
  have horders := coll.fastcmp_orders
  cases tar with
  | nil => exact horders.nil_space
  | cons a tar =>
    cases Nat.eq_zero_or_pos (coll.weight a.toNat) with
    | inl hzero =>
      have hsame := horders.same (hzero.trans coll.weight_minBoundChr.symm) (tar.map Char.toNat) []
      exact hsame ▸ horders.nil_right _
    | inr hpos =>
      rw [← coll.weight_minBoundChr] at hpos
      exact Int.le_of_lt (horders.more (toNat_le_maxBoundChr a) hpos _ [])

theorem lt_domainMax (coll : LangColl) (h : forall a, tar.head? = some a -> a.toNat ≠ maxBoundChr) :
    coll.fastcmp (tar.map Char.toNat) (dbValueDomainBound false) < 0 := by
  have horders := coll.fastcmp_orders
  cases tar with
  | nil => exact horders.nil_max
  | cons a tar =>
    have hlt := Nat.lt_of_le_of_ne (toNat_le_maxBoundChr a) (h a rfl)
    exact horders.less (Nat.le_refl _) (coll.weight_lt_max hlt) _ []

/-!
## The range
-/

/-- No target that LIKE accepts is lost, apart from the places where the bounds fall short. -/
theorem likeRange_keeps_matches (coll : LangColl) (behind : UInt8) (escape : Option Char)
    (fuel : Nat) (pattern tar : List Char) (hescape : escape ≠ some (Char.ofNat 0))
    (hread : ¬ EndsInLongEscape escape pattern ∧ ¬ EndsInEscapesBehindOne escape pattern)
    (hlast : forall c, lastSafeChar (likePatternCharacters escape pattern) = some c ->
      c.toNat ≠ 31 ∧ (coll = .utf8EnCi -> c.toNat ≠ 96))
    (hfirst : lastSafeChar (likePatternCharacters escape pattern) = none ->
      forall a, tar.head? = some a -> a.toNat ≠ maxBoundChr)
    (h : qstrEvalLike coll behind escape fuel tar pattern = some .vTrue) :
    InLikeRange coll escape pattern tar := by
  have hfits := fitsBeginning_of_true hread.1 hread.2 h
  have hnone := lastSafeChar_eq_none_iff coll
  refine ⟨_, _, dbLikeBound_eq hescape pattern true, dbLikeBound_eq hescape pattern false, ?_, ?_⟩
  · cases hbound : likeBound coll true (likePatternCharacters escape pattern) with
    | some bound => exact hfits.lower_le hbound
    | none => exact domainMin_le coll tar
  cases hbound : likeBound coll false (likePatternCharacters escape pattern) with
  | some bound =>
    apply hfits.lt_upper hbound
    intro c hc
    exact coll.weight_lt_next (hlast c hc).1 (hlast c hc).2
  | none => exact lt_domainMax coll (hfirst ((hnone false _).mpr hbound))

/-- The pattern `a_B%` and a target that differs from it in case. -/
theorem likeRange_keeps_matches_folded :
    qstrEvalLike .utf8EnCi 0 none 9 ['A', 'x', 'b', 'c'] ['a', '_', 'B', '%'] = some .vTrue ∧
      InLikeRange .utf8EnCi none ['a', '_', 'B', '%'] ['A', 'x', 'b', 'c'] := by
  have htrue : qstrEvalLike .utf8EnCi 0 none 9 ['A', 'x', 'b', 'c'] ['a', '_', 'B', '%'] =
      some .vTrue := by
    decide
  have hchar : lastSafeChar (likePatternCharacters none ['a', '_', 'B', '%']) = some 'B' := by
    decide
  refine ⟨htrue, likeRange_keeps_matches .utf8EnCi 0 none 9 _ _ nofun ?_ ?_ ?_ htrue⟩
  · simp [EndsInLongEscape, EndsInEscapesBehindOne, likeWildcardMatchMany]
  · intro c hc
    rw [hchar] at hc
    cases hc
    exact ⟨by decide, fun _ => by decide⟩
  · intro hnone
    rw [hchar] at hnone
    cases hnone

theorem not_inLikeRange (hbound : dbLikeBound coll escape pattern false = some bound)
    (h : 0 <= coll.fastcmp (tar.map Char.toNat) bound) : ¬ InLikeRange coll escape pattern tar := by
  rintro ⟨lower, upper, _, hupper, _, hlt⟩
  rw [hbound] at hupper
  cases hupper
  exact absurd hlt (Int.not_lt.mpr h)

/--
The greatest string of the domain is one character, so a pattern without a usable character
loses the targets that begin with it.  The character behind U+001F is the space, and the one
behind the grave accent is an `A` in the collation that folds case; both weigh less.
-/
theorem likeRange_loses_matches :
    (qstrEvalLike .utf8Binary 0 none 9 [Char.ofNat 0x10ffff] ['%'] = some .vTrue ∧
      ¬ InLikeRange .utf8Binary none ['%'] [Char.ofNat 0x10ffff]) ∧
    (qstrEvalLike .utf8Binary 0 none 9 [Char.ofNat 31] [Char.ofNat 31, '%'] = some .vTrue ∧
      ¬ InLikeRange .utf8Binary none [Char.ofNat 31, '%'] [Char.ofNat 31]) ∧
    (qstrEvalLike .utf8EnCi 0 none 9 [Char.ofNat 96] [Char.ofNat 96, '%'] = some .vTrue ∧
      ¬ InLikeRange .utf8EnCi none [Char.ofNat 96, '%'] [Char.ofNat 96]) := by
  have hmax : dbLikeBound .utf8Binary none ['%'] false = some [maxBoundChr] := by
    decide
  have hunit : dbLikeBound .utf8Binary none [Char.ofNat 31, '%'] false = some [32] := by
    decide
  have hgrave : dbLikeBound .utf8EnCi none [Char.ofNat 96, '%'] false = some [65] := by
    decide
  refine ⟨⟨by decide, not_inLikeRange hmax (by decide)⟩,
    ⟨by decide, not_inLikeRange hunit (by decide)⟩, by decide, not_inLikeRange hgrave (by decide)⟩

/-!
## Compressed patterns
-/

section

variable {fits : LikeToken -> Char -> Prop} {tail : List Char -> Prop} {last : Char -> Nat}

theorem accepts_cons_congr {p q : List (Option LikeToken)}
    (h : forall s, Wildcard.Accepts fits tail p s <-> Wildcard.Accepts fits tail q s)
    (t : Option LikeToken) (s : List Char) :
    Wildcard.Accepts fits tail (t :: p) s <-> Wildcard.Accepts fits tail (t :: q) s := by
  cases t with
  | none => simp only [Wildcard.accepts_gap, h]
  | some t =>
    cases s with
    | nil => rfl
    | cons c s => rw [Wildcard.accepts_token_cons, Wildcard.accepts_token_cons, h]

/-- Behind a `%` that is kept, another one adds nothing. -/
theorem accepts_compressLoop (pattern : List Char) :
    (forall s, Wildcard.Accepts fits tail (likeTokens last escape
        (compressLoop escape false (likePatternCharacters escape pattern))) s <->
      Wildcard.Accepts fits tail (likeTokens last escape pattern) s) ∧
    (escape ≠ some likeWildcardMatchMany -> forall s,
      Wildcard.Accepts fits tail (none :: likeTokens last escape
        (compressLoop escape true (likePatternCharacters escape pattern))) s <->
      Wildcard.Accepts fits tail (none :: likeTokens last escape pattern) s) := by
  fun_induction likePatternCharacters escape pattern with
  | case1 => exact ⟨fun _ => Iff.rfl, fun _ _ => Iff.rfl⟩
  | case2 c =>
    refine ⟨fun s => by simp [compressLoop, put], fun hescape s => ?_⟩
    by_cases hc : c = likeWildcardMatchMany
    · subst hc
      rw [likeTokens_cons hescape, charToken, if_pos rfl, Wildcard.accepts_gap_gap]
      simp [compressLoop, isMany, likeTokens]
    · simp [compressLoop, isMany, put, hc]
  | case3 c d rest hescape ih =>
    have hput : forall b, compressLoop escape b (⟨d, true⟩ :: likePatternCharacters escape rest) =
        c :: d :: compressLoop escape false (likePatternCharacters escape rest) := by
      simp [compressLoop, isMany, put, hescape]
    have hkept := accepts_cons_congr ih.1 (some (.char d.toNat))
    rw [hput, hput, likeTokens_escaped hescape, likeTokens_escaped hescape]
    exact ⟨hkept, fun _ => accepts_cons_congr hkept none⟩
  | case4 c d rest hescape ih =>
    rw [likeTokens_cons hescape]
    by_cases hc : c = likeWildcardMatchMany
    · subst hc
      have hput : compressLoop escape false
          (⟨likeWildcardMatchMany, false⟩ :: likePatternCharacters escape (d :: rest)) =
          likeWildcardMatchMany ::
            compressLoop escape true (likePatternCharacters escape (d :: rest)) := by
        simp [compressLoop, isMany, put]
      rw [hput, likeTokens_cons hescape, charToken, if_pos rfl]
      refine ⟨ih.2 hescape, fun _ s => ?_⟩
      rw [Wildcard.accepts_gap_gap, ← ih.2 hescape]
      simp [compressLoop, isMany]
    · have hput : forall b, compressLoop escape b
          (⟨c, false⟩ :: likePatternCharacters escape (d :: rest)) =
          c :: compressLoop escape false (likePatternCharacters escape (d :: rest)) := by
        simp [compressLoop, isMany, put, beq_eq_false_iff_ne.mpr hc]
      have hkept := accepts_cons_congr ih.1 (charToken c)
      rw [hput, hput, likeTokens_cons hescape]
      exact ⟨hkept, fun _ => accepts_cons_congr hkept none⟩

theorem compressLoop_squeeze (inPercentSequence : Bool) (ps : List PatternChar) :
    compressLoop escape inPercentSequence (squeeze inPercentSequence ps) =
      compressLoop escape inPercentSequence ps := by
  induction ps generalizing inPercentSequence with
  | nil => rfl
  | cons p ps ih =>
    unfold squeeze
    cases hmany : p.isMany && inPercentSequence with
    | true =>
      rw [Bool.and_eq_true] at hmany
      simp [compressLoop, hmany, ← ih true]
    | false => simp [compressLoop, hmany, ih]

/-- A compressed pattern matches the same targets and cannot be compressed further. -/
theorem dbCompressLikePattern_keeps (coll : LangColl) (escape : Option Char)
    (pattern tar : List Char) :
    (LikeMatches coll escape (dbCompressLikePattern escape pattern) tar <->
      LikeMatches coll escape pattern tar) ∧
    dbCompressLikePattern escape (dbCompressLikePattern escape pattern) =
      dbCompressLikePattern escape pattern := by
  constructor
  · rw [likeMatches_iff, likeMatches_iff]
    exact (accepts_compressLoop pattern).1 tar
  · rw [dbCompressLikePattern, dbCompressLikePattern, likePatternCharacters_compressLoop,
      compressLoop_squeeze]

end

end Rye.Query
