import Rye.Query.Like.Answers

/-!
# LIKE means what its pattern says

The matcher is right on every target for all patterns but two kinds.  A pattern
that ends in an escape character of more than one byte is compared with the byte
behind it.  A pattern that ends in a `_` and one or more `%`, while `%` is the escape
character, accepts a target that ends at the `_`.
-/

namespace Rye.Query

open Base List
open Foundation

def AnswersLike (coll : LangColl) (behind : UInt8) (escape : Option Char)
    (pattern tar : List Char) : Prop :=
  exists n, forall fuel, n <= fuel ->
    (LikeMatches coll escape pattern tar ->
      qstrEvalLike coll behind escape fuel tar pattern = some .vTrue) ∧
    (¬ LikeMatches coll escape pattern tar ->
      qstrEvalLike coll behind escape fuel tar pattern = some .vFalse)

/-- The pattern ends in an escape character of more than one byte that escapes nothing. -/
def EndsInLongEscape (escape : Option Char) : List Char -> Prop
  | [] => False
  | [c] => escape = some c ∧ c.utf8Size ≠ 1
  | c :: d :: rest =>
    if escape = some c then EndsInLongEscape escape rest
    else EndsInLongEscape escape (d :: rest)

/-- The pattern ends in an unescaped `_` and at least one `%`, and `%` is the escape character. -/
def EndsInEscapesBehindOne (escape : Option Char) : List Char -> Prop
  | [] => False
  | [_] => False
  | c :: d :: rest =>
    if escape = some c then EndsInEscapesBehindOne escape rest
    else (isMatchOne escape c = true ∧ escape = some likeWildcardMatchMany ∧
        OnlyMany (d :: rest)) ∨
      EndsInEscapesBehindOne escape (d :: rest)

variable {coll : LangColl} {behind : UInt8} {escape : Option Char}

theorem likeMatches_iff (pattern tar : List Char) :
    LikeMatches coll escape pattern tar <->
      Wildcard.Accepts (LikeToken.Fits coll) Spaces (likeTokens Char.toNat escape pattern) tar :=
  Wildcard.accepts_iff_exists_append.symm

/-!
## The last token
-/

variable {pattern tar : List Char}

theorem likeTokens_lastCode (h : ¬ EndsInLongEscape escape pattern) :
    likeTokens (lastCode behind) escape pattern = likeTokens Char.toNat escape pattern := by
  fun_induction EndsInLongEscape escape pattern with
  | case1 => rfl
  | case2 c =>
    by_cases hescape : escape = some c
    · have hsize : c.utf8Size = 1 := by
        by_contra hsize
        exact h ⟨hescape, hsize⟩
      simp [likeTokens, lastCode, hescape, hsize]
    · simp [likeTokens, hescape]
  | case3 c d rest hescape ih => rw [likeTokens_escaped hescape, likeTokens_escaped hescape, ih h]
  | case4 c d rest hescape ih => rw [likeTokens_cons hescape, likeTokens_cons hescape, ih h]

theorem char_behind_mem (h : EndsInLongEscape escape pattern) :
    some (LikeToken.char (cpBehind behind)) ∈ likeTokens (lastCode behind) escape pattern := by
  fun_induction EndsInLongEscape escape pattern with
  | case1 => exact absurd h id
  | case2 c => simp [likeTokens, lastCode, h.1, h.2]
  | case3 c d rest hescape ih =>
    rw [likeTokens_escaped hescape]
    exact mem_cons_of_mem _ (ih h)
  | case4 c d rest hescape ih =>
    rw [likeTokens_cons hescape]
    exact mem_cons_of_mem _ (ih h)

theorem EndsInLongEscape.escape_ne (h : EndsInLongEscape escape pattern) :
    escape ≠ some likeWildcardMatchMany := by
  fun_induction EndsInLongEscape escape pattern with
  | case1 => exact absurd h id
  | case2 c =>
    intro hescape
    rw [h.1] at hescape
    cases hescape
    exact h.2 rfl
  | case3 c d rest hescape ih | case4 c d rest hescape ih => exact ih h

theorem LangColl.weight_lt (coll : LangColl) {cp : Nat} (h : cp < 4294967295) :
    coll.weight cp < 4294967295 := by
  cases coll <;> simp only [LangColl.weight, LangColl.weights, langWeightEnCs, langWeightEnCi] <;>
    split_ifs <;> omega

theorem not_fits_behind (coll : LangColl) (c : Char) :
    ¬ LikeToken.Fits coll (.char (cpBehind 255)) c := by
  intro h
  have hlt : coll.weight c.toNat < 4294967295 := by
    apply LangColl.weight_lt
    change c.val.toNat < _
    rcases c.valid with hvalid | ⟨_, hvalid⟩ <;> omega
  have hbehind : coll.weight (cpBehind 255) = 4294967295 := by
    cases coll <;> rfl
  have hweight : coll.weight c.toNat = coll.weight (cpBehind 255) := h
  omega

theorem exists_fits (coll : LangColl) {t : LikeToken}
    (ht : some t ∈ likeTokens Char.toNat escape pattern) : exists c, t.Fits coll c := by
  have hchar : forall c, charToken c = some t -> exists c, t.Fits coll c := by
    intro c hc
    unfold charToken at hc
    split_ifs at hc
    · cases hc
      exact ⟨c, trivial⟩
    · cases hc
      exact ⟨c, rfl⟩
  fun_induction likeTokens Char.toNat escape pattern with
  | case1 => cases ht
  | case2 c =>
    have hc := (mem_singleton.mp ht).symm
    split_ifs at hc
    · cases hc
      exact ⟨c, rfl⟩
    · exact hchar c hc
  | case3 c d rest hescape ih =>
    cases ht with
    | head => exact ⟨d, rfl⟩
    | tail _ ht => exact ih ht
  | case4 c d rest hescape ih =>
    cases mem_cons.mp ht with
    | inl hc => exact hchar c hc.symm
    | inr ht => exact ih ht

theorem exists_likeMatches (coll : LangColl) (escape : Option Char) (pattern : List Char) :
    exists tar, LikeMatches coll escape pattern tar := by
  have hnil : Spaces [] := nofun
  have haccepts : exists tar, Wildcard.Accepts (LikeToken.Fits coll) Spaces
      (likeTokens Char.toNat escape pattern) tar :=
    Wildcard.exists_accepts hnil fun t ht => exists_fits coll ht
  rcases haccepts with ⟨tar, htar⟩
  exact ⟨tar, (likeMatches_iff pattern tar).mpr htar⟩

/-!
## Escape characters behind the end of the target
-/

theorem SlipAccepts.ends (h : SlipAccepts coll escape pattern tar) :
    EndsInEscapesBehindOne escape pattern := by
  fun_induction SlipAccepts coll escape pattern tar with
  | case1 c d rest a tar hescape ih =>
    unfold EndsInEscapesBehindOne
    rw [if_pos hescape]
    exact ih h.2
  | case2 c d rest a tar hescape hmany => exact absurd h id
  | case3 c d rest a tar hescape hmany hone ih =>
    unfold EndsInEscapesBehindOne
    rw [if_neg hescape]
    cases h with
    | inl h => exact .inl ⟨hone, h.2⟩
    | inr h => exact .inr (ih h)
  | case4 c d rest a tar hescape hmany hone ih =>
    unfold EndsInEscapesBehindOne
    rw [if_neg hescape]
    exact .inr (ih h.2)
  | case5 pattern tar hne => exact absurd h id

theorem EndsInEscapesBehindOne.escape_eq (h : EndsInEscapesBehindOne escape pattern) :
    escape = some likeWildcardMatchMany := by
  fun_induction EndsInEscapesBehindOne escape pattern with
  | case1 | case2 c => exact absurd h id
  | case3 c d rest hescape ih => exact ih h
  | case4 c d rest hescape ih =>
    cases h with
    | inl h => exact h.2.1
    | inr h => exact ih h

theorem exists_slipAccepts (coll : LangColl) (h : EndsInEscapesBehindOne escape pattern) :
    exists tar, SlipAccepts coll escape pattern tar := by
  have hall := h.escape_eq
  fun_induction EndsInEscapesBehindOne escape pattern with
  | case1 | case2 c => exact absurd h id
  | case3 c d rest hescape ih =>
    rcases ih h with ⟨tar, htar⟩
    exact ⟨d :: tar, (slipAccepts_escaped hescape rest d tar).mpr ⟨rfl, htar⟩⟩
  | case4 c d rest hescape ih =>
    have hmany : isMatchMany escape c = false := by
      simp [isMatchMany, hall]
    cases hone : isMatchOne escape c with
    | true =>
      cases h with
      | inl h =>
        refine ⟨['a'], (slipAccepts_one hone (d :: rest) 'a' []).mpr (.inl ?_)⟩
        exact ⟨rfl, hall, cons_ne_nil _ _, h.2.2⟩
      | inr h =>
        rcases ih h with ⟨tar, htar⟩
        exact ⟨'a' :: tar, (slipAccepts_one hone (d :: rest) 'a' tar).mpr (.inr htar)⟩
    | false =>
      cases h with
      | inl h =>
        rw [h.1] at hone
        cases hone
      | inr h =>
        rcases ih h with ⟨tar, htar⟩
        exact ⟨c :: tar, (slipAccepts_char hescape hmany hone (d :: rest) c tar).mpr ⟨rfl, htar⟩⟩

theorem SlipAccepts.length_lt (h : SlipAccepts coll escape pattern tar) :
    tar.length < (likeTokens Char.toNat escape pattern).length := by
  fun_induction SlipAccepts coll escape pattern tar with
  | case1 c d rest a tar hescape ih =>
    rw [likeTokens_escaped hescape]
    exact Nat.succ_lt_succ (ih h.2)
  | case2 c d rest a tar hescape hmany => exact absurd h id
  | case3 c d rest a tar hescape hmany hone ih =>
    rw [likeTokens_cons hescape]
    cases h with
    | inl h =>
      rw [h.1]
      cases rest <;> simp only [likeTokens] <;> split_ifs <;> simp
    | inr h => exact Nat.succ_lt_succ (ih h)
  | case4 c d rest a tar hescape hmany hone ih =>
    rw [likeTokens_cons hescape]
    exact Nat.succ_lt_succ (ih h.2)
  | case5 pattern tar hne => exact absurd h id

theorem likeTokens_gapless (hescape : escape = some likeWildcardMatchMany) (pattern : List Char) :
    exists seg : List LikeToken, likeTokens Char.toNat escape pattern = seg.map some := by
  have hchar : forall c, escape ≠ some c -> exists t, charToken c = some t := by
    intro c hc
    unfold charToken
    split_ifs with hmany
    · rw [hmany] at hc
      exact absurd hescape hc
    · exact ⟨_, rfl⟩
    · exact ⟨_, rfl⟩
  fun_induction likeTokens Char.toNat escape pattern with
  | case1 => exact ⟨[], rfl⟩
  | case2 c =>
    split_ifs with hc
    · exact ⟨[_], rfl⟩
    · rcases hchar c hc with ⟨t, ht⟩
      rw [ht]
      exact ⟨[t], rfl⟩
  | case3 c d rest hc ih =>
    rcases ih with ⟨seg, hseg⟩
    rw [hseg]
    exact ⟨.char d.toNat :: seg, rfl⟩
  | case4 c d rest hc ih =>
    rcases hchar c hc with ⟨t, ht⟩
    rcases ih with ⟨seg, hseg⟩
    rw [ht, hseg]
    exact ⟨t :: seg, rfl⟩

theorem not_likeMatches_of_slip (h : SlipAccepts coll escape pattern tar) :
    ¬ LikeMatches coll escape pattern tar := by
  intro hmatches
  rw [likeMatches_iff] at hmatches
  rcases likeTokens_gapless h.escape_eq pattern with ⟨seg, hseg⟩
  have hlt := h.length_lt
  rw [hseg] at hlt hmatches
  rw [← append_nil (seg.map some)] at hmatches
  have hle := hmatches.drop_tokens.1
  rw [length_map] at hlt
  omega

/-!
## The matcher and the pattern
-/

theorem answersLike_of_accepts (hgaps : gaps escape pattern <= stackSize)
    (hiff : MatcherAccepts coll behind escape pattern tar <-> LikeMatches coll escape pattern tar) :
    AnswersLike coll behind escape pattern tar := by
  have hdecides := (qstrEvalLike_decides coll behind hgaps tar).congr hiff
  cases hdecides with
  | inl h =>
    rcases h with ⟨hmatches, n, hn⟩
    exact ⟨n, fun fuel hfuel => ⟨fun _ => hn fuel hfuel, fun hnot => absurd hmatches hnot⟩⟩
  | inr h =>
    rcases h with ⟨hnot, n, hn⟩
    exact ⟨n, fun fuel hfuel => ⟨fun hmatches => absurd hmatches hnot, fun _ => hn fuel hfuel⟩⟩

theorem accepts_of_answersLike (hgaps : gaps escape pattern <= stackSize)
    (h : AnswersLike coll behind escape pattern tar) :
    MatcherAccepts coll behind escape pattern tar <-> LikeMatches coll escape pattern tar := by
  rcases h with ⟨n, hn⟩
  cases qstrEvalLike_decides coll behind hgaps tar with
  | inl hdecides =>
    rcases hdecides with ⟨haccepts, m, hm⟩
    refine iff_of_true haccepts ?_
    by_contra hnot
    have htrue := hm (max n m) (Nat.le_max_right _ _)
    have hfalse := (hn (max n m) (Nat.le_max_left _ _)).2 hnot
    cases htrue.symm.trans hfalse
  | inr hdecides =>
    rcases hdecides with ⟨hnot, m, hm⟩
    refine iff_of_false hnot ?_
    intro hmatches
    have hfalse := hm (max n m) (Nat.le_max_right _ _)
    have htrue := (hn (max n m) (Nat.le_max_left _ _)).1 hmatches
    cases htrue.symm.trans hfalse

/-- The patterns on which the matcher is right for every target. -/
theorem qstrEvalLike_meaning_iff (coll : LangColl) (escape : Option Char) (pattern : List Char)
    (hgaps : gaps escape pattern < 100) :
    (forall behind tar, AnswersLike coll behind escape pattern tar) <->
      ¬ EndsInLongEscape escape pattern ∧ ¬ EndsInEscapesBehindOne escape pattern := by
  have hdepth : gaps escape pattern <= stackSize := Nat.le_of_lt hgaps
  constructor
  · intro h
    constructor
    · intro hends
      rcases exists_likeMatches coll escape pattern with ⟨tar, hmatches⟩
      have haccepts := (accepts_of_answersLike hdepth (h 255 tar)).mpr hmatches
      rw [matcherAccepts_iff hends.escape_ne] at haccepts
      rcases haccepts.exists_fits (char_behind_mem hends) with ⟨c, hc⟩
      exact not_fits_behind coll c hc
    · intro hends
      rcases exists_slipAccepts coll hends with ⟨tar, hslip⟩
      have hmatches := (accepts_of_answersLike hdepth (h 0 tar)).mp (.inr hslip)
      exact not_likeMatches_of_slip hslip hmatches
  · rintro ⟨hlong, hone⟩ behind tar
    apply answersLike_of_accepts hdepth
    unfold MatcherAccepts CodeAccepts
    rw [or_iff_left fun hslip => hone hslip.ends, likeTokens_lastCode hlong, likeMatches_iff]

/-- The pattern `a\%_%` matches an `a`, a percent sign and one more character at the beginning. -/
theorem qstrEvalLike_meaning_escaped :
    gaps (some '\\') ['a', '\\', '%', '_', '%'] < 100 ∧
      forall behind tar, AnswersLike .utf8EnCi behind (some '\\') ['a', '\\', '%', '_', '%'] tar := by
  refine ⟨by decide, ?_⟩
  refine (qstrEvalLike_meaning_iff .utf8EnCi (some '\\') ['a', '\\', '%', '_', '%']
    (by decide)).mpr ?_
  simp [EndsInLongEscape, EndsInEscapesBehindOne, isMatchOne, likeWildcardMatchOne,
    likeWildcardMatchMany]

/-- With the escape character `%` the pattern `_%%` asks for a percent sign at the end. -/
theorem qstrEvalLike_accepts_short :
    qstrEvalLike .utf8Binary 0 (some '%') 2 ['x'] ['_', '%', '%'] = some .vTrue ∧
      ¬ LikeMatches .utf8Binary (some '%') ['_', '%', '%'] ['x'] := by
  have hslip : SlipAccepts .utf8Binary (some '%') ['_', '%', '%'] ['x'] := by
    simp [SlipAccepts, isMatchOne, isMatchMany, likeWildcardMatchOne, likeWildcardMatchMany]
  exact ⟨by decide, not_likeMatches_of_slip hslip⟩

end Rye.Query
