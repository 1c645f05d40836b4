import Rye.Query.Like.Patterns
import Mathlib.Data.List.TakeWhile

/-!
# The answers of the matcher

Between two `%` the matcher has one way back, the last place on the stack.  When it
reaches the next `%` that way is no longer needed, since every match it could lead
to has a match from here as well; when the target is used up, the way back has
even less of the target left.  So the answer from a state is decided by the rest of
the pattern and by the way back alone.

The test for a target that is used up skips every `%`, also when `%` is the escape
character.  Then a `_` that takes the last character accepts any number of `%`
behind it.
-/

namespace Rye.Query

open Base List
open Foundation

variable {coll : LangColl} {behind : UInt8} {escape : Option Char}

/-!
## What the matcher accepts
-/

/-- The target ends at a `_` with nothing but `%` behind it, and `%` is the escape character. -/
def SlipAccepts (coll : LangColl) (escape : Option Char) : List Char -> List Char -> Prop
  | c :: d :: rest, a :: tar =>
    if escape = some c then
      coll.weight a.toNat = coll.weight d.toNat ∧ SlipAccepts coll escape rest tar
    else if isMatchMany escape c then False
    else if isMatchOne escape c then
      (tar = [] ∧ escape = some likeWildcardMatchMany ∧
        forall x, x ∈ d :: rest -> x = likeWildcardMatchMany) ∨
      SlipAccepts coll escape (d :: rest) tar
    else coll.weight a.toNat = coll.weight c.toNat ∧ SlipAccepts coll escape (d :: rest) tar
  | _, _ => False

def MatcherAccepts (coll : LangColl) (behind : UInt8) (escape : Option Char)
    (expr tar : List Char) : Prop :=
  CodeAccepts coll behind escape expr tar ∨ SlipAccepts coll escape expr tar

def OnlyMany (expr : List Char) : Prop :=
  forall c, c ∈ expr -> c = likeWildcardMatchMany

/-- What is accepted behind the test for a target that is used up. -/
def SettledAccepts (coll : LangColl) (behind : UInt8) (escape : Option Char)
    (expr tar : List Char) : Prop :=
  (tar = [] ∧ OnlyMany expr) ∨ (tar ≠ [] ∧ MatcherAccepts coll behind escape expr tar)

theorem slipAccepts_nil (tar : List Char) : ¬ SlipAccepts coll escape [] tar := by
  intro h
  exact h

theorem slipAccepts_tar_nil (expr : List Char) : ¬ SlipAccepts coll escape expr [] := by
  intro h
  rcases expr with _ | ⟨c, _ | ⟨d, rest⟩⟩ <;> exact h

theorem slipAccepts_single (c : Char) (tar : List Char) : ¬ SlipAccepts coll escape [c] tar := by
  intro h
  cases tar <;> exact h

variable {expr tar : List Char} {c : Char} {p : Prop}

/-- Only the escape character `%` is mistaken for a wildcard. -/
theorem SlipAccepts.escape_eq (h : SlipAccepts coll escape expr tar) :
    escape = some likeWildcardMatchMany := by
  fun_induction SlipAccepts coll escape expr tar with
  | case1 c d rest a tar hescape ih => exact ih h.2
  | case2 c d rest a tar hescape hmany => exact absurd h id
  | case3 c d rest a tar hescape hmany hone ih =>
    cases h with
    | inl h => exact h.2.1
    | inr h => exact ih h
  | case4 c d rest a tar hescape hmany hone ih => exact ih h.2
  | case5 expr tar hne => exact absurd h id

theorem slipAccepts_one (hone : isMatchOne escape c = true) (rest : List Char) (a : Char)
    (tar : List Char) :
    SlipAccepts coll escape (c :: rest) (a :: tar) <->
      (tar = [] ∧ escape = some likeWildcardMatchMany ∧ rest ≠ [] ∧ OnlyMany rest) ∨
        SlipAccepts coll escape rest tar := by
  rcases isMatchOne_iff.mp hone with ⟨hescape, rfl⟩
  have hmany : isMatchMany escape likeWildcardMatchOne = false := by
    simp [isMatchMany, likeWildcardMatchOne, likeWildcardMatchMany]
  cases rest with
  | nil => simp [slipAccepts_single, slipAccepts_nil]
  | cons d rest => simp [SlipAccepts, hescape, hmany, hone, OnlyMany]

theorem slipAccepts_char (hescape : escape ≠ some c) (hmany : isMatchMany escape c = false)
    (hone : isMatchOne escape c = false) (rest : List Char) (a : Char) (tar : List Char) :
    SlipAccepts coll escape (c :: rest) (a :: tar) <->
      coll.weight a.toNat = coll.weight c.toNat ∧ SlipAccepts coll escape rest tar := by
  cases rest with
  | nil => simp [slipAccepts_single, slipAccepts_nil]
  | cons d rest => simp [SlipAccepts, hescape, hmany, hone]

theorem slipAccepts_escaped {d : Char} (hescape : escape = some c) (rest : List Char) (a : Char)
    (tar : List Char) :
    SlipAccepts coll escape (c :: d :: rest) (a :: tar) <->
      coll.weight a.toNat = coll.weight d.toNat ∧ SlipAccepts coll escape rest tar := by
  subst hescape
  simp [SlipAccepts]

/-- The code points of the sequence at the head of a pattern. -/
def headCodes (behind : UInt8) (escape : Option Char) (expr : List Char) : List Nat :=
  seqCodes behind escape (likeSeq escape false expr).hasLastEscape (likeSeq escape false expr).seq

theorem headCodes_wildcard (behind : UInt8) (rest : List Char)
    (h : isMatchMany escape c = true ∨ isMatchOne escape c = true) :
    headCodes behind escape (c :: rest) = [] ∧
      (likeSeq escape false (c :: rest)).rest = c :: rest := by
  unfold headCodes likeSeq
  rw [if_pos ⟨rfl, h⟩]
  exact ⟨rfl, rfl⟩

theorem headCodes_char (behind : UInt8) (rest : List Char) (hescape : escape ≠ some c)
    (hmany : isMatchMany escape c = false) (hone : isMatchOne escape c = false) :
    headCodes behind escape (c :: rest) = c.toNat :: headCodes behind escape rest ∧
      (likeSeq escape false (c :: rest)).rest = (likeSeq escape false rest).rest := by
  unfold headCodes
  rw [likeSeq_char hescape hmany hone]
  exact ⟨seqCodes_cons hescape, rfl⟩

theorem headCodes_escaped (behind : UInt8) (d : Char) (rest : List Char)
    (hescape : escape = some c) :
    headCodes behind escape (c :: d :: rest) = d.toNat :: headCodes behind escape rest ∧
      (likeSeq escape false (c :: d :: rest)).rest = (likeSeq escape false rest).rest := by
  unfold headCodes
  rw [likeSeq_escaped hescape]
  constructor
  · simp [LikeSeq.cons, seqCodes, hescape]
  · rfl

theorem matchCodes_cons_iff {cp : Nat} {cps : List Nat} {tar' : List Char} :
    matchCodes coll (cp :: cps) tar = some tar' <->
      exists a rest, tar = a :: rest ∧ coll.weight a.toNat = coll.weight cp ∧
        matchCodes coll cps rest = some tar' := by
  cases tar with
  | nil => simp [matchCodes]
  | cons a rest =>
    by_cases hweight : coll.weight a.toNat = coll.weight cp <;> simp [matchCodes, hweight]

theorem slipAccepts_seq (behind : UInt8) (expr tar : List Char) :
    SlipAccepts coll escape expr tar <->
      exists tar', matchCodes coll (headCodes behind escape expr) tar = some tar' ∧
        SlipAccepts coll escape (likeSeq escape false expr).rest tar' := by
  induction hlength : expr.length using Nat.strongRecOn generalizing expr tar with
  | _ n ih =>
    subst hlength
    cases expr with
    | nil =>
      constructor
      · intro h
        exact absurd h (slipAccepts_nil tar)
      · rintro ⟨tar', _, h⟩
        exact absurd h (slipAccepts_nil tar')
    | cons c rest =>
      by_cases hescape : escape = some c
      · cases rest with
        | nil =>
          constructor
          · intro h
            exact absurd h (slipAccepts_single c tar)
          rintro ⟨tar', _, h⟩
          have hrest : (likeSeq escape false [c]).rest = [] := by
            have hwild := not_wildcard_of_escape hescape
            unfold likeSeq
            rw [if_neg (by simp [hwild.1, hwild.2]), if_pos ⟨rfl, hescape⟩]
            split_ifs <;> rfl
          rw [hrest] at h
          exact absurd h (slipAccepts_nil tar')
        | cons d rest =>
          rcases headCodes_escaped behind d rest hescape with
            ⟨hcodes, hrest⟩
          rw [hcodes, hrest]
          cases tar with
          | nil => simp [slipAccepts_tar_nil, matchCodes]
          | cons a tar =>
            rw [slipAccepts_escaped hescape,
              ih rest.length (by simp only [length_cons]; omega) rest tar rfl]
            simp [matchCodes_cons_iff, and_assoc]
      · by_cases hwild : isMatchMany escape c = true ∨ isMatchOne escape c = true
        · rcases headCodes_wildcard behind rest hwild with ⟨hcodes, hrest⟩
          rw [hcodes, hrest]
          simp [matchCodes]
        have hmany : isMatchMany escape c = false := by
          simpa using fun h => hwild (.inl h)
        have hone : isMatchOne escape c = false := by
          simpa using fun h => hwild (.inr h)
        rcases headCodes_char behind rest hescape hmany hone with
          ⟨hcodes, hrest⟩
        rw [hcodes, hrest]
        cases tar with
        | nil => simp [slipAccepts_tar_nil, matchCodes]
        | cons a tar =>
          rw [slipAccepts_char hescape hmany hone,
            ih rest.length (by simp only [length_cons]; omega) rest tar rfl]
          simp [matchCodes_cons_iff, and_assoc]

theorem codeAccepts_seq (expr tar : List Char) :
    CodeAccepts coll behind escape expr tar <->
      exists tar', matchCodes coll (headCodes behind escape expr) tar = some tar' ∧
        CodeAccepts coll behind escape (likeSeq escape false expr).rest tar' := by
  unfold CodeAccepts
  rw [(likeSeq_reads behind escape expr).tokens]
  exact accepts_charTokens

theorem matcherAccepts_seq (expr tar : List Char) :
    MatcherAccepts coll behind escape expr tar <->
      exists tar', matchCodes coll (headCodes behind escape expr) tar = some tar' ∧
        MatcherAccepts coll behind escape (likeSeq escape false expr).rest tar' := by
  unfold MatcherAccepts
  rw [codeAccepts_seq, slipAccepts_seq behind]
  constructor
  · intro h
    rcases h with ⟨tar', hmatch, h⟩ | ⟨tar', hmatch, h⟩
    · exact ⟨tar', hmatch, .inl h⟩
    · exact ⟨tar', hmatch, .inr h⟩
  · rintro ⟨tar', hmatch, h⟩
    cases h with
    | inl h => exact .inl ⟨tar', hmatch, h⟩
    | inr h => exact .inr ⟨tar', hmatch, h⟩

theorem strmatch_eq (expr tar : List Char) :
    (likeSeq escape false expr).strmatch coll behind escape tar =
      matchCodes coll (headCodes behind escape expr) tar := by
  have hread := likeSeq_reads behind escape expr
  unfold LikeSeq.strmatch headCodes
  rw [langStrmatchUtf8_eq]
  split_ifs with hescape
  · rfl
  · rw [hread.unescaped (by simpa using hescape)]

/-!
## The end of the target
-/

theorem onlyMany_iff (expr : List Char) :
    expr.dropWhile (fun c => c == likeWildcardMatchMany) = [] <-> OnlyMany expr := by
  rw [dropWhile_eq_nil_iff]
  simp [OnlyMany]

theorem not_codeAccepts_nil (coll : LangColl) (behind : UInt8)
    (hmany : isMatchMany escape c = false) (rest : List Char) :
    ¬ CodeAccepts coll behind escape (c :: rest) [] := by
  have htoken : exists t p, likeTokens (lastCode behind) escape (c :: rest) = some t :: p := by
    by_cases hescape : escape = some c
    · cases rest <;> simp [likeTokens, hescape]
    have hc : c ≠ likeWildcardMatchMany := by
      intro hc
      rw [isMatchMany_iff.mpr ⟨hescape, hc⟩] at hmany
      cases hmany
    rw [likeTokens_cons hescape, charToken, if_neg hc]
    split_ifs <;> exact ⟨_, _, rfl⟩
  rcases htoken with ⟨t, p, htoken⟩
  unfold CodeAccepts
  rw [htoken, Wildcard.accepts_token_nil]
  exact id

/-- Where `%` is a wildcard, the test for the end of the target is right. -/
theorem onlyMany_iff_codeAccepts (coll : LangColl) (behind : UInt8)
    (hescape : escape ≠ some likeWildcardMatchMany) (expr : List Char) :
    OnlyMany expr <-> CodeAccepts coll behind escape expr [] := by
  induction expr with
  | nil => simp [OnlyMany, CodeAccepts, likeTokens, Wildcard.accepts_nil, Spaces]
  | cons c rest ih =>
    by_cases hc : c = likeWildcardMatchMany
    · subst hc
      have hmany : isMatchMany escape likeWildcardMatchMany = true :=
        isMatchMany_iff.mpr ⟨hescape, rfl⟩
      unfold CodeAccepts at ih ⊢
      rw [likeTokens_many hmany, Wildcard.accepts_gap_nil, ← ih]
      simp [OnlyMany]
    · have hmany : isMatchMany escape c = false := by
        simp [isMatchMany, hc]
      constructor
      · intro h
        exact absurd (h c mem_cons_self) hc
      · intro h
        exact absurd h (not_codeAccepts_nil coll behind hmany rest)

theorem onlyMany_iff_of_atWildcard (h : AtWildcard escape expr) :
    OnlyMany expr <-> MatcherAccepts coll behind escape expr [] := by
  unfold MatcherAccepts
  rw [or_iff_left (slipAccepts_tar_nil expr)]
  by_cases hescape : escape = some likeWildcardMatchMany
  · cases expr with
    | nil => simp [OnlyMany, CodeAccepts, likeTokens, Wildcard.accepts_nil, Spaces]
    | cons c rest =>
      have hone : isMatchOne escape c = true := by
        cases h c rest rfl with
        | inl hmany => simp [isMatchMany, hescape] at hmany
        | inr hone => exact hone
      unfold CodeAccepts
      rw [likeTokens_one hone, Wildcard.accepts_token_nil]
      rcases isMatchOne_iff.mp hone with ⟨_, rfl⟩
      simp [OnlyMany, likeWildcardMatchOne, likeWildcardMatchMany]
  · exact onlyMany_iff_codeAccepts coll behind hescape expr

theorem matcherAccepts_nil (tar : List Char) :
    MatcherAccepts coll behind escape [] tar <-> Spaces tar := by
  unfold MatcherAccepts
  rw [or_iff_left (slipAccepts_nil tar)]
  rfl

theorem matcherAccepts_many {rest : List Char} (h : isMatchMany escape c = true) :
    MatcherAccepts coll behind escape (c :: rest) tar <->
      CodeAccepts coll behind escape (c :: rest) tar := by
  unfold MatcherAccepts
  rw [or_iff_left]
  intro hslip
  rw [isMatchMany, hslip.escape_eq] at h
  simp at h

theorem matcherAccepts_one (hone : isMatchOne escape c = true) (rest : List Char) (a : Char)
    (tar : List Char) :
    MatcherAccepts coll behind escape (c :: rest) (a :: tar) <->
      SettledAccepts coll behind escape rest tar := by
  unfold MatcherAccepts SettledAccepts
  rw [slipAccepts_one hone]
  have hcode : CodeAccepts coll behind escape (c :: rest) (a :: tar) <->
      CodeAccepts coll behind escape rest tar := by
    unfold CodeAccepts
    rw [likeTokens_one hone, Wildcard.accepts_token_cons]
    simp [LikeToken.Fits]
  rw [hcode]
  cases tar with
  | nil =>
    by_cases hescape : escape = some likeWildcardMatchMany
    · cases rest with
      | nil => simp [OnlyMany, CodeAccepts, likeTokens, Wildcard.accepts_nil, Spaces]
      | cons d rest =>
        have hmany : isMatchMany escape d = false := by
          simp [isMatchMany, hescape]
        have hcode' := not_codeAccepts_nil coll behind hmany rest
        subst hescape
        simp [slipAccepts_tar_nil, hcode']
    · rw [onlyMany_iff_codeAccepts coll behind hescape]
      simp [slipAccepts_tar_nil, hescape]
  | cons b tar => simp [MatcherAccepts]

/-!
## Runs of the loop
-/

/-- From the end of an iteration on, the loop returns the answer. -/
def Returns (coll : LangColl) (behind : UInt8) (escape : Option Char) (step : LikeStep)
    (result : DbLogical) : Prop :=
  match step with
  | .done result' => result' = result
  | .next s | .test s =>
    exists n, forall fuel, n <= fuel -> likeLoop coll behind escape fuel s = some result

/-- The loop returns true if the property holds, and false if not. -/
def Decides (coll : LangColl) (behind : UInt8) (escape : Option Char) (step : LikeStep)
    (accepted : Prop) : Prop :=
  (accepted ∧ Returns coll behind escape step .vTrue) ∨
    (¬ accepted ∧ Returns coll behind escape step .vFalse)

theorem Decides.congr {step : LikeStep} {q : Prop} (h : Decides coll behind escape step p)
    (hiff : p <-> q) : Decides coll behind escape step q := by
  rwa [propext hiff] at h

variable {s : LikeState}

theorem returns_next {result : DbLogical}
    (h : Returns coll behind escape (likeStep coll behind escape s) result) :
    Returns coll behind escape (.next s) result := by
  cases hstep : likeStep coll behind escape s with
  | done result' =>
    rw [hstep] at h
    cases h
    refine ⟨1, fun fuel hfuel => ?_⟩
    cases fuel with
    | zero => omega
    | succ fuel => simp [likeLoop, hstep]
  | next s' | test s' =>
    rw [hstep] at h
    rcases h with ⟨n, hn⟩
    refine ⟨n + 1, fun fuel hfuel => ?_⟩
    cases fuel with
    | zero => omega
    | succ fuel => simpa [likeLoop, hstep] using hn fuel (by omega)

theorem decides_next (h : Decides coll behind escape (likeStep coll behind escape s) p) :
    Decides coll behind escape (.next s) p := by
  cases h with
  | inl h => exact .inl ⟨h.1, returns_next h.2⟩
  | inr h => exact .inr ⟨h.1, returns_next h.2⟩

theorem decides_true (hp : p) : Decides coll behind escape (.done .vTrue) p :=
  .inl ⟨hp, rfl⟩

theorem decides_false (hp : ¬ p) : Decides coll behind escape (.done .vFalse) p :=
  .inr ⟨hp, rfl⟩

theorem decides_settle (hend : s.tar = [] -> (OnlyMany s.expr <-> p))
    (hnext : s.tar ≠ [] -> Decides coll behind escape (.next s) p) :
    Decides coll behind escape (LikeStep.test s).settle p := by
  unfold LikeStep.settle
  dsimp only
  split_ifs with htar hexpr
  · exact decides_true ((hend htar).mp ((onlyMany_iff s.expr).mp hexpr))
  · apply decides_false
    intro hp
    exact hexpr ((onlyMany_iff s.expr).mpr ((hend htar).mpr hp))
  · exact hnext htar

def gaps (escape : Option Char) (expr : List Char) : Nat :=
  (likeTokens Char.toNat escape expr).count none

theorem gaps_eq (last : Char -> Nat) (expr : List Char) :
    gaps escape expr = (likeTokens last escape expr).count none := by
  unfold gaps
  fun_induction likeTokens last escape expr with
  | case1 => rfl
  | case2 c => by_cases hescape : escape = some c <;> simp [likeTokens, hescape]
  | case3 c d rest hescape ih => simp [likeTokens_escaped hescape, ih]
  | case4 c d rest hescape ih => rw [likeTokens_cons hescape, List.count_cons, List.count_cons, ih]

theorem gaps_many (h : isMatchMany escape c = true) (rest : List Char) :
    gaps escape (c :: rest) = gaps escape rest + 1 := by
  unfold gaps
  rw [likeTokens_many h, count_cons_self]

theorem gaps_one (h : isMatchOne escape c = true) (rest : List Char) :
    gaps escape (c :: rest) = gaps escape rest := by
  unfold gaps
  rw [likeTokens_one h, count_cons_of_ne (by simp)]

theorem gaps_seq (behind : UInt8) (expr : List Char) :
    gaps escape expr = gaps escape (likeSeq escape false expr).rest := by
  rw [gaps_eq (lastCode behind), (likeSeq_reads behind escape expr).tokens, List.count_append,
    gaps_eq (lastCode behind)]
  have hnone : ((charTokens (seqCodes behind escape (likeSeq escape false expr).hasLastEscape
      (likeSeq escape false expr).seq)).map some).count none = 0 := by
    apply count_eq_zero_of_not_mem
    simp
  rw [hnone, Nat.zero_add]

def AtGap (escape : Option Char) (expr : List Char) : Prop :=
  exists c rest, expr = c :: rest ∧ isMatchMany escape c = true

/-- The matcher decides from every state at a gap of a pattern of at most the given length. -/
def GapsDecided (coll : LangColl) (behind : UInt8) (escape : Option Char) (n : Nat) : Prop :=
  forall expr, expr.length <= n -> AtGap escape expr -> forall tar stack,
    stack.length + gaps escape expr <= stackSize -> Decides coll behind escape
        (.next { status := .inCheck, tar := tar, expr := expr, stack := stack })
        (CodeAccepts coll behind escape expr tar)

theorem likeSeq_rest_lt (rest : List Char) (hmany : isMatchMany escape c = false)
    (hone : isMatchOne escape c = false) :
    (likeSeq escape false (c :: rest)).rest.length < (c :: rest).length := by
  by_cases hescape : escape = some c
  · cases rest with
    | nil =>
      unfold likeSeq
      rw [if_neg (by simp [hmany, hone]), if_pos ⟨rfl, hescape⟩]
      split_ifs <;> exact Nat.succ_pos _
    | cons d rest =>
      rw [(headCodes_escaped 0 d rest hescape).2]
      have hle := (likeSeq_reads 0 escape rest).rest
      simp only [length_cons]
      omega
  · rw [(headCodes_char 0 rest hescape hmany hone).2]
    have hle := (likeSeq_reads 0 escape rest).rest
    simp only [length_cons]
    omega

theorem later_seq {tar' : List Char} {k : Nat}
    (hmatch : matchCodes coll (headCodes behind escape expr) tar = some tar')
    (h : CodeAccepts coll behind escape expr (tar.drop (k + 1))) (htar : tar ≠ []) :
    tar' ≠ [] ∧
      CodeAccepts coll behind escape (likeSeq escape false expr).rest (tar'.drop (k + 1)) := by
  have hlength := matchCodes_length hmatch
  rcases (codeAccepts_seq expr _).mp h with ⟨tar'', hmatch', hrest⟩
  have hlength' := matchCodes_length hmatch'
  rw [length_drop] at hlength'
  have hpos := length_pos_iff.mpr htar
  constructor
  · rw [hlength.2, ← length_pos_iff, length_drop]
    omega
  · rw [hlength'.2, drop_drop] at hrest
    rwa [hlength.2, drop_drop, Nat.add_comm]

/--
Between two gaps the matcher decides on the rest of the pattern and the way back.  The way back
can only lead to a match of the rest at a later place of the target.
-/
theorem segment_decides {n : Nat} (hgaps : GapsDecided coll behind escape n)
    {back : Prop} {stack : List (List Char × List Char)}
    (hback : Decides coll behind escape (goBack stack).settle back) (expr tar : List Char)
    (hlength : expr.length <= n) (hdepth : stack.length + gaps escape expr <= stackSize)
    (hlater : back -> tar ≠ [] ∧ exists k, CodeAccepts coll behind escape expr (tar.drop (k + 1))) :
    Decides coll behind escape
      (.next { status := .inCheck, tar := tar, expr := expr, stack := stack })
      (MatcherAccepts coll behind escape expr tar ∨ back) := by
  induction hm : expr.length using Nat.strongRecOn generalizing expr tar with
  | _ m ih =>
    subst hm
    cases expr with
    | nil =>
      apply decides_next
      change Decides coll behind escape (checkStep coll behind escape tar stack []).settle _
      unfold checkStep
      have hspaces : tar.dropWhile (fun c => c == ' ') = [] <-> Spaces tar := by
        rw [dropWhile_eq_nil_iff]
        simp [Spaces]
      rw [matcherAccepts_nil, ← hspaces]
      split_ifs with htar
      · exact decides_true (.inl htar)
      · exact hback.congr (by simp [htar])
    | cons c rest =>
      cases hmany : isMatchMany escape c with
      | true =>
        refine (hgaps (c :: rest) hlength ⟨c, rest, rfl, hmany⟩ tar stack hdepth).congr ?_
        rw [matcherAccepts_many hmany]
        constructor
        · exact .inl
        intro h
        cases h with
        | inl h => exact h
        | inr h =>
          rcases (hlater h).2 with ⟨k, hk⟩
          unfold CodeAccepts at hk ⊢
          rw [likeTokens_many hmany] at hk ⊢
          exact hk.of_gap_drop
      | false =>
        apply decides_next
        change Decides coll behind escape
          (checkStep coll behind escape tar stack (c :: rest)).settle _
        cases tar with
        | nil =>
          have hcheck : checkStep coll behind escape [] stack (c :: rest) = goBack stack := by
            simp [checkStep, hmany]
          rw [hcheck]
          refine hback.congr ?_
          rw [or_iff_right]
          intro h
          cases h with
          | inl h => exact not_codeAccepts_nil coll behind hmany rest h
          | inr h => exact slipAccepts_tar_nil _ h
        | cons a tar =>
          cases hone : isMatchOne escape c with
          | true =>
            have hcheck : checkStep coll behind escape (a :: tar) stack (c :: rest) =
                .test { status := .inCheck, tar := tar, expr := rest, stack := stack } := by
              simp [checkStep, hmany, hone]
            rw [hcheck, matcherAccepts_one hone]
            rw [gaps_one hone] at hdepth
            have hlater' : back -> tar ≠ [] ∧
                exists k, CodeAccepts coll behind escape rest (tar.drop (k + 1)) := by
              intro h
              rcases (hlater h).2 with ⟨k, hk⟩
              unfold CodeAccepts at hk
              rw [likeTokens_one hone, drop_succ_cons] at hk
              cases hdrop : tar.drop k with
              | nil =>
                rw [hdrop] at hk
                exact absurd hk id
              | cons b tar' =>
                rw [hdrop] at hk
                constructor
                · rintro rfl
                  simp at hdrop
                · exists k
                  rw [← drop_drop, hdrop]
                  exact hk.2
            apply decides_settle
            · rintro rfl
              simp only [SettledAccepts, ne_eq, not_true_eq_false, true_and, false_and, or_false]
              rw [or_iff_left fun h => (hlater' h).1 rfl]
            · intro htar
              have hlt : rest.length < (c :: rest).length := Nat.lt_succ_self _
              refine (ih rest.length hlt rest tar (by omega) hdepth hlater' rfl).congr ?_
              simp [SettledAccepts, show tar ≠ [] from htar]
          | false =>
            have hlt := likeSeq_rest_lt rest hmany hone
            have hread := likeSeq_reads behind escape (c :: rest)
            rw [gaps_seq behind] at hdepth
            have hcheck : checkStep coll behind escape (a :: tar) stack (c :: rest) =
                (matchCodes coll (headCodes behind escape (c :: rest)) (a :: tar)).elim
                  (goBack stack) fun tar' =>
                    .test ⟨.inCheck, tar', (likeSeq escape false (c :: rest)).rest, stack⟩ := by
              rw [← strmatch_eq]
              simp [checkStep, hmany, hone]
              split
              · next tar' hfound => rw [hfound, Option.elim_some]
              · next hfound => rw [hfound, Option.elim_none]
            rw [hcheck, matcherAccepts_seq]
            cases hmatch : matchCodes coll (headCodes behind escape (c :: rest))
                (a :: tar) with
            | none => exact hback.congr (by simp)
            | some tar' =>
              rw [Option.elim_some]
              have hlater' : back -> tar' ≠ [] ∧ exists k, CodeAccepts coll behind escape
                  (likeSeq escape false (c :: rest)).rest (tar'.drop (k + 1)) := by
                intro h
                rcases (hlater h).2 with ⟨k, hk⟩
                have hseq := later_seq hmatch hk (cons_ne_nil _ _)
                exact ⟨hseq.1, k, hseq.2⟩
              apply decides_settle
              · intro htar
                subst htar
                rw [or_iff_left fun h => (hlater' h).1 rfl]
                simpa using onlyMany_iff_of_atWildcard hread.wildcard
              · intro htar
                refine (ih _ hlt _ tar' (by omega) hdepth hlater' rfl).congr ?_
                simp

/-!
## Gaps
-/

section

variable {c : Char} {rest : List Char}

theorem codeAccepts_many (hmany : isMatchMany escape c = true) (tar : List Char) :
    CodeAccepts coll behind escape (c :: rest) tar <->
      exists k, CodeAccepts coll behind escape rest (tar.drop k) := by
  unfold CodeAccepts
  rw [likeTokens_many hmany, Wildcard.accepts_gap]

theorem escape_ne_of_many (hmany : isMatchMany escape c = true) :
    escape ≠ some likeWildcardMatchMany := by
  rcases isMatchMany_iff.mp hmany with ⟨hescape, rfl⟩
  exact hescape

theorem matcherAccepts_iff (hescape : escape ≠ some likeWildcardMatchMany) (expr tar : List Char) :
    MatcherAccepts coll behind escape expr tar <-> CodeAccepts coll behind escape expr tar := by
  exact or_iff_left fun hslip => hescape hslip.escape_eq

theorem codeAccepts_dropWhile (hmany : isMatchMany escape c = true) (tar : List Char) :
    CodeAccepts coll behind escape
        (c :: rest.dropWhile fun d => d == likeWildcardMatchMany) tar <->
      CodeAccepts coll behind escape (c :: rest) tar := by
  induction rest with
  | nil => rfl
  | cons d rest ih =>
    by_cases hd : d = likeWildcardMatchMany
    · subst hd
      have hd : isMatchMany escape likeWildcardMatchMany = true :=
        isMatchMany_iff.mpr ⟨escape_ne_of_many hmany, rfl⟩
      rw [dropWhile_cons_of_pos (by simp), ih]
      unfold CodeAccepts
      rw [likeTokens_many hmany, likeTokens_many hmany, likeTokens_many hd,
        Wildcard.accepts_gap_gap]
    · rw [dropWhile_cons_of_neg (by simpa using hd)]

theorem gaps_dropWhile_le (hmany : isMatchMany escape c = true) (rest : List Char) :
    gaps escape (c :: rest.dropWhile fun d => d == likeWildcardMatchMany) <=
      gaps escape (c :: rest) := by
  induction rest with
  | nil => exact Nat.le_refl _
  | cons d rest ih =>
    by_cases hd : d = likeWildcardMatchMany
    · subst hd
      have hd : isMatchMany escape likeWildcardMatchMany = true :=
        isMatchMany_iff.mpr ⟨escape_ne_of_many hmany, rfl⟩
      rw [dropWhile_cons_of_pos (by simp)]
      rw [gaps_many hmany] at ih ⊢
      rw [gaps_many hmany] at ih ⊢
      rw [gaps_many hd]
      omega
    · rw [dropWhile_cons_of_neg (by simpa using hd)]

variable {tar : List Char} {expr : List Char} {stack : List (List Char × List Char)}

theorem exists_drop_iff (tar : List Char) :
    (exists k, CodeAccepts coll behind escape expr (tar.drop k)) <->
      CodeAccepts coll behind escape expr tar ∨
        exists k, CodeAccepts coll behind escape expr ((tar.drop 1).drop k) := by
  rw [← Nat.or_exists_add_one]
  simp only [drop_zero, drop_drop, Nat.add_comm 1]

theorem exists_drop_of_mismatch {a : Char}
    (hmatch : matchCodes coll (headCodes behind escape expr) (a :: tar) = none) :
    (exists k, CodeAccepts coll behind escape expr ((a :: tar).drop k)) <->
      exists k, CodeAccepts coll behind escape expr (tar.drop k) := by
  rw [exists_drop_iff, or_iff_right]
  · rfl
  intro h
  rcases (codeAccepts_seq expr _).mp h with ⟨tar', hmatch', _⟩
  rw [hmatch] at hmatch'
  cases hmatch'

theorem findSeq_some {place tar' : List Char}
    (h : findSeq coll behind escape (likeSeq escape false expr) tar = some (place, tar')) :
    place ≠ [] ∧ place.length <= tar.length ∧
      matchCodes coll (headCodes behind escape expr) place = some tar' ∧
        ((exists k, CodeAccepts coll behind escape expr (tar.drop k)) <->
          exists k, CodeAccepts coll behind escape expr (place.drop k)) := by
  induction tar with
  | nil => cases h
  | cons a tar ih =>
    unfold findSeq at h
    rw [strmatch_eq] at h
    cases hmatch : matchCodes coll (headCodes behind escape expr) (a :: tar) with
    | some tar'' =>
      rw [hmatch] at h
      cases h
      exact ⟨cons_ne_nil _ _, Nat.le_refl _, hmatch, Iff.rfl⟩
    | none =>
      rw [hmatch] at h
      rcases ih h with ⟨hne, hle, hplace, hiff⟩
      exact ⟨hne, Nat.le_succ_of_le hle, hplace, (exists_drop_of_mismatch hmatch).trans hiff⟩

theorem findSeq_none (hnil : ¬ CodeAccepts coll behind escape expr [])
    (h : findSeq coll behind escape (likeSeq escape false expr) tar = none) :
    ¬ exists k, CodeAccepts coll behind escape expr (tar.drop k) := by
  induction tar with
  | nil =>
    rintro ⟨k, hk⟩
    rw [drop_nil] at hk
    exact hnil hk
  | cons a tar ih =>
    unfold findSeq at h
    rw [strmatch_eq] at h
    cases hmatch : matchCodes coll (headCodes behind escape expr) (a :: tar) with
    | some tar'' =>
      rw [hmatch] at h
      cases h
    | none =>
      rw [hmatch] at h
      rw [exists_drop_of_mismatch hmatch]
      exact ih h

theorem goBack_decides (hmany : isMatchMany escape c = true) {place : List Char}
    (hlater : Decides coll behind escape (.next ⟨.inCheck, place.drop 1, c :: rest, stack⟩)
      (CodeAccepts coll behind escape (c :: rest) (place.drop 1))) :
    Decides coll behind escape (goBack ((place, c :: rest) :: stack)).settle
      (CodeAccepts coll behind escape (c :: rest) (place.drop 1)) := by
  apply decides_settle
  · intro hplace
    change place.drop 1 = [] at hplace
    rw [hplace]
    exact onlyMany_iff_codeAccepts coll behind (escape_ne_of_many hmany) _
  · intro _
    exact hlater

/-- The state at a `%` behind which the next character is not another `%`. -/
theorem percent_decides {n : Nat} (hgaps : GapsDecided coll behind escape n)
    (hmany : isMatchMany escape c = true) (hlength : rest.length <= n)
    (hrest : forall d tail, rest = d :: tail -> isMatchMany escape d = false) (htar : tar ≠ [])
    (hdepth : stack.length + gaps escape (c :: rest) <= stackSize)
    (hback : forall place, place.length < tar.length ->
      Decides coll behind escape (.next ⟨.inCheck, place, c :: rest, stack⟩)
        (CodeAccepts coll behind escape (c :: rest) place)) :
    Decides coll behind escape (percentStep coll behind escape tar stack (c :: rest)).settle
      (CodeAccepts coll behind escape (c :: rest) tar) := by
  rw [gaps_many hmany] at hdepth
  have hescape := escape_ne_of_many hmany
  have hfull : ¬ stackSize - 1 < stack.length := by
    omega
  have hplaces : forall place, place ≠ [] -> place.length <= tar.length ->
      Decides coll behind escape (goBack ((place, c :: rest) :: stack)).settle
        (CodeAccepts coll behind escape (c :: rest) (place.drop 1)) := by
    intro place hne hle
    apply goBack_decides hmany
    apply hback
    have hpos := length_pos_iff.mpr hne
    rw [length_drop]
    omega
  rw [codeAccepts_many hmany]
  cases rest with
  | nil =>
    apply decides_true
    exists tar.length
    rw [drop_length]
    exact (onlyMany_iff_codeAccepts coll behind hescape []).mp nofun
  | cons d tail =>
    have hd := hrest d tail rfl
    cases hone : isMatchOne escape d with
    | true =>
      have hstep : percentStep coll behind escape tar stack (c :: d :: tail) =
          .next ⟨.inCheck, tar, d :: tail, (tar, c :: d :: tail) :: stack⟩ := by
        simp [percentStep, hone, pushPlace, hfull]
      rw [hstep]
      refine (segment_decides hgaps (hplaces tar htar (Nat.le_refl _)) (d :: tail) tar hlength
        (by simp only [length_cons]; omega) ?_).congr ?_
      · intro h
        rcases (codeAccepts_many hmany _).mp h with ⟨k, hk⟩
        rw [drop_drop, Nat.add_comm] at hk
        exact ⟨htar, k, hk⟩
      · rw [matcherAccepts_iff hescape, codeAccepts_many hmany, exists_drop_iff tar]
    | false =>
      have hnil := not_codeAccepts_nil coll behind hd tail
      cases hfind : findSeq coll behind escape (likeSeq escape false (d :: tail)) tar with
      | none =>
        have hstep : percentStep coll behind escape tar stack (c :: d :: tail) =
            .test ⟨.inPercent, [], c :: d :: tail, stack⟩ := by
          cases tar with
          | nil => exact absurd rfl htar
          | cons a tar => simp [percentStep, hone, hfind]
        rw [hstep]
        have hnone := findSeq_none hnil hfind
        apply decides_settle
        · intro _
          rw [iff_false_right hnone]
          intro honly
          have honly' : d = likeWildcardMatchMany := honly d (by simp)
          rw [isMatchMany_iff.mpr ⟨honly' ▸ hescape, honly'⟩] at hd
          cases hd
        · intro hne
          exact absurd rfl hne
      | some found =>
        rcases found with ⟨place, tar'⟩
        have hstep : percentStep coll behind escape tar stack (c :: d :: tail) =
            .test ⟨.inCheck, tar', (likeSeq escape false (d :: tail)).rest,
              (place, c :: d :: tail) :: stack⟩ := by
          cases tar with
          | nil => exact absurd rfl htar
          | cons a tar => simp [percentStep, hone, hfind, pushPlace, hfull]
        rw [hstep]
        rcases findSeq_some hfind with ⟨hne, hle, hmatch, hiff⟩
        have hread := likeSeq_reads behind escape (d :: tail)
        have hlater : CodeAccepts coll behind escape (c :: d :: tail) (place.drop 1) ->
            tar' ≠ [] ∧ exists k, CodeAccepts coll behind escape
              (likeSeq escape false (d :: tail)).rest (tar'.drop (k + 1)) := by
          intro h
          rcases (codeAccepts_many hmany _).mp h with ⟨k, hk⟩
          rw [drop_drop, Nat.add_comm] at hk
          have hseq := later_seq hmatch hk hne
          exact ⟨hseq.1, k, hseq.2⟩
        have haccepts : (exists k, CodeAccepts coll behind escape (d :: tail) (tar.drop k)) <->
            CodeAccepts coll behind escape (likeSeq escape false (d :: tail)).rest tar' ∨
              CodeAccepts coll behind escape (c :: d :: tail) (place.drop 1) := by
          rw [hiff, exists_drop_iff place, ← codeAccepts_many hmany, codeAccepts_seq (d :: tail)]
          simp [hmatch]
        rw [haccepts]
        apply decides_settle
        · intro hnil'
          subst hnil'
          rw [or_iff_left fun h => (hlater h).1 rfl]
          exact onlyMany_iff_codeAccepts coll behind hescape _
        · intro _
          refine (segment_decides hgaps (hplaces place hne hle) _ tar' ?_ ?_ hlater).congr ?_
          · exact Nat.le_trans hread.rest hlength
          · rw [← gaps_seq behind]
            simp only [length_cons]
            omega
          · rw [matcherAccepts_iff hescape]

theorem dropWhile_head (rest : List Char) :
    forall d tail, rest.dropWhile (fun d => d == likeWildcardMatchMany) = d :: tail ->
      isMatchMany escape d = false := by
  intro d tail hsplit
  have hne : rest.dropWhile (fun d => d == likeWildcardMatchMany) ≠ [] := by
    rw [hsplit]
    exact cons_ne_nil _ _
  have hhead := head_dropWhile_not (fun d => d == likeWildcardMatchMany) hne
  simp only [hsplit, head_cons] at hhead
  simp [isMatchMany, hhead]

theorem many_decides {n : Nat} (hgaps : GapsDecided coll behind escape n)
    (hmany : isMatchMany escape c = true) (hlength : rest.length <= n) (tar : List Char)
    (hdepth : stack.length + gaps escape (c :: rest) <= stackSize) :
    Decides coll behind escape (.next ⟨.inCheck, tar, c :: rest, stack⟩)
      (CodeAccepts coll behind escape (c :: rest) tar) := by
  induction hm : tar.length using Nat.strongRecOn generalizing tar rest with
  | _ m ih =>
    subst hm
    have hescape := escape_ne_of_many hmany
    have hle := length_dropWhile_le (fun d => d == likeWildcardMatchMany) rest
    have hdepth' := gaps_dropWhile_le hmany rest
    apply decides_next
    have hcheck : checkStep coll behind escape tar stack (c :: rest) =
        .test ⟨.inPercent, tar, c :: rest.dropWhile fun d => d == likeWildcardMatchMany, stack⟩ := by
      simp [checkStep, hmany]
    change Decides coll behind escape (checkStep coll behind escape tar stack (c :: rest)).settle _
    rw [hcheck]
    rw [← codeAccepts_dropWhile hmany]
    apply decides_settle
    · intro htar
      change tar = [] at htar
      rw [htar]
      exact onlyMany_iff_codeAccepts coll behind hescape _
    · intro htar
      apply decides_next
      apply percent_decides hgaps hmany (Nat.le_trans hle hlength) (dropWhile_head rest) htar
      · change stack.length + _ <= stackSize
        omega
      · intro place hplace
        exact ih place.length hplace (Nat.le_trans hle hlength) place (by omega) rfl

end

theorem gapsDecided (coll : LangColl) (behind : UInt8) (escape : Option Char) (n : Nat) :
    GapsDecided coll behind escape n := by
  induction n with
  | zero =>
    rintro expr hlength ⟨c, rest, rfl, _⟩
    exact absurd hlength (Nat.not_succ_le_zero _)
  | succ n ih =>
    rintro expr hlength ⟨c, rest, rfl, hmany⟩ tar stack hdepth
    exact many_decides ih hmany (Nat.le_of_succ_le_succ hlength) tar hdepth

/-- The matcher decides whether the tokens it reads accept the target, up to the slip. -/
theorem qstrEvalLike_decides (coll : LangColl) (behind : UInt8) {escape : Option Char}
    (hgaps : gaps escape expr <= stackSize) (tar : List Char) :
    Decides coll behind escape (.next ⟨.inCheck, tar, expr, []⟩)
      (MatcherAccepts coll behind escape expr tar) := by
  have hback : Decides coll behind escape (goBack []).settle False :=
    decides_false id
  refine (segment_decides (gapsDecided coll behind escape expr.length) hback expr tar
    (Nat.le_refl _) ?_ nofun).congr ?_
  · rw [length_nil, Nat.zero_add]
    exact hgaps
  · rw [or_false]

end Rye.Query
