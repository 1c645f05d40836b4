import Mathlib.Data.List.Basic

/-!
# Patterns with a wildcard for any sequence

A pattern is a list of tokens, each of which consumes one letter, and of gaps,
written `none`, which consume any number of letters.  What is left behind the
pattern has to satisfy a condition of its own.

The search for a match may fix the place of the tokens between two gaps as early
as possible: a later place leaves the next gap with less to choose from.
-/

namespace Rye.Foundation.Wildcard

open List

variable {token letter : Type}

/-- The word matches the pattern up to a rest that satisfies `tail`. -/
def Accepts (fits : token -> letter -> Prop) (tail : List letter -> Prop) :
    List (Option token) -> List letter -> Prop
  | [], s => tail s
  | none :: p, s => exists n, Accepts fits tail p (s.drop n)
  | some _ :: _, [] => False
  | some t :: p, c :: s => fits t c ∧ Accepts fits tail p s

/-- The word begins with the tokens before the first gap. -/
def Begins (fits : token -> letter -> Prop) : List (Option token) -> List letter -> Prop
  | [], _ => True
  | none :: _, _ => True
  | some _ :: _, [] => False
  | some t :: p, c :: s => fits t c ∧ Begins fits p s

section

variable {fits : token -> letter -> Prop} {tail : List letter -> Prop} {s : List letter}
    {p : List (Option token)}

theorem accepts_nil : Accepts fits tail [] s <-> tail s :=
  Iff.rfl

theorem accepts_gap :
    Accepts fits tail (none :: p) s <-> exists n, Accepts fits tail p (s.drop n) :=
  Iff.rfl

variable {t : token}

theorem accepts_token_nil : Accepts fits tail (some t :: p) [] <-> False :=
  Iff.rfl

theorem accepts_token_cons {c : letter} :
    Accepts fits tail (some t :: p) (c :: s) <-> fits t c ∧ Accepts fits tail p s :=
  Iff.rfl

theorem accepts_gap_nil : Accepts fits tail (none :: p) [] <-> Accepts fits tail p [] := by
  constructor
  · rintro ⟨n, hn⟩
    rwa [drop_nil] at hn
  · intro h
    exact ⟨0, h⟩

theorem Accepts.of_gap_drop {n : Nat} (h : Accepts fits tail (none :: p) (s.drop n)) :
    Accepts fits tail (none :: p) s := by
  cases h with
  | intro m hm =>
    rw [drop_drop] at hm
    exact ⟨n + m, hm⟩

theorem Accepts.drop_tokens {seg : List token} (h : Accepts fits tail (seg.map some ++ p) s) :
    seg.length <= s.length ∧ Accepts fits tail p (s.drop seg.length) := by
  induction seg generalizing s with
  | nil => exact ⟨Nat.zero_le _, h⟩
  | cons t seg ih =>
    cases s with
    | nil => exact absurd h id
    | cons c s =>
      have hrest := ih h.2
      exact ⟨Nat.succ_le_succ hrest.1, hrest.2⟩

theorem accepts_gap_gap :
    Accepts fits tail (none :: none :: p) s <-> Accepts fits tail (none :: p) s := by
  constructor
  · intro h
    cases h with
    | intro n hn => exact hn.of_gap_drop
  · intro h
    exact ⟨0, h⟩

theorem accepts_iff_exists_append :
    Accepts fits tail p s <->
      exists w rest, s = w ++ rest ∧ tail rest ∧ Accepts fits (fun r => r = []) p w := by
  induction p generalizing s with
  | nil =>
    constructor
    · intro h
      exact ⟨[], s, rfl, h, rfl⟩
    · rintro ⟨w, rest, rfl, htail, rfl⟩
      exact htail
  | cons t p ih =>
    cases t with
    | none =>
      constructor
      · rintro ⟨n, hn⟩
        rcases ih.mp hn with ⟨w, rest, hdrop, htail, hw⟩
        refine ⟨s.take n ++ w, rest, ?_, htail, (s.take n).length, ?_⟩
        · rw [append_assoc, ← hdrop, take_append_drop]
        · rwa [drop_left]
      · rintro ⟨w, rest, rfl, htail, n, hn⟩
        refine ⟨min n w.length, ih.mpr ⟨w.drop n, rest, ?_, htail, hn⟩⟩
        rw [drop_append_of_le_length (Nat.min_le_right _ _)]
        cases Nat.le_total n w.length with
        | inl hle => rw [Nat.min_eq_left hle]
        | inr hle => rw [Nat.min_eq_right hle, drop_length, drop_eq_nil_of_le hle]
    | some t =>
      cases s with
      | nil =>
        constructor
        · intro h
          exact absurd h id
        rintro ⟨w, rest, happend, _, hw⟩
        cases w with
        | nil => exact hw
        | cons c w => cases happend
      | cons c s =>
        constructor
        · intro h
          rcases ih.mp h.2 with ⟨w, rest, hs, htail, hw⟩
          refine ⟨c :: w, rest, ?_, htail, h.1, hw⟩
          rw [hs]
          rfl
        · rintro ⟨w, rest, happend, htail, hw⟩
          cases w with
          | nil => exact absurd hw id
          | cons c' w =>
            cases happend
            exact ⟨hw.1, ih.mpr ⟨w, rest, rfl, htail, hw.2⟩⟩

theorem exists_accepts (hnil : tail []) (h : forall t, some t ∈ p -> exists c, fits t c) :
    exists s, Accepts fits tail p s := by
  induction p with
  | nil => exact ⟨[], hnil⟩
  | cons t p ih =>
    rcases ih fun t ht => h t (mem_cons_of_mem _ ht) with ⟨s, hs⟩
    cases t with
    | none => exact ⟨s, 0, hs⟩
    | some t =>
      rcases h t mem_cons_self with ⟨c, hc⟩
      exact ⟨c :: s, hc, hs⟩

theorem Accepts.exists_fits (h : Accepts fits tail p s) (ht : some t ∈ p) : exists c, fits t c := by
  induction p generalizing s with
  | nil => cases ht
  | cons t' p ih =>
    cases t' with
    | none =>
      rcases h with ⟨n, hn⟩
      cases ht with
      | tail _ ht => exact ih hn ht
    | some t' =>
      cases s with
      | nil => exact absurd h id
      | cons c s =>
        cases ht with
        | head => exact ⟨c, h.1⟩
        | tail _ ht => exact ih h.2 ht

end

end Rye.Foundation.Wildcard
