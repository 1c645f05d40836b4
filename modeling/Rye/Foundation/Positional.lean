import Mathlib.Data.Nat.Digits.Lemmas

/-!
# Positional notation

Numbers are stored most significant digit first, and the loops over them run
from the last digit to the first.  The value of a digit list is therefore read
from its head: the head counts the base to the length of the tail.
-/

namespace Rye.Foundation

open List

/-- The value of a digit list, most significant digit first. -/
def posVal (b : Nat) (ds : List Nat) : Nat :=
  Nat.ofDigits b ds.reverse

@[simp] theorem posVal_nil (b : Nat) : posVal b [] = 0 :=
  rfl

theorem posVal_cons (b d : Nat) (ds : List Nat) :
    posVal b (d :: ds) = d * b ^ ds.length + posVal b ds := by
  rw [posVal, reverse_cons, Nat.ofDigits_append, Nat.ofDigits_singleton,
    length_reverse, Nat.add_comm, Nat.mul_comm]
  rfl

theorem posVal_append (b : Nat) (xs ys : List Nat) :
    posVal b (xs ++ ys) = posVal b xs * b ^ ys.length + posVal b ys := by
  rw [posVal, reverse_append, Nat.ofDigits_append, length_reverse, Nat.add_comm, Nat.mul_comm]
  rfl

theorem posVal_singleton (b d : Nat) : posVal b [d] = d := by
  simp [posVal_cons]

@[simp] theorem posVal_replicate_zero (b n : Nat) : posVal b (List.replicate n 0) = 0 := by
  induction n with
  | zero => rfl
  | succ n ih => simp [replicate_succ, posVal_cons, ih]

theorem posVal_lt {b : Nat} (hb : 1 < b) {ds : List Nat}
    (h : forall d, d ∈ ds -> d < b) : posVal b ds < b ^ ds.length := by
  have hlt := Nat.ofDigits_lt_base_pow_length hb (l := ds.reverse) (by simpa using h)
  simpa [posVal] using hlt

theorem posVal_map_mul (b c : Nat) (ds : List Nat) :
    posVal b (ds.map (fun d => c * d)) = c * posVal b ds := by
  induction ds with
  | nil => simp
  | cons d ds ih =>
    simp only [map_cons, posVal_cons, length_map, ih]
    ring

theorem posVal_zipWith_add {b : Nat} {xs ys : List Nat} (h : xs.length = ys.length) :
    posVal b (List.zipWith (fun x y => x + y) xs ys) = posVal b xs + posVal b ys := by
  induction xs generalizing ys with
  | nil =>
    cases ys with
    | nil => rfl
    | cons y ys => cases h
  | cons x xs ih =>
    cases ys with
    | nil => cases h
    | cons y ys =>
      have hlen : xs.length = ys.length := by simpa using h
      simp only [zipWith_cons_cons, posVal_cons, length_zipWith, ih hlen, hlen, Nat.min_self]
      ring

/-!
## Digit strings
-/

def digitVal (c : Char) : Nat :=
  c.toNat - '0'.toNat

def AllDigits (s : List Char) : Prop :=
  forall c, c ∈ s -> c.isDigit = true

def strVal (s : List Char) : Nat :=
  posVal 10 (s.map digitVal)

@[simp] theorem strVal_nil : strVal [] = 0 :=
  rfl

variable {c : Char}

theorem digit_bounds (h : c.isDigit = true) : 48 <= c.toNat ∧ c.toNat <= 57 := by
  simp [Char.isDigit] at h
  exact h

theorem digitVal_lt (h : c.isDigit = true) : digitVal c < 10 := by
  have hbounds := digit_bounds h
  have hzero : '0'.toNat = 48 := rfl
  unfold digitVal
  omega

theorem strVal_cons (c : Char) (s : List Char) :
    strVal (c :: s) = digitVal c * 10 ^ s.length + strVal s := by
  simp [strVal, posVal_cons]

theorem strVal_append (s t : List Char) :
    strVal (s ++ t) = strVal s * 10 ^ t.length + strVal t := by
  simp [strVal, posVal_append]

variable {s t : List Char}

theorem AllDigits.lt (h : AllDigits s) : strVal s < 10 ^ s.length := by
  have hlt := posVal_lt (b := 10) (by decide)
    (show forall d, d ∈ s.map digitVal -> d < 10 from fun d hd => by
      rcases mem_map.mp hd with ⟨c, hc, rfl⟩
      exact digitVal_lt (h c hc))
  simpa [strVal] using hlt

theorem AllDigits.of_subset (h : AllDigits s) (hsub : t ⊆ s) : AllDigits t :=
  fun c hc => h c (hsub hc)

theorem allDigits_append : AllDigits (s ++ t) <-> AllDigits s ∧ AllDigits t := by
  simp only [AllDigits, mem_append]
  constructor
  · intro h
    exact ⟨fun c hc => h c (.inl hc), fun c hc => h c (.inr hc)⟩
  · rintro ⟨hs, ht⟩ c (hc | hc)
    · exact hs c hc
    · exact ht c hc

theorem strVal_append_div (s : List Char) (h : AllDigits t) :
    strVal (s ++ t) / 10 ^ t.length = strVal s := by
  rw [strVal_append, Nat.mul_comm, Nat.mul_add_div (by positivity), Nat.div_eq_of_lt h.lt,
    Nat.add_zero]

theorem strVal_append_mod (s : List Char) (h : AllDigits t) :
    strVal (s ++ t) % 10 ^ t.length = strVal t := by
  rw [strVal_append, Nat.mul_comm, Nat.mul_add_mod, Nat.mod_eq_of_lt h.lt]

theorem digitVal_eq_zero_iff (h : c.isDigit = true) : digitVal c = 0 <-> c = '0' := by
  have hbounds := digit_bounds h
  have hzero : '0'.toNat = 48 := rfl
  constructor
  · intro hc
    unfold digitVal at hc
    apply Char.toNat_inj.mp
    omega
  · rintro rfl
    rfl

theorem AllDigits.strVal_eq_zero_iff (h : AllDigits s) :
    strVal s = 0 <-> forall c, c ∈ s -> c = '0' := by
  induction s with
  | nil => simp
  | cons c s ih =>
    have hc := digitVal_eq_zero_iff (h c mem_cons_self)
    have hs := ih (h.of_subset (subset_cons_self c s))
    rw [strVal_cons, Nat.add_eq_zero_iff, Nat.mul_eq_zero, hs, hc]
    simp

theorem allDigits_replicate_zero (n : Nat) : AllDigits (List.replicate n '0') := by
  intro c hc
  rw [eq_of_mem_replicate hc]
  rfl

@[simp] theorem strVal_replicate_zero (n : Nat) : strVal (List.replicate n '0') = 0 := by
  rw [(allDigits_replicate_zero n).strVal_eq_zero_iff]
  exact fun c hc => eq_of_mem_replicate hc

end Rye.Foundation
