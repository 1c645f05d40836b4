import Mathlib.Algebra.Order.Group.Nat

/-!
# Leading bits of a word

Words of a fixed width are grouped by their leading bits: two words agree in `d`
bits if they have the same first `d` bits.  Agreement in fewer bits is coarser, and
each class splits into two halves at the next bit.
-/

namespace Rye.Foundation.LeadingBits

variable {w d e x y z : Nat}

/-- The two words have the same first `d` of `w` bits. -/
def Agree (w d x y : Nat) : Prop :=
  x / 2 ^ (w - d) = y / 2 ^ (w - d)

instance (w d x y : Nat) : Decidable (Agree w d x y) :=
  inferInstanceAs (Decidable (_ = _))

/-- The bit at a position; positions are counted from one, from the left. -/
def bit (w pos x : Nat) : Nat :=
  x / 2 ^ (w - pos) % 2

theorem Agree.refl (w d x : Nat) : Agree w d x x :=
  Eq.refl _

theorem Agree.symm (h : Agree w d x y) : Agree w d y x :=
  Eq.symm h

theorem Agree.trans (h : Agree w d x y) (h' : Agree w d y z) : Agree w d x z :=
  Eq.trans h h'

theorem agree_zero (hx : x < 2 ^ w) (hy : y < 2 ^ w) : Agree w 0 x y := by
  unfold Agree
  rw [Nat.sub_zero, Nat.div_eq_of_lt hx, Nat.div_eq_of_lt hy]

theorem leading_of_le (hde : d <= e) (he : e <= w) (x : Nat) :
    x / 2 ^ (w - d) = x / 2 ^ (w - e) / 2 ^ (e - d) := by
  rw [Nat.div_div_eq_div_mul, ← Nat.pow_add]
  have hsum : w - e + (e - d) = w - d := by omega
  rw [hsum]

theorem Agree.mono (h : Agree w e x y) (hde : d <= e) (he : e <= w) : Agree w d x y := by
  unfold Agree at h ⊢
  rw [leading_of_le hde he, leading_of_le hde he, h]

theorem leading_succ (hd : d < w) (x : Nat) : x / 2 ^ (w - d) = x / 2 ^ (w - (d + 1)) / 2 := by
  have hstep := leading_of_le (Nat.le_succ d) hd x
  rwa [Nat.succ_sub (Nat.le_refl d), Nat.sub_self, Nat.pow_one] at hstep

theorem agree_succ_iff (hd : d < w) :
    Agree w (d + 1) x y <-> Agree w d x y ∧ bit w (d + 1) x = bit w (d + 1) y := by
  unfold Agree bit
  rw [leading_succ hd, leading_succ hd]
  omega

theorem Agree.of_bits (h : Agree w d x y) (hde : d <= e) (he : e <= w)
    (hbits : forall pos, d < pos -> pos <= e -> bit w pos x = bit w pos y) : Agree w e x y := by
  induction e with
  | zero =>
    have hzero : d = 0 := Nat.le_zero.mp hde
    rwa [hzero] at h
  | succ e ih =>
    cases Nat.eq_or_lt_of_le hde with
    | inl heq => rwa [heq] at h
    | inr hlt =>
      have hprevious := ih (Nat.le_of_lt_succ hlt) (Nat.le_of_succ_le he)
        (fun pos hpos hle => hbits pos hpos (Nat.le_succ_of_le hle))
      exact (agree_succ_iff he).mpr ⟨hprevious, hbits (e + 1) hlt (Nat.le_refl _)⟩

theorem Agree.other_half (hd : d < w) (hy : Agree w d x y) (hz : Agree w d x z)
    (hy' : ¬ Agree w (d + 1) x y) (hz' : ¬ Agree w (d + 1) x z) : Agree w (d + 1) y z := by
  unfold Agree at *
  rw [leading_succ hd, leading_succ hd] at hy hz
  omega

theorem Agree.exists_parting (h : Agree w d x y) (hde : d <= e) (hne : ¬ Agree w e x y) :
    exists n, d <= n ∧ n < e ∧ Agree w n x y ∧ ¬ Agree w (n + 1) x y := by
  induction e with
  | zero =>
    have hzero : d = 0 := Nat.le_zero.mp hde
    rw [hzero] at h
    exact absurd h hne
  | succ e ih =>
    cases Nat.lt_or_ge e d with
    | inl hlt =>
      have heq : d = e + 1 := by omega
      rw [heq] at h
      exact absurd h hne
    | inr hge =>
      by_cases hagree : Agree w e x y
      · exact ⟨e, hge, Nat.lt_succ_self e, hagree, hne⟩
      · obtain ⟨n, hdn, hne', hn⟩ := ih hge hagree
        exact ⟨n, hdn, Nat.lt_succ_of_lt hne', hn⟩

def setBit (w pos x : Nat) : Nat :=
  if bit w pos x = 1 then x else x + 2 ^ (w - pos)

def clearBit (w pos x : Nat) : Nat :=
  if bit w pos x = 1 then x - 2 ^ (w - pos) else x

theorem leading_add (x d : Nat) : (x + 2 ^ (w - d)) / 2 ^ (w - d) = x / 2 ^ (w - d) + 1 :=
  Nat.add_div_right x (Nat.two_pow_pos _)

theorem leading_sub (x d : Nat) : (x - 2 ^ (w - d)) / 2 ^ (w - d) = x / 2 ^ (w - d) - 1 := by
  have h := Nat.sub_mul_div x (2 ^ (w - d)) 1
  rwa [Nat.mul_one] at h

theorem setBit_spec (hd : d < w) (hx : x < 2 ^ w) :
    setBit w (d + 1) x < 2 ^ w ∧ Agree w d (setBit w (d + 1) x) x ∧
      bit w (d + 1) (setBit w (d + 1) x) = 1 := by
  unfold setBit
  split_ifs with hbit
  · exact ⟨hx, Agree.refl w d x, hbit⟩
  have hlead := leading_add (w := w) x (d + 1)
  have hagree : Agree w d (x + 2 ^ (w - (d + 1))) x := by
    unfold Agree
    rw [leading_succ hd, leading_succ hd, hlead]
    unfold bit at hbit
    omega
  refine ⟨?_, hagree, ?_⟩
  · have hzero : (x + 2 ^ (w - (d + 1))) / 2 ^ (w - 0) = 0 := by
      have hmono := hagree.mono (Nat.zero_le d) (Nat.le_of_lt hd)
      rw [hmono, Nat.sub_zero, Nat.div_eq_of_lt hx]
    rw [Nat.sub_zero] at hzero
    exact (Nat.div_eq_zero_iff.mp hzero).resolve_left (Nat.two_pow_pos w).ne'
  · unfold bit at hbit ⊢
    rw [hlead]
    omega

theorem clearBit_spec (hd : d < w) (hx : x < 2 ^ w) :
    clearBit w (d + 1) x < 2 ^ w ∧ Agree w d (clearBit w (d + 1) x) x ∧
      bit w (d + 1) (clearBit w (d + 1) x) = 0 := by
  unfold clearBit
  split_ifs with hbit
  · have hlead := leading_sub (w := w) x (d + 1)
    unfold bit at hbit
    refine ⟨Nat.lt_of_le_of_lt (Nat.sub_le _ _) hx, ?_, ?_⟩
    · unfold Agree
      rw [leading_succ hd, leading_succ hd, hlead]
      generalize x / 2 ^ (w - (d + 1)) = lead at hbit ⊢
      omega
    · unfold bit
      rw [hlead]
      omega
  · refine ⟨hx, Agree.refl w d x, ?_⟩
    unfold bit at hbit ⊢
    omega

theorem exists_agree_bit {v : Nat} (hx : x < 2 ^ w) (hd : d < w) (hv : v = 0 ∨ v = 1) :
    exists y, y < 2 ^ w ∧ Agree w d y x ∧ bit w (d + 1) y = v := by
  cases hv with
  | inl hzero =>
    rw [hzero]
    exact ⟨_, clearBit_spec hd hx⟩
  | inr hone =>
    rw [hone]
    exact ⟨_, setBit_spec hd hx⟩

end Rye.Foundation.LeadingBits
