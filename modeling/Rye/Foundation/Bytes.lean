import Rye.Foundation.Positional

/-!
# Big-endian byte strings

A byte string of length `n` is read as a natural number below `256 ^ n` and as
the two's complement integer with the same bytes.  The loops that compute with
byte strings carry from the last byte to the first; each is described by one
equation between natural numbers, with the carry as the leading digit.
-/

namespace Rye.Foundation

open List

/-!
## Values of byte strings
-/

/-- The number with the given bytes, most significant byte first. -/
def beNat (bs : List UInt8) : Nat :=
  posVal 256 (bs.map UInt8.toNat)

@[simp] theorem beNat_nil : beNat [] = 0 :=
  rfl

theorem beNat_cons (b : UInt8) (bs : List UInt8) :
    beNat (b :: bs) = b.toNat * 256 ^ bs.length + beNat bs := by
  simp [beNat, posVal_cons]

theorem beNat_append (xs ys : List UInt8) :
    beNat (xs ++ ys) = beNat xs * 256 ^ ys.length + beNat ys := by
  simp [beNat, posVal_append]

variable (bs : List UInt8)

theorem beNat_lt : beNat bs < 256 ^ bs.length := by
  have h := posVal_lt (b := 256) (by decide)
    (show forall d, d ∈ bs.map UInt8.toNat -> d < 256 from fun d hd => by
      rcases mem_map.mp hd with ⟨b, _, rfl⟩
      exact b.toNat_lt)
  simpa [beNat] using h

@[simp] theorem beNat_replicate_zero (n : Nat) : beNat (List.replicate n 0) = 0 := by
  simp [beNat]

def beInt (bs : List UInt8) : Int :=
  Int.bmod (beNat bs) (256 ^ bs.length)

theorem beInt_eq_of_emod {bs : List UInt8} {n : Nat} {x : Int} (hlen : bs.length = n)
    (hmod : (beNat bs : Int) % (256 ^ n : Nat) = x % (256 ^ n : Nat))
    (hlow : -((256 ^ n : Nat) : Int) <= x * 2) (hhigh : x * 2 < (256 ^ n : Nat)) :
    beInt bs = x := by
  rw [beInt, hlen, ← Int.emod_bmod, hmod, Int.emod_bmod, Int.bmod_eq_of_le_mul_two hlow hhigh]

theorem beInt_cases :
    (2 * beNat bs < 256 ^ bs.length ∧ beInt bs = beNat bs) ∨
      (256 ^ bs.length <= 2 * beNat bs ∧
        beInt bs = (beNat bs : Int) - (256 ^ bs.length : Nat)) := by
  have hlt := beNat_lt bs
  have hmod : (beNat bs : Int) % (256 ^ bs.length : Nat) = beNat bs :=
    Int.emod_eq_of_lt (by omega) (by exact_mod_cast hlt)
  have hpar : bs.length = 0 ∨ exists k, 256 ^ bs.length = 2 * k := by
    cases bs with
    | nil => exact .inl rfl
    | cons b bs =>
      refine .inr ⟨128 * 256 ^ bs.length, ?_⟩
      rw [length_cons, Nat.pow_succ]
      omega
  rw [beInt, Int.bmod_def, hmod]
  rcases hpar with hnil | ⟨k, hk⟩
  · rw [hnil] at hlt ⊢
    left
    have hzero : beNat bs = 0 := by omega
    simp [hzero]
  rw [hk] at hlt ⊢
  by_cases hlow : beNat bs < k
  · left
    constructor
    · omega
    · rw [if_pos (by omega)]
  · right
    constructor
    · omega
    · rw [if_neg (by omega)]

theorem beInt_of_small {bs : List UInt8} (h : 2 * beNat bs < 256 ^ bs.length) :
    beInt bs = beNat bs := by
  rcases beInt_cases bs with ⟨_, heq⟩ | ⟨hge, _⟩
  · exact heq
  · omega

theorem beInt_neg_iff : beInt bs < 0 <-> 256 ^ bs.length <= 2 * beNat bs := by
  have hlt := beNat_lt bs
  rcases beInt_cases bs with ⟨hlow, heq⟩ | ⟨hge, heq⟩
  · rw [heq]
    omega
  · rw [heq]
    omega

theorem sign_byte_iff (b : UInt8) (bs : List UInt8) :
    256 ^ (b :: bs).length <= 2 * beNat (b :: bs) <-> 128 <= b.toNat := by
  have hlt := beNat_lt bs
  rw [beNat_cons, length_cons, Nat.pow_succ]
  constructor
  · intro h
    by_contra hb
    have hle : b.toNat * 256 ^ bs.length <= 127 * 256 ^ bs.length :=
      Nat.mul_le_mul_right _ (by omega)
    omega
  · intro h
    have hle : 128 * 256 ^ bs.length <= b.toNat * 256 ^ bs.length :=
      Nat.mul_le_mul_right _ h
    omega

/-!
## Carry chains

A carry chain turns a list of column sums into bytes.  Every column adds the
carry of the columns behind it, keeps its low byte and passes on the rest.
-/

section

variable {α : Type}

/-- The bytes of the columns `g x`, with the carry out of the first column. -/
def carryChain (g : α -> Nat) : List α -> Nat × List UInt8
  | [] => (0, [])
  | x :: xs =>
    let t := g x + (carryChain g xs).1
    (t / 256, UInt8.ofNat (t % 256) :: (carryChain g xs).2)

variable (g : α -> Nat) (xs : List α)

@[simp] theorem length_carryChain : (carryChain g xs).2.length = xs.length := by
  induction xs with
  | nil => rfl
  | cons x xs ih => simp [carryChain, ih]

theorem toNat_ofNat_mod (t : Nat) : (UInt8.ofNat (t % 256)).toNat = t % 256 := by
  simp [UInt8.toNat_ofNat']

theorem carryChain_value :
    (carryChain g xs).1 * 256 ^ xs.length + beNat (carryChain g xs).2 = posVal 256 (xs.map g) := by
  induction xs with
  | nil => simp [carryChain]
  | cons x xs ih =>
    simp only [carryChain, beNat_cons, toNat_ofNat_mod, length_carryChain, map_cons,
      posVal_cons, length_cons, length_map]
    rw [← ih]
    generalize (carryChain g xs).1 = c
    generalize beNat (carryChain g xs).2 = v
    have hdiv := Nat.div_add_mod (g x + c) 256
    calc
      (g x + c) / 256 * 256 ^ (xs.length + 1) + ((g x + c) % 256 * 256 ^ xs.length + v)
          = (256 * ((g x + c) / 256) + (g x + c) % 256) * 256 ^ xs.length + v := by ring
      _ = g x * 256 ^ xs.length + (c * 256 ^ xs.length + v) := by
          rw [hdiv]
          ring

theorem carryChain_mod : beNat (carryChain g xs).2 = posVal 256 (xs.map g) % 256 ^ xs.length := by
  have hlt := beNat_lt (carryChain g xs).2
  rw [length_carryChain] at hlt
  rw [← carryChain_value g xs, Nat.mul_comm, Nat.mul_add_mod, Nat.mod_eq_of_lt hlt]

end

/-!
## Increment, decrement and complement
-/

/-- Add one to the last byte and carry on while bytes wrap to zero. -/
def increase : List UInt8 -> List UInt8 × Bool
  | [] => ([], true)
  | b :: bs =>
    if (increase bs).2 then ((b + 1) :: (increase bs).1, b + 1 == 0)
    else (b :: (increase bs).1, false)

/-- Subtract one from the last byte and borrow on while bytes wrap to `0xff`. -/
def decrease : List UInt8 -> List UInt8 × Bool
  | [] => ([], true)
  | b :: bs =>
    if (decrease bs).2 then ((b - 1) :: (decrease bs).1, b - 1 == 0xff)
    else (b :: (decrease bs).1, false)

def complement (bs : List UInt8) : List UInt8 :=
  bs.map (fun b => ~~~b)

variable (bs : List UInt8)

@[simp] theorem length_increase : (increase bs).1.length = bs.length := by
  induction bs with
  | nil => rfl
  | cons b bs ih =>
    unfold increase
    split <;> simp [ih]

@[simp] theorem length_decrease : (decrease bs).1.length = bs.length := by
  induction bs with
  | nil => rfl
  | cons b bs ih =>
    unfold decrease
    split <;> simp [ih]

@[simp] theorem length_complement : (complement bs).length = bs.length := by
  simp [complement]

theorem byte_add_one (b : UInt8) :
    (b + 1).toNat + (if b + 1 == 0 then 256 else 0) = b.toNat + 1 := by
  have hb := b.toNat_lt
  have hadd : (b + 1).toNat = (b.toNat + 1) % 256 := by
    simp [UInt8.toNat_add]
  have hzero : (b + 1 == 0) = decide ((b + 1).toNat = 0) := by
    rw [Bool.eq_iff_iff, beq_iff_eq, decide_eq_true_iff, ← UInt8.toNat_inj]
    rfl
  rw [hzero, hadd]
  by_cases hfull : b.toNat = 255
  · rw [hfull]
    rfl
  · rw [decide_eq_false (by omega)]
    simp only [Bool.false_eq_true, if_false]
    omega

theorem byte_sub_one (b : UInt8) :
    (b - 1).toNat + 1 = b.toNat + (if b - 1 == 0xff then 256 else 0) := by
  have hb := b.toNat_lt
  have hsub : (b - 1).toNat = (255 + b.toNat) % 256 := by
    simp [UInt8.toNat_sub]
  have hfull : (b - 1 == 0xff) = decide ((b - 1).toNat = 255) := by
    rw [Bool.eq_iff_iff, beq_iff_eq, decide_eq_true_iff, ← UInt8.toNat_inj]
    rfl
  rw [hfull, hsub]
  by_cases hzero : b.toNat = 0
  · rw [hzero]
    rfl
  · rw [decide_eq_false (by omega)]
    simp only [Bool.false_eq_true, if_false]
    omega

theorem increase_value :
    beNat (increase bs).1 + (if (increase bs).2 then 256 ^ bs.length else 0) =
      beNat bs + 1 := by
  induction bs with
  | nil => rfl
  | cons b bs ih =>
    unfold increase
    by_cases hc : (increase bs).2 = true
    · have hbyte := byte_add_one b
      rw [if_pos hc] at ih ⊢
      simp only [beNat_cons, length_increase, length_cons, Nat.pow_succ]
      by_cases hz : (b + 1 == 0) = true
      · rw [if_pos hz] at hbyte ⊢
        have hb : b.toNat = 255 + (b + 1).toNat := by omega
        rw [hb, Nat.add_mul]
        omega
      · rw [if_neg hz] at hbyte ⊢
        have hb : (b + 1).toNat = b.toNat + 1 := by omega
        rw [hb, Nat.add_mul]
        omega
    · rw [if_neg hc] at ih ⊢
      simp only [beNat_cons, length_increase, Bool.false_eq_true, if_false]
      omega

theorem decrease_value :
    beNat (decrease bs).1 + 1 = beNat bs + (if (decrease bs).2 then 256 ^ bs.length else 0) := by
  induction bs with
  | nil => rfl
  | cons b bs ih =>
    unfold decrease
    by_cases hc : (decrease bs).2 = true
    · have hbyte := byte_sub_one b
      rw [if_pos hc] at ih ⊢
      simp only [beNat_cons, length_decrease, length_cons, Nat.pow_succ]
      by_cases hz : (b - 1 == 0xff) = true
      · rw [if_pos hz] at hbyte ⊢
        have hb : (b - 1).toNat = b.toNat + 255 := by omega
        rw [hb, Nat.add_mul]
        omega
      · rw [if_neg hz] at hbyte ⊢
        have hb : b.toNat = (b - 1).toNat + 1 := by omega
        rw [hb, Nat.add_mul]
        omega
    · rw [if_neg hc] at ih ⊢
      simp only [beNat_cons, length_decrease, Bool.false_eq_true, if_false]
      omega

theorem complement_value : beNat (complement bs) + beNat bs + 1 = 256 ^ bs.length := by
  induction bs with
  | nil => rfl
  | cons b bs ih =>
    have hb := b.toNat_lt
    have hnot : (~~~b).toNat + b.toNat = 255 := by
      rw [UInt8.toNat_not]
      simp only [UInt8.size]
      omega
    have hcons : complement (b :: bs) = ~~~b :: complement bs := rfl
    rw [hcons, beNat_cons, beNat_cons, length_complement, length_cons, Nat.pow_succ]
    have hmul : (~~~b).toNat * 256 ^ bs.length + b.toNat * 256 ^ bs.length =
        255 * 256 ^ bs.length := by
      rw [← Nat.add_mul, hnot]
    omega

/-!
## Sign extension
-/

theorem beNat_eq_zero_iff : beNat bs = 0 <-> forall b, b ∈ bs -> b = 0 := by
  induction bs with
  | nil => simp
  | cons b bs ih =>
    have hb : b.toNat = 0 <-> b = 0 := by
      rw [← UInt8.toNat_inj]
      rfl
    rw [beNat_cons, Nat.add_eq_zero_iff, Nat.mul_eq_zero, ih, hb]
    simp

theorem beNat_eq_max_iff : beNat bs + 1 = 256 ^ bs.length <-> forall b, b ∈ bs -> b = 0xff := by
  have hcomp := complement_value bs
  have hzero := beNat_eq_zero_iff (complement bs)
  have hbyte : forall b : UInt8, ~~~b = 0 <-> b = 0xff := by
    intro b
    constructor
    · intro h
      rw [← UInt8.not_not (a := b), h]
      rfl
    · rintro rfl
      rfl
  have hall : (forall b, b ∈ complement bs -> b = 0) <-> forall b, b ∈ bs -> b = 0xff := by
    simp [complement, hbyte]
  rw [← hall, ← hzero]
  omega

theorem beInt_append_eq_iff (hi lo : List UInt8) :
    beInt (hi ++ lo) = beInt lo <-> forall b, b ∈ hi -> b = if beInt lo < 0 then 0xff else 0 := by
  have hhi := beNat_lt hi
  have hlo := beNat_lt lo
  have hpos : 0 < 256 ^ lo.length := Nat.pow_pos (by decide)
  have hsize : 256 ^ (hi ++ lo).length = 256 ^ hi.length * 256 ^ lo.length := by
    rw [length_append, Nat.pow_add]
  have hstep : (beNat hi + 1) * 256 ^ lo.length <= 256 ^ hi.length * 256 ^ lo.length :=
    Nat.mul_le_mul_right _ hhi
  rw [Nat.add_mul, Nat.one_mul] at hstep
  have hcases := beInt_cases (hi ++ lo)
  rw [hsize, beNat_append] at hcases
  rcases beInt_cases lo with ⟨hsmall, hval⟩ | ⟨hlarge, hval⟩
  · rw [if_neg (by omega), ← beNat_eq_zero_iff, hval]
    constructor
    · intro heq
      have hzero : beNat hi * 256 ^ lo.length = 0 := by
        rcases hcases with ⟨_, h⟩ | ⟨_, h⟩ <;> omega
      exact (Nat.mul_eq_zero.mp hzero).resolve_right hpos.ne'
    · intro heq
      rw [heq, Nat.zero_mul] at hcases hstep
      rcases hcases with ⟨_, h⟩ | ⟨_, h⟩ <;> omega
  · rw [if_pos (by omega), ← beNat_eq_max_iff, hval]
    constructor
    · intro heq
      apply Nat.eq_of_mul_eq_mul_right hpos
      rw [Nat.add_mul, Nat.one_mul]
      rcases hcases with ⟨_, h⟩ | ⟨_, h⟩ <;> omega
    · intro heq
      rw [← heq, Nat.add_mul, Nat.one_mul] at hcases
      rcases hcases with ⟨_, h⟩ | ⟨_, h⟩ <;> omega

theorem beInt_append_of_range (hi lo : List UInt8)
    (hlow : -((256 ^ lo.length : Nat) : Int) <= beInt (hi ++ lo) * 2)
    (hhigh : beInt (hi ++ lo) * 2 < (256 ^ lo.length : Nat)) :
    beInt (hi ++ lo) = beInt lo := by
  symm
  refine beInt_eq_of_emod rfl ?_ hlow hhigh
  have hdvd : ((256 ^ lo.length : Nat) : Int) ∣ (256 ^ (hi ++ lo).length : Nat) := by
    rw [length_append, Nat.pow_add]
    exact Int.natCast_dvd_natCast.mpr (Nat.dvd_mul_left _ _)
  have hmod : beInt (hi ++ lo) % (256 ^ (hi ++ lo).length : Nat) =
      (beNat (hi ++ lo) : Int) % (256 ^ (hi ++ lo).length : Nat) := by
    rw [beInt, Int.bmod_emod]
  have hlocal := congrArg (fun x => x % ((256 ^ lo.length : Nat) : Int)) hmod
  simp only [Int.emod_emod_of_dvd _ hdvd] at hlocal
  rw [hlocal, beNat_append, Int.natCast_add, Int.natCast_mul, Int.add_comm,
    Int.add_mul_emod_self_right]

/-- The low `n` bytes of a number. -/
def beNatBytes : Nat -> Nat -> List UInt8
  | 0, _ => []
  | n + 1, x => UInt8.ofNat (x / 256 ^ n % 256) :: beNatBytes n x

/-- The low `n` bytes of an integer in two's complement. -/
def beBytes (n : Nat) (x : Int) : List UInt8 :=
  beNatBytes n (x % (256 ^ n : Nat)).toNat

theorem length_beNatBytes (n x : Nat) : (beNatBytes n x).length = n := by
  induction n with
  | zero => rfl
  | succ n ih => rw [beNatBytes, length_cons, ih]

@[simp] theorem length_beBytes (n : Nat) (x : Int) : (beBytes n x).length = n :=
  length_beNatBytes n _

theorem beNat_beNatBytes (n x : Nat) : beNat (beNatBytes n x) = x % 256 ^ n := by
  induction n with
  | zero =>
    rw [Nat.pow_zero, Nat.mod_one]
    rfl
  | succ n ih =>
    rw [beNatBytes, beNat_cons, toNat_ofNat_mod, length_beNatBytes, ih, Nat.pow_succ,
      Nat.mod_mul, Nat.mul_comm, Nat.add_comm]

theorem beInt_beBytes {n : Nat} {x : Int} (hlow : -((256 ^ n : Nat) : Int) <= x * 2)
    (hhigh : x * 2 < (256 ^ n : Nat)) : beInt (beBytes n x) = x := by
  apply beInt_eq_of_emod (length_beBytes n x) _ hlow hhigh
  rw [beBytes, beNat_beNatBytes, Int.natCast_emod,
    Int.toNat_of_nonneg (Int.emod_nonneg x (by omega)), Int.emod_emod_of_dvd _ (Int.dvd_refl _),
    Int.emod_emod_of_dvd _ (Int.dvd_refl _)]

end Rye.Foundation
