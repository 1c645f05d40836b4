import Mathlib.Data.Nat.ModEq
import Mathlib.Tactic.NormNum.GCD
import Mathlib.Tactic.Ring
import Rye.Storage.ExtendibleHash.Operations

/-!
# Strings as keys

The keys of type `DB_TYPE_VARCHAR` are strings that end at the first zero byte.  They are
compared as if the shorter one were filled up with blanks, but the pseudo key is made of
the bytes that are there.
-/

namespace Rye.Storage.ExtendibleHash

open List

structure CString where
  bytes : List UInt8
  nonzero : forall b, b ∈ bytes -> b ≠ 0

def compareRest (result : Int) : List UInt8 -> Int
  | [] => 0
  | b :: rest => if b ≠ 0x20 then result else compareRest result rest

def ansisqlStrcmp : List UInt8 -> List UInt8 -> Int
  | [], [] => 0
  | [], t => compareRest (-1) t
  | s, [] => compareRest 1 s
  | a :: s, b :: t => if a = b then ansisqlStrcmp s t else if a < b then -1 else 1

def ehashCompareKey (key bucketRecord : CString) : Int :=
  ansisqlStrcmp key.bytes bucketRecord.bytes

def mht1strPseudoKey (key : List UInt8) : UInt32 :=
  key.foldl (fun pseudoKey byte => (pseudoKey <<< 5) - pseudoKey + byte.toUInt32) 0

def mht1strhash (key : List UInt8) (htSize : UInt32) : UInt32 :=
  mht1strPseudoKey key % htSize

def ehashHashStringType (key : CString) : UInt32 :=
  mht1strhash key.bytes (-1)

theorem compareRest_eq_zero {result : Int} (hresult : result ≠ 0) {str : List UInt8}
    (h : compareRest result str = 0) : str = replicate str.length 0x20 := by
  induction str with
  | nil => rfl
  | cons b rest ih =>
    rw [compareRest] at h
    split_ifs at h with hb
    · exact absurd h hresult
    · rw [length_cons, replicate_succ, ← ih h, not_not.mp hb]

theorem ansisqlStrcmp_eq_zero {s t : List UInt8} (h : ansisqlStrcmp s t = 0) :
    exists k, t = s ++ replicate k 0x20 ∨ s = t ++ replicate k 0x20 := by
  induction s generalizing t with
  | nil =>
    cases t with
    | nil => exact ⟨0, .inl rfl⟩
    | cons b t => exact ⟨(b :: t).length, .inl (compareRest_eq_zero (by decide) h)⟩
  | cons a s ih =>
    cases t with
    | nil => exact ⟨(a :: s).length, .inr (compareRest_eq_zero (by decide) h)⟩
    | cons b t =>
      rw [ansisqlStrcmp] at h
      split_ifs at h with hab
      · obtain ⟨k, hk⟩ := ih h
        refine ⟨k, ?_⟩
        rw [hab, cons_append, cons_append]
        exact hk.imp (fun heq => by rw [← heq]) (fun heq => by rw [← heq])
      · cases h

/-!
## The pseudo key of a string with trailing blanks
-/

theorem pseudoKey_step (pseudoKey : UInt32) (byte : UInt8) :
    ((pseudoKey <<< 5) - pseudoKey + byte.toUInt32).toNat ≡
      31 * pseudoKey.toNat + byte.toNat [MOD 2 ^ 32] := by
  have hlt := pseudoKey.toNat_lt
  unfold Nat.ModEq
  rw [UInt32.toNat_add, UInt32.toNat_sub, UInt32.toNat_shiftLeft, UInt8.toNat_toUInt32,
    show (5 : UInt32).toNat % 32 = 5 from rfl, Nat.shiftLeft_eq]
  omega

/-- One more blank multiplies by 31 what the hash makes of the string, up to a constant. -/
theorem mht1strPseudoKey_blanks (str : List UInt8) (k : Nat) :
    15 * (mht1strPseudoKey (str ++ replicate k 0x20)).toNat + 16 ≡
      31 ^ k * (15 * (mht1strPseudoKey str).toNat + 16) [MOD 2 ^ 32] := by
  induction k with
  | zero => rw [replicate_zero, append_nil, Nat.pow_zero, Nat.one_mul]
  | succ k ih =>
    have hstep := pseudoKey_step (mht1strPseudoKey (str ++ replicate k 0x20)) 0x20
    rw [replicate_succ', ← append_assoc]
    have hlast : mht1strPseudoKey (str ++ replicate k 0x20 ++ [0x20]) =
        (mht1strPseudoKey (str ++ replicate k 0x20) <<< 5) -
          mht1strPseudoKey (str ++ replicate k 0x20) + (0x20 : UInt8).toUInt32 := by
      rw [mht1strPseudoKey, foldl_append]
      rfl
    rw [hlast]
    generalize mht1strPseudoKey (str ++ replicate k 0x20) = pseudoKey at hstep ih ⊢
    generalize (mht1strPseudoKey str).toNat = short at ih ⊢
    calc _ ≡ 15 * (31 * pseudoKey.toNat + (0x20 : UInt8).toNat) + 16 [MOD 2 ^ 32] :=
          (hstep.mul_left 15).add_right 16
      _ = 31 * (15 * pseudoKey.toNat + 16) := by
          rw [show (0x20 : UInt8).toNat = 32 from rfl]
          ring
      _ ≡ 31 * (31 ^ k * (15 * short + 16)) [MOD 2 ^ 32] := ih.mul_left 31
      _ = 31 ^ (k + 1) * (15 * short + 16) := by ring

theorem mod_max {a : Nat} (h : a < 4294967296) :
    (a < 4294967295 ∧ a % 4294967295 = a) ∨ (a = 4294967295 ∧ a % 4294967295 = 0) := by
  cases Nat.lt_or_eq_of_le (Nat.le_of_lt_succ h) with
  | inl hlt => exact .inl ⟨hlt, Nat.mod_eq_of_lt hlt⟩
  | inr heq =>
    rw [heq]
    exact .inr ⟨rfl, Nat.mod_self _⟩

theorem mod_max_eq_iff {a b : UInt32} (hparity : a.toNat % 2 = b.toNat % 2) :
    a % (-1) = b % (-1) <-> a = b := by
  have hmax : (-1 : UInt32).toNat = 4294967295 := by decide
  have ha := mod_max a.toNat_lt
  have hb := mod_max b.toNat_lt
  rw [← UInt32.toNat_inj, ← UInt32.toNat_inj, UInt32.toNat_mod, UInt32.toNat_mod, hmax]
  generalize a.toNat % 4294967295 = restA at ha ⊢
  generalize b.toNat % 4294967295 = restB at hb ⊢
  omega

/-- The blanks that the longer string has more do not change the pseudo key of the shorter one. -/
def BlanksVanish (short long : CString) : Prop :=
  2 ^ 32 ∣ (31 ^ (long.bytes.length - short.bytes.length) - 1) *
    (15 * (mht1strPseudoKey short.bytes).toNat + 16)

instance (short long : CString) : Decidable (BlanksVanish short long) :=
  inferInstanceAs (Decidable (_ ∣ _))

theorem blanksVanish_of_length_le {short long : CString}
    (h : long.bytes.length <= short.bytes.length) : BlanksVanish short long := by
  rw [BlanksVanish, Nat.sub_eq_zero_of_le h, Nat.pow_zero, Nat.sub_self, Nat.zero_mul]
  exact Nat.dvd_zero _

theorem ehashHash_eq_iff_of_blanks {short long : CString} {k : Nat}
    (h : long.bytes = short.bytes ++ replicate k 0x20) :
    ehashHashStringType short = ehashHashStringType long <-> BlanksVanish short long := by
  have hblanks := mht1strPseudoKey_blanks short.bytes k
  have hk : long.bytes.length - short.bytes.length = k := by
    rw [h, length_append, length_replicate, Nat.add_sub_cancel_left]
  unfold ehashHashStringType mht1strhash BlanksVanish
  rw [hk]
  rw [← h] at hblanks
  generalize mht1strPseudoKey short.bytes = a at hblanks ⊢
  generalize mht1strPseudoKey long.bytes = b at hblanks ⊢
  have hodd : 31 ^ k % 2 = 1 := by
    rw [Nat.pow_mod, Nat.one_pow]
  have hparity : a.toNat % 2 = b.toNat % 2 := by
    have htwo : 15 * b.toNat + 16 ≡ 31 ^ k * (15 * a.toNat + 16) [MOD 2] :=
      hblanks.of_dvd (Dvd.intro (2 ^ 31) rfl)
    have hone : 31 ^ k * (15 * a.toNat + 16) ≡ 1 * (15 * a.toNat + 16) [MOD 2] :=
      Nat.ModEq.mul_right _ hodd
    have hboth := htwo.trans hone
    unfold Nat.ModEq at hboth
    omega
  have hle : 15 * a.toNat + 16 <= 31 ^ k * (15 * a.toNat + 16) :=
    Nat.le_mul_of_pos_left _ (Nat.pow_pos (by decide))
  rw [mod_max_eq_iff hparity, Nat.sub_mul, Nat.one_mul, ← Nat.modEq_iff_dvd' hle]
  constructor
  · intro heq
    rw [← heq] at hblanks
    exact hblanks
  intro hsame
  have hshift : 15 * a.toNat + 16 ≡ 15 * b.toNat + 16 [MOD 2 ^ 32] := hsame.trans hblanks.symm
  have hmod := Nat.ModEq.cancel_left_of_coprime (by norm_num) (Nat.ModEq.add_right_cancel' 16 hshift)
  unfold Nat.ModEq at hmod
  rw [Nat.mod_eq_of_lt a.toNat_lt, Nat.mod_eq_of_lt b.toNat_lt] at hmod
  exact UInt32.toNat_inj.mp hmod

/-- The letters `dfdky`. -/
def luckyName : CString :=
  ⟨[0x64, 0x66, 0x64, 0x6b, 0x79], by decide +kernel⟩

def blankLuckyName : CString :=
  ⟨[0x64, 0x66, 0x64, 0x6b, 0x79] ++ replicate 64 0x20, by decide +kernel⟩

def tableName : CString :=
  ⟨[0x74, 0x61, 0x62, 0x6c, 0x65], by decide +kernel⟩

def blankTableName : CString :=
  ⟨[0x74, 0x61, 0x62, 0x6c, 0x65, 0x20], by decide +kernel⟩

end Rye.Storage.ExtendibleHash
