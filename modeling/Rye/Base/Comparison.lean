import Mathlib.Data.List.Lex
import Rye.Base.Collation
import Rye.Foundation.SortedMerge
import Rye.Foundation.WeightOrder

/-!
# The order of a collation

Three of the collations compare the bytes of two strings by the weights of the
table, the Korean one compares their code points.  Both leave trailing zero weights
out of account.

A string is the list of its code points here.  The bound of an index scan may hold
a surrogate, which is no character, so the code points are numbers.
-/

namespace Rye.Base

open Foundation List SortedMerge

/-- The last code point; `intl_set_max_bound_chr` writes it. -/
def maxBoundChr : Nat := 0x10ffff

/-- `intl_set_min_bound_chr` writes a space. -/
def minBoundChr : Nat := 32

def intlCpToUtf8 (codepoint : Nat) : List Nat :=
  if codepoint <= 0x7f then [codepoint]
  else if codepoint <= 0x7ff then [0xc0 + codepoint / 64, 0x80 + codepoint % 64]
  else if codepoint <= 0xffff then
    [0xe0 + codepoint / 4096, 0x80 + codepoint / 64 % 64, 0x80 + codepoint % 64]
  else if codepoint <= 0x10ffff then
    [0xf0 + codepoint / 262144, 0x80 + codepoint / 4096 % 64, 0x80 + codepoint / 64 % 64,
      0x80 + codepoint % 64]
  else [63]

def utf8Bytes (codepoints : List Nat) : List Nat :=
  codepoints.flatMap intlCpToUtf8

def langFastcmpByte (coll : LangColl) : List Nat -> List Nat -> Int :=
  WeightOrder.compare coll.weights fun w1 w2 => (w1 : Int) - w2

def langStrcmpUtf8 (coll : LangColl) : List Nat -> List Nat -> Int :=
  WeightOrder.compare coll.weight fun w1 w2 => if w1 < w2 then -1 else 1

def LangColl.fastcmp (coll : LangColl) (str1 str2 : List Nat) : Int :=
  match coll with
  | .utf8Binary | .utf8EnCs | .utf8EnCi => langFastcmpByte coll (utf8Bytes str1) (utf8Bytes str2)
  | .utf8KoCs => langStrcmpUtf8 coll str1 str2

/-- The table filled by `lang_init_common_en_cs`. -/
def langNextAlphaCharEnCs (cp : Nat) : Nat :=
  if cp = 32 then 1 else cp + 1

/-- The table filled by `lang_init_common_en_ci`. -/
def langNextAlphaCharEnCi (cp : Nat) : Nat :=
  if cp = 32 then 1
  else if cp = 96 then 65
  else if cp = 122 then 91
  else if 97 <= cp ∧ cp <= 122 then cp + 1 - 32
  else cp + 1

def LangColl.nextCp : LangColl -> Nat -> Nat
  | .utf8Binary | .utf8EnCs | .utf8KoCs => langNextAlphaCharEnCs
  | .utf8EnCi => langNextAlphaCharEnCi

/-- The code point written by `lang_next_coll_char_utf8`. -/
def LangColl.nextCollChar (coll : LangColl) (cp : Nat) : Nat :=
  if cp < langCharCountEn then coll.nextCp cp else cp + 1

variable {cp c : Nat} (coll : LangColl)

namespace LangColl

theorem weights_of_ge (h : 128 <= cp) : coll.weights cp = cp := by
  cases coll <;> simp only [weights, langWeightEnCs, langWeightEnCi] <;> grind

theorem weights_le (cp : Nat) : coll.weights cp <= cp := by
  cases coll <;> simp only [weights, langWeightEnCs, langWeightEnCi] <;> grind

theorem weight_eq (cp : Nat) : coll.weight cp = coll.weights cp := by
  unfold weight
  split_ifs with h
  · rfl
  · rw [coll.weights_of_ge]
    unfold langCharCountEn at h
    omega

theorem weight_le (cp : Nat) : coll.weight cp <= cp := by
  rw [coll.weight_eq]
  exact coll.weights_le cp

theorem weight_of_ge (h : 128 <= cp) : coll.weight cp = cp := by
  rw [coll.weight_eq, coll.weights_of_ge h]

theorem weight_minBoundChr : coll.weight minBoundChr = 0 := by
  cases coll <;> rfl

theorem weight_maxBoundChr : coll.weight maxBoundChr = maxBoundChr :=
  coll.weight_of_ge (by decide)

theorem weight_le_max (h : cp <= maxBoundChr) :
    coll.weight cp <= coll.weight maxBoundChr := by
  rw [coll.weight_maxBoundChr]
  exact Nat.le_trans (coll.weight_le cp) h

theorem weight_lt_max (h : cp < maxBoundChr) :
    coll.weight cp < coll.weight maxBoundChr := by
  rw [coll.weight_maxBoundChr]
  exact Nat.lt_of_le_of_lt (coll.weight_le cp) h

theorem weight_lt_next (hunit : cp ≠ 31) (hgrave : coll = .utf8EnCi -> cp ≠ 96) :
    coll.weight cp < coll.weight (coll.nextCollChar cp) := by
  rw [coll.weight_eq, coll.weight_eq]
  unfold nextCollChar
  cases coll <;>
    simp only [nextCp, weights, langWeightEnCs, langWeightEnCi, reduceCtorEq,
      langNextAlphaCharEnCs, langNextAlphaCharEnCi, langCharCountEn, false_implies,
      true_implies] at hgrave ⊢ <;>
    split_ifs <;> omega

theorem nextCollChar_le (h : cp < maxBoundChr) : coll.nextCollChar cp <= maxBoundChr := by
  have hsucc : coll.nextCollChar cp <= cp + 1 := by
    unfold nextCollChar
    cases coll <;> simp only [nextCp, langNextAlphaCharEnCs, langNextAlphaCharEnCi] <;>
      split_ifs <;> omega
  exact Nat.le_trans hsucc h

end LangColl

/-!
## Bytes
-/

theorem intlCpToUtf8_single (h : c < 128) : intlCpToUtf8 c = [c] := by
  unfold intlCpToUtf8
  rw [if_pos (Nat.le_of_lt_succ h)]

/-- The bytes of the smaller code point are smaller at the first place where they differ. -/
theorem intlCpToUtf8_lt {d : Nat} (hlt : c < d) (hd : 128 <= d) (hmax : d <= maxBoundChr) :
    exists u a b s t, intlCpToUtf8 c = u ++ a :: s ∧ intlCpToUtf8 d = u ++ b :: t ∧ a < b ∧
      128 <= b := by
  have hmax' : d <= 0x10ffff := hmax
  have h64 : c / 64 = d / 64 ∨ c / 64 < d / 64 := by omega
  have h4096 : c / 64 / 64 = d / 64 / 64 ∨ c / 64 / 64 < d / 64 / 64 := by omega
  have h262144 : c / 64 / 64 / 64 = d / 64 / 64 / 64 ∨ c / 64 / 64 / 64 < d / 64 / 64 / 64 := by
    omega
  have e4096 (n : Nat) : n / 4096 = n / 64 / 64 := by omega
  have e262144 (n : Nat) : n / 262144 = n / 64 / 64 / 64 := by omega
  unfold intlCpToUtf8
  simp only [e4096, e262144]
  -- lengths that differ are seen at the first byte
  split_ifs
  all_goals first
    | omega
    | exact ⟨[], _, _, _, _, rfl, rfl, by omega, by omega⟩
    | skip
  · cases h64 with
    | inl h =>
      rw [h]
      exact ⟨[_], _, _, _, _, rfl, rfl, by omega, by omega⟩
    | inr h => exact ⟨[], _, _, _, _, rfl, rfl, by omega, by omega⟩
  · cases h4096 with
    | inr h => exact ⟨[], _, _, _, _, rfl, rfl, by omega, by omega⟩
    | inl h =>
      rw [h]
      cases h64 with
      | inr h' => exact ⟨[_], _, _, _, _, rfl, rfl, by omega, by omega⟩
      | inl h' =>
        rw [h']
        exact ⟨[_, _], _, _, _, _, rfl, rfl, by omega, by omega⟩
  · cases h262144 with
    | inr h => exact ⟨[], _, _, _, _, rfl, rfl, by omega, by omega⟩
    | inl h =>
      rw [h]
      cases h4096 with
      | inr h' => exact ⟨[_], _, _, _, _, rfl, rfl, by omega, by omega⟩
      | inl h' =>
        rw [h']
        cases h64 with
        | inr h'' => exact ⟨[_, _], _, _, _, _, rfl, rfl, by omega, by omega⟩
        | inl h'' =>
          rw [h'']
          exact ⟨[_, _, _], _, _, _, _, rfl, rfl, by omega, by omega⟩

theorem LangColl.bytes_lt {d : Nat} (hmax : d <= maxBoundChr) (h : coll.weight c < coll.weight d) :
    exists u a b s t, intlCpToUtf8 c = u ++ a :: s ∧ intlCpToUtf8 d = u ++ b :: t ∧
      coll.weights a < coll.weights b := by
  cases Nat.lt_or_ge d 128 with
  | inl hd =>
    have hc : c < 128 := by
      by_contra hc
      rw [coll.weight_of_ge (Nat.le_of_not_lt hc)] at h
      exact hc (Nat.lt_of_lt_of_le h (Nat.le_trans (coll.weight_le d) (Nat.le_of_lt hd)))
    rw [coll.weight_eq, coll.weight_eq] at h
    exact ⟨[], c, d, [], [], intlCpToUtf8_single hc, intlCpToUtf8_single hd, h⟩
  | inr hd =>
    have hlt : c < d := by
      cases Nat.lt_or_ge c 128 with
      | inl hc => exact Nat.lt_of_lt_of_le hc hd
      | inr hc => rwa [coll.weight_of_ge hc, coll.weight_of_ge hd] at h
    rcases intlCpToUtf8_lt hlt hd hmax with ⟨u, a, b, s, t, hc, hd, hab, hb⟩
    refine ⟨u, a, b, s, t, hc, hd, ?_⟩
    rw [coll.weights_of_ge hb]
    exact Nat.lt_of_le_of_lt (coll.weights_le a) hab

theorem LangColl.eq_or_lt_of_weight_eq {d : Nat} (h : coll.weight c = coll.weight d) :
    c = d ∨ c < 128 ∧ d < 128 := by
  have hc := coll.weight_le c
  have hd := coll.weight_le d
  cases Nat.lt_or_ge c 128 with
  | inl hc128 =>
    cases Nat.lt_or_ge d 128 with
    | inl hd128 => exact .inr ⟨hc128, hd128⟩
    | inr hd128 =>
      rw [coll.weight_of_ge hd128] at h
      omega
  | inr hc128 =>
    rw [coll.weight_of_ge hc128] at h
    cases Nat.lt_or_ge d 128 with
    | inl hd128 => omega
    | inr hd128 =>
      rw [coll.weight_of_ge hd128] at h
      exact .inl h

/-- The comparison is decided by the first two code points of different weight. -/
structure LangColl.Orders (coll : LangColl) (cmp : List Nat -> List Nat -> Int) : Prop where
  nil_right : forall s, 0 <= cmp s []
  nil_space : 0 <= cmp [] [minBoundChr]
  nil_max : cmp [] [maxBoundChr] < 0
  same : forall {c d}, coll.weight c = coll.weight d -> forall s t, cmp (c :: s) (d :: t) = cmp s t
  less : forall {c d}, d <= maxBoundChr -> coll.weight c < coll.weight d ->
    forall s t, cmp (c :: s) (d :: t) < 0
  more : forall {c d}, c <= maxBoundChr -> coll.weight d < coll.weight c ->
    forall s t, 0 < cmp (c :: s) (d :: t)

theorem langStrcmpUtf8_orders : coll.Orders (langStrcmpUtf8 coll) where
  nil_right s := WeightOrder.compare_nil_nonneg s
  nil_space := by cases coll <;> decide
  nil_max := by cases coll <;> decide
  same h s t := WeightOrder.compare_cons_of_eq h s t
  less _ h s t := by
    unfold langStrcmpUtf8
    rw [WeightOrder.compare_cons_of_ne (Nat.ne_of_lt h), if_pos h]
    decide
  more _ h s t := by
    unfold langStrcmpUtf8
    rw [WeightOrder.compare_cons_of_ne (Nat.ne_of_gt h), if_neg (Nat.lt_asymm h)]
    decide

theorem utf8Bytes_cons (c : Nat) (s : List Nat) : utf8Bytes (c :: s) = intlCpToUtf8 c ++ utf8Bytes s :=
  rfl

theorem langFastcmpByte_orders :
    coll.Orders fun s t => langFastcmpByte coll (utf8Bytes s) (utf8Bytes t) where
  nil_right s := WeightOrder.compare_nil_nonneg (utf8Bytes s)
  nil_space := by cases coll <;> decide
  nil_max := by cases coll <;> decide
  same h s t := by
    rw [utf8Bytes_cons, utf8Bytes_cons]
    cases coll.eq_or_lt_of_weight_eq h with
    | inl heq =>
      rw [heq]
      exact WeightOrder.compare_append_left _ _ _
    | inr hlt =>
      rw [coll.weight_eq, coll.weight_eq] at h
      rw [intlCpToUtf8_single hlt.1, intlCpToUtf8_single hlt.2]
      exact WeightOrder.compare_cons_of_eq h _ _
  less hmax h s t := by
    rcases coll.bytes_lt hmax h with ⟨u, a, b, s', t', hc, hd, hlt⟩
    unfold langFastcmpByte
    rw [utf8Bytes_cons, utf8Bytes_cons, hc, hd, append_assoc, append_assoc,
      cons_append, cons_append, WeightOrder.compare_append_of_ne (Nat.ne_of_lt hlt)]
    omega
  more hmax h s t := by
    rcases coll.bytes_lt hmax h with ⟨u, a, b, s', t', hc, hd, hlt⟩
    unfold langFastcmpByte
    rw [utf8Bytes_cons, utf8Bytes_cons, hc, hd, append_assoc, append_assoc,
      cons_append, cons_append, WeightOrder.compare_append_of_ne (Nat.ne_of_gt hlt)]
    omega

theorem LangColl.fastcmp_orders : coll.Orders coll.fastcmp := by
  cases coll with
  | utf8KoCs => exact langStrcmpUtf8_orders .utf8KoCs
  | _ => exact langFastcmpByte_orders _

/-!
## The order is the one of the weights that count
-/

theorem weight_eq_zero_iff {coll : LangColl} : coll.weight c = 0 <-> c = 0 ∨ c = 32 := by
  rw [coll.weight_eq]
  cases coll <;> simp only [LangColl.weights, langWeightEnCs, langWeightEnCi] <;> grind

theorem exists_weights_ne_zero (h : 128 <= c) :
    exists b, b ∈ intlCpToUtf8 c ∧ coll.weights b ≠ 0 := by
  have hhead : forall b rest, intlCpToUtf8 c = b :: rest -> 128 <= b ->
      exists b, b ∈ intlCpToUtf8 c ∧ coll.weights b ≠ 0 := by
    intro b rest hbytes hb
    refine ⟨b, ?_, ?_⟩
    · rw [hbytes]
      exact mem_cons_self
    · rw [coll.weights_of_ge hb]
      omega
  by_cases hmax : c <= 0x10ffff
  · unfold intlCpToUtf8 at hhead ⊢
    split_ifs at hhead ⊢
    · omega
    · exact hhead _ _ rfl (by omega)
    · exact hhead _ _ rfl (by omega)
    · exact hhead _ _ rfl (by omega)
  · have hbytes : intlCpToUtf8 c = [63] := by
      unfold intlCpToUtf8
      rw [if_neg (by omega), if_neg (by omega), if_neg (by omega), if_neg hmax]
    refine ⟨63, ?_, ?_⟩
    · rw [hbytes]
      exact mem_cons_self
    · cases coll <;> decide

theorem weight_eq_zero_of_bytes {coll : LangColl} {str : List Nat}
    (h : (utf8Bytes str).all (fun b => coll.weights b == 0) = true) (hc : c ∈ str) :
    coll.weight c = 0 := by
  have hbytes : forall b, b ∈ intlCpToUtf8 c -> coll.weights b = 0 := by
    intro b hb
    exact beq_iff_eq.mp (all_eq_true.mp h b (mem_flatMap.mpr ⟨c, hc, hb⟩))
  by_cases hascii : c < 128
  · rw [coll.weight_eq]
    refine hbytes c ?_
    rw [intlCpToUtf8_single hascii]
    exact mem_cons_self
  · obtain ⟨b, hb, hne⟩ := exists_weights_ne_zero coll (Nat.le_of_not_lt hascii)
    exact absurd (hbytes b hb) hne

variable (str : List Nat)

theorem all_utf8Bytes :
    (utf8Bytes str).all (fun b => coll.weights b == 0) = str.all fun c => coll.weight c == 0 := by
  refine Bool.eq_iff_iff.mpr ⟨fun h => all_eq_true.mpr fun c hc => ?_, fun h => ?_⟩
  · exact beq_iff_eq.mpr (weight_eq_zero_of_bytes h hc)
  refine all_eq_true.mpr fun b hb => ?_
  obtain ⟨c, hc, hbc⟩ := mem_flatMap.mp hb
  have hzero := beq_iff_eq.mp (all_eq_true.mp h c hc)
  have hascii : c < 128 := by
    have := weight_eq_zero_iff.mp hzero
    omega
  rw [intlCpToUtf8_single hascii, mem_singleton] at hbc
  rw [hbc, ← coll.weight_eq, hzero]
  rfl

theorem LangColl.fastcmp_nil_left :
    coll.fastcmp [] str = if str.all (fun c => coll.weight c == 0) then 0 else -1 := by
  cases coll with
  | utf8KoCs => rw [LangColl.fastcmp, langStrcmpUtf8, WeightOrder.compare]
  | _ =>
    rw [← all_utf8Bytes, LangColl.fastcmp, langFastcmpByte]
    exact WeightOrder.compare.eq_1 _ _ _

theorem LangColl.fastcmp_nil_right :
    coll.fastcmp str [] = if str.all (fun c => coll.weight c == 0) then 0 else 1 := by
  have hcompare (weight : Nat -> Nat) (differ : Nat -> Nat -> Int) (s : List Nat) :
      WeightOrder.compare weight differ s [] =
        if s.all (fun c => weight c == 0) then 0 else 1 := by
    cases s <;> rfl
  cases coll with
  | utf8KoCs => exact hcompare _ _ str
  | _ =>
    rw [← all_utf8Bytes]
    exact hcompare _ _ _

theorem LangColl.fastcmp_ranks {s t : List Nat} (hs : forall c, c ∈ s -> c <= maxBoundChr)
    (ht : forall c, c ∈ t -> c <= maxBoundChr) :
    Ranks (WeightOrder.significant coll.weight) coll.fastcmp s t := by
  have hnil : WeightOrder.significant coll.weight ([] : List Nat) = [] := rfl
  have horders := coll.fastcmp_orders
  induction s generalizing t with
  | nil =>
    have hsig : WeightOrder.significant coll.weight t = [] <-> _ :=
      WeightOrder.significant_eq_nil_iff t
    unfold Ranks
    rw [coll.fastcmp_nil_left, hnil]
    split_ifs with hzero
    · rw [hsig.mpr hzero]
      exact ⟨iff_of_false (by decide) (lt_irrefl _), iff_of_true rfl rfl⟩
    · cases h : WeightOrder.significant coll.weight t with
      | nil => exact absurd (hsig.mp h) hzero
      | cons => simp
  | cons a s ih =>
    cases t with
    | nil =>
      have hsig : WeightOrder.significant coll.weight (a :: s) = [] <-> _ :=
        WeightOrder.significant_eq_nil_iff (a :: s)
      unfold Ranks
      rw [coll.fastcmp_nil_right, hnil, hsig]
      split_ifs <;> simp_all
    | cons b t =>
      rcases Nat.lt_trichotomy (coll.weight a) (coll.weight b) with hlt | heq | hgt
      · have hneg := horders.less (ht b mem_cons_self) hlt s t
        have hsig := WeightOrder.significant_lt_of_lt hlt s t
        exact ⟨iff_of_true hneg hsig, iff_of_false (Int.ne_of_lt hneg) (ne_of_lt hsig)⟩
      · have ih := ih (fun c hc => hs c (.tail _ hc)) (t := t) (fun c hc => ht c (.tail _ hc))
        unfold Ranks
        rw [horders.same heq, WeightOrder.significant_lt_iff_of_eq heq,
          WeightOrder.significant_eq_iff_of_eq heq]
        exact ih
      · have hpos := horders.more (hs a mem_cons_self) hgt s t
        have hsig := WeightOrder.significant_lt_of_lt hgt t s
        exact ⟨iff_of_false (Int.not_lt.mpr (Int.le_of_lt hpos)) (lt_asymm hsig),
          iff_of_false (Int.ne_of_gt hpos) (ne_of_gt hsig)⟩

def LangColl.Alike (coll1 coll2 : LangColl) : Prop :=
  coll1 = .utf8EnCi <-> coll2 = .utf8EnCi

theorem LangColl.Alike.weight_eq {coll1 coll2 : LangColl} (h : coll1.Alike coll2) :
    coll1.weight = coll2.weight := by
  revert h
  cases coll1 <;> cases coll2 <;> simp [LangColl.Alike] <;> rfl

end Rye.Base
