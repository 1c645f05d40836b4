import Mathlib.Data.List.GetD
import Rye.Base.Comparison

/-!
# Hash numbers of strings

`mht_get_hash_number` places a string among the chains of a hash table: a lock
resource is looked up in the chain of its shard key, and a replicated change goes
to the applier of its shard key.  Trailing blanks are cut off before the rest is
hashed by the weights of the collation.

A string is the list of its bytes here, and any bytes are allowed.
-/

namespace Rye.Base

open Foundation List WeightOrder LangColl

/-!
## Letters

The Korean collation reads code points.  Continuation bytes are not checked, and a
byte that starts nothing is read as the code point `0xffffffff`.
-/

def intlUtf8ToCp (utf8 : List Nat) : Nat × List Nat :=
  let byte (i : Nat) := utf8.getD i 0
  if byte 0 < 0x80 then
    (byte 0, utf8.drop 1)
  else if 2 <= utf8.length ∧ 0xc0 <= byte 0 ∧ byte 0 < 0xe0 then
    (byte 0 % 32 * 64 + byte 1 % 64, utf8.drop 2)
  else if 3 <= utf8.length ∧ 0xe0 <= byte 0 ∧ byte 0 < 0xf0 then
    (byte 0 % 16 * 4096 + byte 1 % 64 * 64 + byte 2 % 64, utf8.drop 3)
  else if 4 <= utf8.length ∧ 0xf0 <= byte 0 ∧ byte 0 < 0xf8 then
    (byte 0 % 8 * 262144 + byte 1 % 64 * 4096 + byte 2 % 64 * 64 + byte 3 % 64, utf8.drop 4)
  else
    (0xffffffff, utf8.drop 1)

/-- The code points of a string; every code point takes a byte, so `fuel` bytes are enough. -/
def codepointsFrom : Nat -> List Nat -> List Nat
  | 0, _ => []
  | _, [] => []
  | fuel + 1, str => (intlUtf8ToCp str).1 :: codepointsFrom fuel (intlUtf8ToCp str).2

def codepoints (str : List Nat) : List Nat :=
  codepointsFrom str.length str

def LangColl.letters (coll : LangColl) (str : List Nat) : List Nat :=
  match coll with
  | .utf8Binary | .utf8EnCs | .utf8EnCi => str
  | .utf8KoCs => codepoints str

def LangColl.fastcmpBytes (coll : LangColl) (str1 str2 : List Nat) : Int :=
  match coll with
  | .utf8Binary | .utf8EnCs | .utf8EnCi => langFastcmpByte coll str1 str2
  | .utf8KoCs => langStrcmpUtf8 coll (codepoints str1) (codepoints str2)

def addToHash (pseudoKey w : UInt32) : UInt32 :=
  let key := (pseudoKey <<< 4) + w
  let i := key &&& 0xf0000000
  if i ≠ 0 then (key ^^^ (i >>> 24)) ^^^ i else key

/-- The loops of `lang_mht2str_byte` and `lang_mht2str_utf8` over the weights of the letters. -/
def mht2str (weights : List Nat) : UInt32 :=
  weights.foldl (fun pseudoKey w => addToHash pseudoKey (UInt32.ofNat w)) 0

/-- A byte lies within the table, so its weight is the weight of the code point. -/
def LangColl.mht2strColl (coll : LangColl) (str : List Nat) : UInt32 :=
  mht2str ((coll.letters str).map coll.weight)

/-- The index at which the loop over trailing spaces stops when it starts at `i`. -/
def lastKept (ptr : List Nat) : Nat -> Nat
  | 0 => 0
  | i + 1 => if ptr.getD (i + 1) 0 = 0x20 then lastKept ptr i else i + 1

/-- The code of a string before it is reduced to the size of the table.  For the empty string the
loop starts before the string and nothing is hashed. -/
def LangColl.hashcode (coll : LangColl) (ptr : List Nat) : UInt32 :=
  if ptr.getD 0 0 = 0 then 0
  else coll.mht2strColl (ptr.take (lastKept ptr (ptr.length - 1) + 1))

/-- A null value is `none`. -/
def mhtGetHashNumber (coll : LangColl) (htSize : Int) (val : Option (List Nat)) : Nat :=
  match val with
  | none => 0
  | some ptr => if htSize <= 1 then 0 else (coll.hashcode ptr).toNat % htSize.toNat

def cirpAnlzGetApplierIndex (coll : LangColl) (shardKey : List Nat) (numAppliers : Int) : Nat :=
  mhtGetHashNumber coll (numAppliers - 1) (some shardKey) + 1

variable (coll : LangColl)

theorem LangColl.fastcmpBytes_eq_zero_iff (str1 str2 : List Nat) :
    coll.fastcmpBytes str1 str2 = 0 <->
      significant coll.weight (coll.letters str1) =
        significant coll.weight (coll.letters str2) := by
  have hbyte : forall w1 w2 : Nat, w1 ≠ w2 -> (w1 : Int) - w2 ≠ 0 := by
    intro w1 w2 h
    omega
  have hcp : forall w1 w2 : Nat, w1 ≠ w2 -> (if w1 < w2 then -1 else 1 : Int) ≠ 0 := by
    intro w1 w2 _
    split_ifs <;> decide
  have hweights : coll.weight = coll.weights := funext coll.weight_eq
  cases coll with
  | utf8KoCs => exact compare_eq_zero_iff hcp _ _
  | _ =>
    rw [hweights]
    exact compare_eq_zero_iff hbyte _ _

/-- The letters that are hashed have the code of the letters that the comparison looks at. -/
def LangColl.HashesAsCompared (coll : LangColl) (str : List Nat) : Prop :=
  coll.hashcode str = mht2str (significant coll.weight (coll.letters str))

instance (coll : LangColl) (str : List Nat) : Decidable (coll.HashesAsCompared str) :=
  inferInstanceAs (Decidable (_ = _))

/-!
## Strings without a zero byte
-/

theorem take_lastKept (b : Nat) (rest : List Nat) {i : Nat} (hi : i <= rest.length) :
    (b :: rest).take (lastKept (b :: rest) i + 1) =
      b :: (rest.take i).rdropWhile (fun c => c == 0x20) := by
  induction i with
  | zero => rfl
  | succ i ih =>
    have hlt : i < rest.length := hi
    have hget : (b :: rest).getD (i + 1) 0 = rest[i] := getD_eq_getElem rest 0 hlt
    have htake := take_succ_eq_append_getElem hlt
    rw [lastKept, hget, htake, rdropWhile_concat]
    split_ifs with hspace heq heq
    · rw [ih (Nat.le_of_lt hlt)]
    · exact absurd (beq_iff_eq.mpr hspace) heq
    · exact absurd (beq_iff_eq.mp heq) hspace
    · rw [← htake]
      rfl

theorem hashcode_cons {b : Nat} (hb : b ≠ 0) (rest : List Nat) :
    coll.hashcode (b :: rest) = coll.mht2strColl (b :: rest.rdropWhile (fun c => c == 0x20)) := by
  have hfirst : (b :: rest).getD 0 0 = b := rfl
  have hlen : (b :: rest).length - 1 = rest.length := rfl
  rw [hashcode, hfirst, if_neg hb, hlen, take_lastKept b rest (Nat.le_refl _), take_length]

/-- Without zero letters the spaces at the end are all that the comparison leaves out. -/
theorem significant_eq_map_rdropWhile {s : List Nat} (hs : forall c, c ∈ s -> c ≠ 0) :
    significant coll.weight s = (s.rdropWhile (fun c => c == 0x20)).map coll.weight := by
  induction s using List.reverseRecOn with
  | nil => rfl
  | append_singleton s c ih =>
    have hc : c ≠ 0 := hs c (by simp)
    have hzero : coll.weight c = 0 <-> c = 0x20 := by
      rw [weight_eq_zero_iff]
      omega
    have hrest := ih (fun d hd => hs d (mem_append_left _ hd))
    rw [significant] at hrest ⊢
    rw [map_append, map_singleton, rdropWhile_concat, rdropWhile_concat]
    by_cases hspace : c = 0x20
    · rw [if_pos (beq_iff_eq.mpr (hzero.mpr hspace)), if_pos (beq_iff_eq.mpr hspace), hrest]
    · rw [if_neg (fun h => hspace (hzero.mp (beq_iff_eq.mp h))),
        if_neg (fun h => hspace (beq_iff_eq.mp h)), map_append, map_singleton]

theorem mht2str_keep_first {c : Nat} {s : List Nat} (hs : forall d, d ∈ c :: s -> d ≠ 0) :
    mht2str ((c :: s.rdropWhile (fun d => d == 0x20)).map coll.weight) =
      mht2str (significant coll.weight (c :: s)) := by
  have hrest := significant_eq_map_rdropWhile coll (fun d hd => hs d (mem_cons_of_mem c hd))
  rw [significant_cons, hrest, map_cons]
  split_ifs with hempty hzero
  · rw [List.isEmpty_iff.mp hempty, beq_iff_eq.mp hzero]
    decide
  · rw [List.isEmpty_iff.mp hempty]
  · rfl

theorem hashesAsCompared_of_bytes {coll : LangColl} (hcoll : coll ≠ .utf8KoCs) {str : List Nat}
    (hstr : forall b, b ∈ str -> b ≠ 0) : coll.HashesAsCompared str := by
  have hletters : forall str : List Nat, coll.letters str = str := by
    intro str
    cases coll with
    | utf8KoCs => exact absurd rfl hcoll
    | _ => rfl
  unfold HashesAsCompared
  cases str with
  | nil =>
    rw [hletters]
    rfl
  | cons b rest =>
    rw [hashcode_cons coll (hstr b mem_cons_self), mht2strColl, hletters, hletters,
      mht2str_keep_first coll hstr]

theorem hashesAsCompared_trailingSpace : utf8EnCi.HashesAsCompared [0x61, 0x20] :=
  hashesAsCompared_of_bytes (by decide) (by decide)

/-- A space or a zero byte comes from no other code point than itself. -/
theorem exists_intlCpToUtf8_eq_cons (c : Nat) :
    exists b pre, intlCpToUtf8 c = b :: pre ∧ (forall d, d ∈ pre -> d ≠ 0x20) ∧
      (c ≠ 0x20 -> b ≠ 0x20) ∧ (c ≠ 0 -> b ≠ 0) := by
  unfold intlCpToUtf8
  split_ifs
  all_goals
    refine ⟨_, _, rfl, ?_, ?_, ?_⟩
  any_goals omega
  all_goals
    intro d hd
    simp only [mem_cons, not_mem_nil, or_false] at hd
  all_goals omega

theorem intlUtf8ToCp_encoded {c : Nat} (hc : c <= maxBoundChr) (rest : List Nat) :
    intlUtf8ToCp (intlCpToUtf8 c ++ rest) = (c, rest) := by
  unfold maxBoundChr at hc
  unfold intlCpToUtf8 intlUtf8ToCp
  split_ifs <;>
    simp only [cons_append, nil_append, getD_cons_zero, getD_cons_succ,
      length_cons, drop_succ_cons, drop_zero] <;>
    split_ifs <;> first | omega | rfl | (congr 1; omega)

theorem codepointsFrom_utf8Bytes {fuel : Nat} {cps : List Nat}
    (hcps : forall c, c ∈ cps -> c <= maxBoundChr) (hfuel : (utf8Bytes cps).length <= fuel) :
    codepointsFrom fuel (utf8Bytes cps) = cps := by
  induction cps generalizing fuel with
  | nil => cases fuel <;> rfl
  | cons c cps ih =>
    obtain ⟨b, pre, hbytes, _, _⟩ := exists_intlCpToUtf8_eq_cons c
    rw [utf8Bytes_cons, hbytes] at hfuel
    cases fuel with
    | zero => exact absurd hfuel (Nat.not_succ_le_zero _)
    | succ fuel =>
      have hfirst := intlUtf8ToCp_encoded (hcps c mem_cons_self) (utf8Bytes cps)
      have hlen : (utf8Bytes cps).length <= fuel := by
        simp only [cons_append, length_cons, length_append] at hfuel
        omega
      rw [hbytes] at hfirst
      rw [utf8Bytes_cons, hbytes, cons_append, codepointsFrom, ← cons_append, hfirst,
        ih (fun d hd => hcps d (mem_cons_of_mem c hd)) hlen]
      exact cons_ne_nil _ _

theorem rdropWhile_utf8Bytes {pre : List Nat} (hpre : forall d, d ∈ pre -> d ≠ 0x20)
    (cps : List Nat) :
    (pre ++ utf8Bytes cps).rdropWhile (fun d => d == 0x20) =
      pre ++ utf8Bytes (cps.rdropWhile (fun d => d == 0x20)) := by
  induction cps using List.reverseRecOn with
  | nil =>
    have hnil : utf8Bytes [] = [] := rfl
    rw [rdropWhile_nil, hnil, append_nil, rdropWhile_eq_self_iff]
    intro hne hspace
    exact hpre _ (getLast_mem hne) (beq_iff_eq.mp hspace)
  | append_singleton cps c ih =>
    have happend : utf8Bytes (cps ++ [c]) = utf8Bytes cps ++ intlCpToUtf8 c := by
      rw [utf8Bytes, flatMap_append, flatMap_singleton]
      rfl
    rw [happend, rdropWhile_concat, ← append_assoc]
    by_cases hspace : c = 0x20
    · rw [if_pos (beq_iff_eq.mpr hspace), hspace, ← ih]
      exact rdropWhile_concat_pos _ _ _ rfl
    rw [if_neg (fun h => hspace (beq_iff_eq.mp h)), happend, ← append_assoc, rdropWhile_eq_self_iff]
    intro hne hlast
    obtain ⟨b, others, hbytes, hothers, hb, _⟩ := exists_intlCpToUtf8_eq_cons c
    simp only [hbytes, getLast_append_of_ne_nil _ (cons_ne_nil b others)] at hlast
    cases mem_cons.mp (getLast_mem (cons_ne_nil b others)) with
    | inl heq => exact hb hspace (heq.symm.trans (beq_iff_eq.mp hlast))
    | inr hmem => exact hothers _ hmem (beq_iff_eq.mp hlast)

theorem hashesAsCompared_of_codepoints {cps : List Nat}
    (hcps : forall c, c ∈ cps -> c ≠ 0 ∧ c <= maxBoundChr) :
    utf8KoCs.HashesAsCompared (utf8Bytes cps) := by
  have hdecode : forall cps : List Nat, (forall c, c ∈ cps -> c <= maxBoundChr) ->
      utf8KoCs.letters (utf8Bytes cps) = cps :=
    fun cps hmax => codepointsFrom_utf8Bytes hmax (Nat.le_refl _)
  unfold HashesAsCompared
  rw [hdecode cps (fun c hc => (hcps c hc).2)]
  cases cps with
  | nil => rfl
  | cons c cps =>
    obtain ⟨b, pre, hbytes, hpre, _, hb⟩ := exists_intlCpToUtf8_eq_cons c
    have hkept : forall d, d ∈ c :: cps.rdropWhile (fun d => d == 0x20) -> d <= maxBoundChr := by
      intro d hd
      have hsub := ( rdropWhile_prefix (fun d : Nat => d == 0x20) cps).subset
      exact (hcps d (cons_subset_cons c hsub hd)).2
    rw [utf8Bytes_cons, hbytes, cons_append,
      hashcode_cons _ (hb (hcps c mem_cons_self).1), rdropWhile_utf8Bytes hpre,
      ← cons_append, ← hbytes, ← utf8Bytes_cons, mht2strColl, hdecode _ hkept,
      mht2str_keep_first _ (fun d hd => (hcps d hd).1)]

theorem hashesAsCompared_hangul : utf8KoCs.HashesAsCompared (utf8Bytes [0xac00, 0x20]) :=
  hashesAsCompared_of_codepoints (by decide)

/-- The codes of two strings are the same if all tables put them into the same chain. -/
theorem hashcode_eq_of_hashNumber_eq {coll : LangColl} {v w : List Nat}
    (h : forall htSize : Int, htSize <= 2147483647 ->
      mhtGetHashNumber coll htSize (some v) = mhtGetHashNumber coll htSize (some w)) :
    coll.hashcode v = coll.hashcode w := by
  have h1 : (coll.hashcode v).toNat % 2147483647 = (coll.hashcode w).toNat % 2147483647 :=
    h 2147483647 (by decide)
  have h2 : (coll.hashcode v).toNat % 2147483646 = (coll.hashcode w).toNat % 2147483646 :=
    h 2147483646 (by decide)
  have hv := (coll.hashcode v).toNat_lt
  have hw := (coll.hashcode w).toNat_lt
  apply UInt32.toNat_inj.mp
  omega

end Rye.Base
