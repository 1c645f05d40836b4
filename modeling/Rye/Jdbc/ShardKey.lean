import Mathlib.Algebra.Ring.Nat
import Mathlib.Data.List.Forall2
import Rye.Base.Comparison

/-!
# The group of a shard key

The driver finds the group of a key by itself: it trims the key, takes it to lower case in
the default locale of the client, and hashes the bytes.  The server compares keys by the
weights of a collation.  A key is the list of its code points.
-/

namespace Rye.Jdbc

open Base List LangColl

/-- What the client's Java does with strings: `toLowerCase` in the default locale, and `getBytes` in
the charset of the connection. -/
structure Client where
  toLowerCase : List Nat -> List Nat
  getBytes : List Nat -> List Nat

/-- `String.trim` takes control characters away like spaces. -/
def isTrimmed (c : Nat) : Bool :=
  decide (c <= 32)

def trim (str : List Nat) : List Nat :=
  (str.dropWhile isTrimmed).rdropWhile isTrimmed

/-!
`java.util.zip.CRC32`.
-/

def crcShift (crc : Nat) : Nat :=
  if crc % 2 = 1 then Nat.xor (crc / 2) 0xedb88320 else crc / 2

def crcUpdate (crc byte : Nat) : Nat :=
  Nat.iterate crcShift 8 (Nat.xor crc (byte % 256))

def crc32 (bytes : List Nat) : Nat :=
  Nat.xor (bytes.foldl crcUpdate 0xffffffff) 0xffffffff

structure RyeShardKey where
  nodeid : Int
  key : List Nat
  groupid : Nat
deriving DecidableEq, Repr

inductive KeyError where
  | shardNodeConnectionInvalid
  | shardGroupidInvalid
  /-- The division by the length of an empty table. -/
  | arithmetic
deriving DecidableEq, Repr

def getNodeid (nodeid : List Int) (groupid : Nat) : Except KeyError Int :=
  if groupid < 1 ∨ groupid > nodeid.length then .error .shardGroupidInvalid
  else .ok (nodeid.getD (groupid - 1) 0)

def Client.byteKey (client : Client) (shardKey : List Nat) : List Nat :=
  client.getBytes (client.toLowerCase (trim shardKey))

def Client.groupid (client : Client) (nodeid : List Int) (shardKey : List Nat) : Nat :=
  crc32 (client.byteKey shardKey) % nodeid.length + 1

/-- The key is `none` for a `null`; `nodeid` is the table of the nodes of all groups. -/
def Client.makeShardKey (client : Client) (nodeid : List Int) (shardKey : Option (List Nat)) :
    Except KeyError RyeShardKey :=
  match shardKey with
  | none => .error .shardNodeConnectionInvalid
  | some key =>
    if nodeid.isEmpty = true then .error .arithmetic
    else
      match getNodeid nodeid (client.groupid nodeid key) with
      | .error error => .error error
      | .ok node => .ok ⟨node, client.byteKey key, client.groupid nodeid key⟩

/-!
## Hash values decide the groups
-/

theorem crcShift_lt {crc : Nat} (h : crc < 2 ^ 32) : crcShift crc < 2 ^ 32 := by
  unfold crcShift
  split
  · exact Nat.xor_lt_two_pow (by omega) (by decide)
  · omega

theorem crcUpdate_lt {crc : Nat} (h : crc < 2 ^ 32) (byte : Nat) : crcUpdate crc byte < 2 ^ 32 := by
  have hxor : Nat.xor crc (byte % 256) < 2 ^ 32 := Nat.xor_lt_two_pow h (by omega)
  exact Function.Iterate.rec (fun crc => crc < 2 ^ 32) hxor (fun _ => crcShift_lt) 8

theorem crc32_lt (bytes : List Nat) : crc32 bytes < 2 ^ 32 := by
  have hfold : forall (bytes : List Nat) (crc : Nat), crc < 2 ^ 32 ->
      bytes.foldl crcUpdate crc < 2 ^ 32 := by
    intro bytes
    induction bytes with
    | nil => exact fun _ h => h
    | cons byte bytes ih => exact fun crc h => ih _ (crcUpdate_lt h byte)
  exact Nat.xor_lt_two_pow (hfold bytes _ (by decide)) (by decide)

/-- Whatever the table of the groups is, both keys get a key object, and their groups are the
same. -/
def Client.RoutesAlike (client : Client) (x y : List Nat) : Prop :=
  forall nodeid : List Int, nodeid ≠ [] -> nodeid.length < 2 ^ 31 ->
    exists k l, client.makeShardKey nodeid (some x) = .ok k ∧
      client.makeShardKey nodeid (some y) = .ok l ∧ k.groupid = l.groupid

theorem Client.makeShardKey_eq (client : Client) {nodeid : List Int} (hne : nodeid ≠ [])
    (key : List Nat) :
    client.makeShardKey nodeid (some key) =
      .ok ⟨nodeid.getD (client.groupid nodeid key - 1) 0, client.byteKey key,
        client.groupid nodeid key⟩ := by
  have hlength := length_pos_iff.mpr hne
  have hmod := Nat.mod_lt (crc32 (client.byteKey key)) hlength
  have hgroup : client.groupid nodeid key = crc32 (client.byteKey key) % nodeid.length + 1 := rfl
  have hempty : ¬ nodeid.isEmpty = true := by
    rwa [List.isEmpty_iff]
  have hrange : ¬ (client.groupid nodeid key < 1 ∨ client.groupid nodeid key > nodeid.length) := by
    omega
  simp only [Client.makeShardKey, if_neg hempty, getNodeid, if_neg hrange]

theorem Client.routesAlike_iff (client : Client) (x y : List Nat) :
    client.RoutesAlike x y <-> crc32 (client.byteKey x) = crc32 (client.byteKey y) := by
  constructor
  · intro h
    have hmod : forall n, 0 < n -> n < 2 ^ 31 ->
        crc32 (client.byteKey x) % n = crc32 (client.byteKey y) % n := by
      intro n hpos hlt
      have hlength : (List.replicate n (0 : Int)).length = n := length_replicate
      have hne : List.replicate n (0 : Int) ≠ [] := by
        rw [← length_pos_iff, hlength]
        exact hpos
      obtain ⟨k, l, hk, hl, hgroup⟩ := h (List.replicate n 0) hne (by rwa [hlength])
      rw [client.makeShardKey_eq hne] at hk hl
      cases hk
      cases hl
      simp only [Client.groupid, hlength] at hgroup
      omega
    have hlow := hmod 65536 (by decide) (by decide)
    have hhigh := hmod 65537 (by decide) (by decide)
    have hx := crc32_lt (client.byteKey x)
    have hy := crc32_lt (client.byteKey y)
    omega
  · intro h nodeid hne _
    refine ⟨_, _, client.makeShardKey_eq hne x, client.makeShardKey_eq hne y, ?_⟩
    simp only [Client.groupid, h]

/-!
## Keys that are equal for the server
-/

variable {coll : LangColl}

theorem weight_eq_zero_of_fastcmp_nil {str : List Nat} (h : coll.fastcmp [] str = 0) {c : Nat}
    (hc : c ∈ str) : coll.weight c = 0 := by
  rw [coll.fastcmp_nil_left] at h
  split_ifs at h with hall
  exact beq_iff_eq.mp (all_eq_true.mp hall c hc)

theorem fastcmp_nil_of_nil {str : List Nat} (h : coll.fastcmp str [] = 0) :
    coll.fastcmp [] str = 0 := by
  rw [coll.fastcmp_nil_right] at h
  rw [coll.fastcmp_nil_left]
  split_ifs at h ⊢
  · rfl
  · cases h

/-- Equal keys have the same weights, but for characters of weight zero at their ends. -/
theorem forall₂_of_fastcmp {x y : List Nat} (hx : forall c, c ∈ x -> c <= maxBoundChr)
    (hy : forall c, c ∈ y -> c <= maxBoundChr) (h : coll.fastcmp x y = 0) :
    exists u v s t, x = u ++ s ∧ y = v ++ t ∧
      List.Forall₂ (fun a b => coll.weight a = coll.weight b) u v ∧
      (forall c, c ∈ s -> coll.weight c = 0) ∧ forall c, c ∈ t -> coll.weight c = 0 := by
  have horders := coll.fastcmp_orders
  induction x generalizing y with
  | nil =>
    exact ⟨[], [], [], y, rfl, rfl, .nil, fun c hc => absurd hc not_mem_nil,
      fun c hc => weight_eq_zero_of_fastcmp_nil h hc⟩
  | cons a x ih =>
    cases y with
    | nil =>
      exact ⟨[], [], a :: x, [], rfl, rfl, .nil,
        fun c hc => weight_eq_zero_of_fastcmp_nil (fastcmp_nil_of_nil h) hc,
        fun c hc => absurd hc not_mem_nil⟩
    | cons b y =>
      have ha := hx a mem_cons_self
      have hb := hy b mem_cons_self
      rcases Nat.lt_trichotomy (coll.weight a) (coll.weight b) with hlt | heq | hgt
      · have hneg := horders.less hb hlt x y
        omega
      · rw [horders.same heq] at h
        obtain ⟨u, v, s, t, hu, hv, huv, hs, ht⟩ :=
          ih (fun c hc => hx c (mem_cons_of_mem _ hc)) (fun c hc => hy c (mem_cons_of_mem _ hc)) h
        refine ⟨a :: u, b :: v, s, t, ?_, ?_, .cons heq huv, hs, ht⟩
        · rw [hu, cons_append]
        · rw [hv, cons_append]
      · have hpos := horders.more ha hgt x y
        omega

/-!
## Trimming

What is trimmed at the end of a key contains what the server ignores there, and at both ends
characters of the same weight are trimmed alike.
-/

theorem trim_append {s : List Nat} (u : List Nat) (h : forall c, c ∈ s -> isTrimmed c = true) :
    trim (u ++ s) = trim u := by
  have hdrop : s.dropWhile isTrimmed = [] := dropWhile_eq_nil_iff.mpr h
  have hreverse : s.reverse.dropWhile isTrimmed = [] :=
    dropWhile_eq_nil_iff.mpr fun c hc => h c (mem_reverse.mp hc)
  unfold trim
  rw [dropWhile_append]
  split
  · rename_i hempty
    rw [hdrop, List.isEmpty_iff.mp hempty]
  · rw [List.rdropWhile, reverse_append, dropWhile_append, hreverse]
    rfl

variable {R : Nat -> Nat -> Prop} {a b : Nat}

theorem forall₂_dropWhile {p : Nat -> Bool} (hp : forall a b, R a b -> p a = p b) {u v : List Nat}
    (h : List.Forall₂ R u v) : List.Forall₂ R (u.dropWhile p) (v.dropWhile p) := by
  induction h with
  | nil => exact .nil
  | cons hab huv ih =>
    rw [dropWhile_cons, dropWhile_cons, hp _ _ hab]
    split
    · exact ih
    · exact .cons hab huv

theorem forall₂_trim (hp : forall a b, R a b -> isTrimmed a = isTrimmed b) {u v : List Nat}
    (h : List.Forall₂ R u v) : List.Forall₂ R (trim u) (trim v) := by
  have hdrop := forall₂_dropWhile hp h
  exact forall₂_reverse_iff.mpr (forall₂_dropWhile hp (forall₂_reverse_iff.mpr hdrop))

theorem isTrimmed_eq_of_weight (h : coll.weight a = coll.weight b) : isTrimmed a = isTrimmed b := by
  rw [coll.weight_eq, coll.weight_eq] at h
  refine decide_eq_decide.mpr ?_
  cases coll <;> simp only [weights, langWeightEnCs, langWeightEnCi] at h <;>
    split_ifs at h <;> omega

theorem forall₂_trim_of_fastcmp {x y : List Nat} (hx : forall c, c ∈ x -> c <= maxBoundChr)
    (hy : forall c, c ∈ y -> c <= maxBoundChr) (h : coll.fastcmp x y = 0) :
    List.Forall₂ (fun a b => coll.weight a = coll.weight b) (trim x) (trim y) := by
  obtain ⟨u, v, s, t, rfl, rfl, huv, hs, ht⟩ := forall₂_of_fastcmp hx hy h
  have htrimmed : forall c, coll.weight c = 0 -> isTrimmed c = true := by
    intro c hc
    rcases weight_eq_zero_iff.mp hc with rfl | rfl <;> rfl
  rw [trim_append u fun c hc => htrimmed c (hs c hc),
    trim_append v fun c hc => htrimmed c (ht c hc)]
  exact forall₂_trim (fun a b => isTrimmed_eq_of_weight) huv

/-!
## Keys that are equal for the driver
-/

def asciiLower (c : Nat) : Nat :=
  if 65 <= c ∧ c <= 90 then c + 32 else c

/-- Spellings that differ in the case of ASCII letters only are the same in lower case.  That is so
in all locales but the Turkish, Azerbaijani and Lithuanian ones. -/
def Client.FoldsAscii (client : Client) : Prop :=
  forall s t : List Nat, s.map asciiLower = t.map asciiLower ->
    client.toLowerCase s = client.toLowerCase t

def sameSpaces (s t : List Nat) : Bool :=
  (s.map fun c => c == 32) == t.map fun c => c == 32

theorem asciiLower_eq_of_weight (h : coll.weight a = coll.weight b)
    (hspace : (a == 32) = (b == 32)) : asciiLower a = asciiLower b := by
  have hiff : a = 32 <-> b = 32 := by
    rw [← beq_iff_eq (a := a), ← beq_iff_eq (a := b), hspace]
  rw [coll.weight_eq, coll.weight_eq] at h
  unfold asciiLower
  cases coll <;> simp only [weights, langWeightEnCs, langWeightEnCi] at h <;>
    split_ifs at h ⊢ <;> omega

theorem eq_of_weight (hcoll : coll ≠ .utf8EnCi) (h : coll.weight a = coll.weight b)
    (hspace : (a == 32) = (b == 32)) : a = b := by
  have hiff : a = 32 <-> b = 32 := by
    rw [← beq_iff_eq (a := a), ← beq_iff_eq (a := b), hspace]
  rw [coll.weight_eq, coll.weight_eq] at h
  cases coll with
  | utf8EnCi => contradiction
  | _ =>
    simp only [weights, langWeightEnCs] at h
    split_ifs at h <;> omega

theorem map_eq_of_forall₂ {f : Nat -> Nat}
    (hf : forall a b, R a b -> (a == 32) = (b == 32) -> f a = f b) {s t : List Nat}
    (h : List.Forall₂ R s t) (hspaces : sameSpaces s t = true) : s.map f = t.map f := by
  unfold sameSpaces at hspaces
  rw [beq_iff_eq] at hspaces
  induction h with
  | nil => rfl
  | cons hab _ ih =>
    rw [map_cons, map_cons] at hspaces ⊢
    obtain ⟨hhead, htail⟩ := List.cons.inj hspaces
    rw [hf _ _ hab hhead, ih htail]

/-- Lower case in most locales, on ASCII strings, and UTF-8. -/
def asciiClient : Client :=
  ⟨List.map asciiLower, utf8Bytes⟩

/-- In a Turkish locale the lower case of `I` is the dotless letter. -/
def turkishClient : Client :=
  ⟨List.map fun c => if c = 73 then 0x131 else asciiLower c, utf8Bytes⟩

/-- `I` and `i` are equal without case, but not for a client with a Turkish locale. -/
theorem turkish_i_routed_apart :
    utf8EnCi.fastcmp [73] [105] = 0 ∧ ¬ turkishClient.RoutesAlike [73] [105] := by
  refine ⟨by decide, ?_⟩
  rw [turkishClient.routesAlike_iff]
  decide +kernel

end Rye.Jdbc
