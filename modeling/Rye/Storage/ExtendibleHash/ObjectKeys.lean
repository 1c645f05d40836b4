import Mathlib.Data.Prod.Lex
import Rye.Storage.ExtendibleHash.Runs

/-!
# Object identifiers as keys

The keys of type `DB_TYPE_OBJECT` are object identifiers.  They are compared by volume,
page and slot, and the pseudo key is made of the eight bytes of the three numbers.

A directory cannot have more than 30 bits: the number of its entries is computed as a
signed word.  A page full of keys of one pseudo key and one more key that differs from
them in the last bit make the structure lose the page.
-/

namespace Rye.Storage.ExtendibleHash

open Foundation LeadingBits List Ehash

structure Oid where
  volid : Fin (2 ^ 15)
  pageid : Fin (2 ^ 31)
  slotid : Fin (2 ^ 15)
deriving DecidableEq, Repr

namespace Oid

def sortKey (oid : Oid) : Nat ×ₗ Nat ×ₗ Nat :=
  toLex (oid.volid.val, toLex (oid.pageid.val, oid.slotid.val))

theorem sortKey_injective : Function.Injective sortKey := by
  rintro ⟨v, p, n⟩ ⟨v', p', n'⟩ h
  simp only [sortKey, EmbeddingLike.apply_eq_iff_eq, Prod.mk.injEq] at h
  obtain ⟨hv, hp, hn⟩ := h
  rw [Fin.ext hv, Fin.ext hp, Fin.ext hn]

/-- The order of `oid_compare`. -/
instance : LinearOrder Oid :=
  LinearOrder.lift' sortKey sortKey_injective

theorem lt_iff (a b : Oid) : a < b <-> a.sortKey < b.sortKey :=
  Iff.rfl

end Oid

def htonl (word : Nat) : Nat :=
  word % 256 * 2 ^ 24 + word / 2 ^ 8 % 256 * 2 ^ 16 + word / 2 ^ 16 % 256 * 2 ^ 8 +
    word / 2 ^ 24 % 256

/-- The last byte of the sum is replaced by the exclusive or of its bytes. -/
def ehashHashEightBytesType (oid : Oid) : Nat :=
  let sum := (htonl oid.pageid.val + htonl (oid.slotid.val + oid.volid.val * 2 ^ 16)) % 2 ^ 32
  let char := (sum % 256) ^^^ (sum / 2 ^ 8 % 256) ^^^ (sum / 2 ^ 16 % 256) ^^^ (sum / 2 ^ 24 % 256)
  sum / 256 * 256 + char

theorem ehashHashEightBytesType_lt (oid : Oid) : ehashHashEightBytesType oid < 2 ^ 32 := by
  unfold ehashHashEightBytesType
  generalize (htonl oid.pageid.val + htonl (oid.slotid.val + oid.volid.val * 2 ^ 16)) = total
  have hbyte : forall a b : Nat, a < 2 ^ 8 -> b < 2 ^ 8 -> a ^^^ b < 2 ^ 8 :=
    fun a b => Nat.xor_lt_two_pow
  have hmod : forall a : Nat, a % 256 < 2 ^ 8 := fun a => Nat.mod_lt a (by decide)
  have hsum : total % 2 ^ 32 < 2 ^ 32 := Nat.mod_lt _ (by decide)
  have hchar := hbyte _ _ (hbyte _ _ (hbyte _ _ (hmod (total % 2 ^ 32))
    (hmod (total % 2 ^ 32 / 2 ^ 8))) (hmod (total % 2 ^ 32 / 2 ^ 16)))
    (hmod (total % 2 ^ 32 / 2 ^ 24))
  simp only at hchar ⊢
  omega

/-- The space for one more record on a bucket page of 16376 bytes with some records.  The header of
the page takes 40 bytes, that of the bucket 4, a record 24, and each of them a slot of 4. -/
def spageMaxSpaceForNewRecord (records : Nat) : Nat :=
  let totalFree := 16376 - 40 - 8 - 28 * records
  if totalFree - 4 < 4 then 0 else totalFree - 4

/-- Pages of 16 kilobytes; a bucket underflows below 40 percent and a merge may fill a page up to
90 percent. -/
def oidConfig : EhashConfig Oid where
  ehashHash := ehashHashEightBytesType
  ehashHash_lt := ehashHashEightBytesType_lt
  capacity := (16376 - 40 - 8) / 28
  underflows := fun records => decide ((16376 - spageMaxSpaceForNewRecord records) * 10 < 16376 * 4)
  siblingFull := fun records sibling =>
    decide (16376 * 9 < ((16376 - spageMaxSpaceForNewRecord sibling) +
      (16376 - 3 - spageMaxSpaceForNewRecord records)) * 10)

/-- Two keys are inserted, the first one is deleted, and the second one gets a new value. -/
def sampleCalls : List (Call Oid Oid) :=
  [.insert ⟨0, 70, 1⟩ ⟨0, 80, 1⟩, .insert ⟨0, 71, 2⟩ ⟨0, 80, 2⟩, .delete ⟨0, 70, 1⟩,
    .insert ⟨0, 71, 2⟩ ⟨0, 80, 3⟩]

theorem ehashSearch_sampleCalls :
    System.Follows (Admits oidConfig) (afterCall oidConfig) (ehashCreate Oid Oid)
        sampleCalls ∧
      ehashSearch oidConfig (sampleCalls.foldl (afterCall oidConfig) (ehashCreate Oid Oid))
        ⟨0, 71, 2⟩ = some ⟨0, 80, 3⟩ :=
  have hfollows : System.Follows (Admits oidConfig) (afterCall oidConfig)
      (ehashCreate Oid Oid) sampleCalls := by decide +kernel
  ⟨hfollows, ehashSearch_eq_lastInserted oidConfig (by decide) sampleCalls hfollows ⟨0, 71, 2⟩⟩

theorem connected_sampleCalls :
    Connected oidConfig
      (sampleCalls.foldl (afterCall oidConfig) (ehashCreate Oid Oid)) :=
  connected_of_reachable oidConfig (by decide) _ (System.reachable_guarded_of_follows sampleCalls
      ((by decide +kernel : System.Follows (Admits oidConfig) (afterCall oidConfig)
        (ehashCreate Oid Oid) sampleCalls).imp fun _ _ h => ⟨h, trivial⟩))

theorem ehashMap_sampleCalls :
    exists entries : Records Oid Oid, (entries.map Prod.fst).Nodup ∧
      forall key value, (key, value) ∈ entries <->
        ehashSearch oidConfig (sampleCalls.foldl (afterCall oidConfig) (ehashCreate Oid Oid)) key =
          some value :=
  (ehashMap_visits oidConfig (by decide) (System.reachable_guarded_of_follows sampleCalls
      ((by decide +kernel : System.Follows (Admits oidConfig) (afterCall oidConfig)
        (ehashCreate Oid Oid) sampleCalls).imp fun _ _ h => ⟨h, trivial⟩))).imp
    fun _ h => ⟨h.1, h.2.1⟩

/-!
## A split at the last bit
-/

section

variable {K V : Type} [LinearOrder K] {config : EhashConfig K} {records : Records K V} {key : K}
    {p : Nat}

theorem ehashInsertToBucket_last (capacity : Nat) (value : V) (hsorted : Sorted records)
    (hlast : forall r, r ∈ records -> r.1 < key) :
    ehashInsertToBucket capacity records key value =
      if records.length < capacity then some (records ++ [(key, value)]) else none := by
  have hlocated := ehashLocateSlot_located hsorted key
  rw [ehashInsertToBucket]
  generalize ehashLocateSlot records key = answer at hlocated
  cases hlocated with
  | @found before after old parts =>
    have hmem : (key, old) ∈ records := by
      rw [parts.eq]
      simp
    exact absurd (hlast _ hmem) (lt_irrefl key)
  | @missing before after parts =>
    have hafter : after = [] := by
      apply eq_nil_iff_forall_not_mem.mpr
      intro r hr
      have hmem : r ∈ records := by
        rw [parts.eq]
        exact mem_append_right _ hr
      exact lt_asymm (hlast r hmem) (parts.after_gt r hr)
    have heq : records = before := by
      rw [parts.eq, hafter, append_nil, append_nil]
    simp only [insertAt, Nat.add_sub_cancel, ← heq, take_length, drop_length]

/-- The structure with records in the first bucket only. -/
def filled (records : Records K V) : Ehash K V :=
  (ehashCreate K V).setBucket 0 { localDepth := 0, records }

omit [LinearOrder K] in
theorem filled_nil : filled ([] : Records K V) = ehashCreate K V := by
  have hsame : Function.update (ehashCreate K V).bucket 0 { localDepth := 0, records := [] } =
      (ehashCreate K V).bucket := Function.update_eq_self 0 _
  rw [filled, setBucket, hsame]

def Succeeds (config : EhashConfig K) (s : Ehash K V) (calls : List (Call K V)) : Prop :=
  System.Follows (fun t call => (call.perform config t).isSome = true) (afterCall config) s calls

theorem perform_filled (value : V) (hsorted : Sorted records)
    (hlast : forall r, r ∈ records -> r.1 < key) (hroom : records.length < config.capacity) :
    (Call.insert key value).perform config (filled records) =
      some (filled (records ++ [(key, value)])) := by
  have hinsert := ehashInsertToBucket_last config.capacity value hsorted hlast
  rw [if_pos hroom] at hinsert
  have hfind : (filled records).findBucketVpid (config.ehashHash key) = some 0 := rfl
  have hbucket : (filled records).bucket 0 = { localDepth := 0, records } :=
    bucket_setBucket_self 0 _
  simp only [Call.perform, ehashInsert, ehashInsertHelper, hfind, hbucket, hinsert]
  simp only [filled, setBucket, Function.update_idem]

theorem fill (value : K -> V) (keys : List K) (rest : List (Call K V))
    (hsorted : Sorted (records ++ keys.map fun key => (key, value key)))
    (hroom : records.length + keys.length <= config.capacity) :
    (Succeeds config (filled (records ++ keys.map fun key => (key, value key))) rest ->
      Succeeds config (filled records) (keys.map (fun key => .insert key (value key)) ++ rest)) ∧
    (keys.map fun key => Call.insert key (value key)).foldl (afterCall config)
      (filled records) = filled (records ++ keys.map fun key => (key, value key)) := by
  induction keys generalizing records with
  | nil =>
    rw [map_nil, append_nil]
    exact ⟨id, rfl⟩
  | cons key keys ih =>
    rw [map_cons, append_cons] at hsorted ⊢
    have hfront := (pairwise_append.mp hsorted).1
    have hparts := pairwise_append.mp hfront
    have hlast : forall r, r ∈ records -> r.1 < key :=
      fun r hr => hparts.2.2 r hr (key, value key) (mem_singleton.mpr rfl)
    rw [length_cons] at hroom
    have hperform := perform_filled (value key) hparts.1 hlast
      (by omega : records.length < config.capacity)
    have hafter : (filled records).afterCall config (.insert key (value key)) =
        filled (records ++ [(key, value key)]) := by
      rw [afterCall, hperform]
      rfl
    obtain ⟨hsucceeds, hfold⟩ := ih hsorted (by
      rw [length_append, length_singleton]
      omega)
    constructor
    · intro hrest
      refine ⟨?_, ?_⟩
      · exact Option.isSome_of_eq_some hperform
      · rw [hafter]
        exact hsucceeds hrest
    · rw [map_cons, foldl_cons, hafter, hfold]

theorem bit_of_even (heven : p % 2 = 0) (pos : Nat) :
    (bit 32 pos p != bit 32 pos (p + 1)) = decide (32 <= pos) := by
  unfold bit
  by_cases hpos : 32 <= pos
  · rw [show 32 - pos = 0 by omega, decide_eq_true hpos, bne_iff_ne]
    omega
  obtain ⟨k, hk⟩ : exists k, 32 - pos = k + 1 := ⟨31 - pos, by omega⟩
  rw [hk, Nat.pow_succ', ← Nat.div_div_eq_div_mul, ← Nat.div_div_eq_div_mul,
    show (p + 1) / 2 = p / 2 by omega, decide_eq_false hpos]
  exact bne_self_eq_false _

omit [LinearOrder K] in
theorem findFirstBitPosition_last (hne : records ≠ []) (heven : p % 2 = 0)
    (hrecords : forall r, r ∈ records -> config.ehashHash r.1 = p)
    (hkey : config.ehashHash key = p + 1) :
    findFirstBitPosition config key { localDepth := 0, records } = 32 := by
  have hdiffers : (fun pos => records.any fun r =>
      bit 32 pos (config.ehashHash r.1) != bit 32 pos (config.ehashHash key)) =
      fun pos => decide (32 <= pos) := by
    funext pos
    obtain ⟨first, rest, hcons⟩ := exists_cons_of_ne_nil hne
    apply Bool.eq_iff_iff.mpr
    rw [any_eq_true, ← bit_of_even heven pos]
    constructor
    · rintro ⟨r, hr, hbit⟩
      rwa [hrecords r hr, hkey] at hbit
    intro hbit
    have hmem : first ∈ records := by
      rw [hcons]
      exact mem_cons_self
    exact ⟨first, hmem, by rwa [hrecords first hmem, hkey]⟩
  unfold findFirstBitPosition
  simp only [hdiffers]
  rfl

omit [LinearOrder K] in
theorem entry_connectBucket_last {t : Ehash K V} (hdepth : t.depth = 32) (hashKey : Nat)
    (vpid : Option Nat) : (t.connectBucket 32 hashKey vpid).bucketVpid 0 = vpid := by
  have hlocation : findOffset hashKey 32 = 0 := Nat.mod_one _
  simp only [connectBucket, hdepth, hlocation]
  rfl

/-- The structure after a page was lost: the only entry that is read is that of the new page. -/
structure Lost (records : Records K V) (key : K) (value : V)
    (result : Ehash K V) : Prop where
  depth : result.depth = 32
  entry : result.bucketVpid 0 = some 1
  new : (result.bucket 1).records = [(key, value)]
  old : (result.bucket 0).records = records
  live : 0 ∈ result.pages

theorem perform_lost (value : V) (hcapacity : 1 <= config.capacity)
    (hfull : records.length = config.capacity) (hsorted : Sorted records)
    (hlast : forall r, r ∈ records -> r.1 < key) (heven : p % 2 = 0)
    (hrecords : forall r, r ∈ records -> config.ehashHash r.1 = p)
    (hkey : config.ehashHash key = p + 1) :
    exists result, (Call.insert key value).perform config (filled records) = some result ∧
      Lost records key value result := by
  have hne : records ≠ [] := by
    intro hnil
    rw [hnil, length_nil] at hfull
    omega
  have hbucket : (filled records).bucket 0 = { localDepth := 0, records } :=
    bucket_setBucket_self 0 _
  have hfind : (filled records).findBucketVpid (config.ehashHash key) = some 0 := rfl
  have hposition : findFirstBitPosition config key ((filled records).bucket 0) = 32 := by
    rw [hbucket]
    exact findFirstBitPosition_last hne heven hrecords hkey
  have hinsert := ehashInsertToBucket_last config.capacity value hsorted hlast
  rw [if_neg (by omega : ¬ records.length < config.capacity)] at hinsert
  have hsplit : SplitTo config (filled records) 0 32
      (ehashExtendBucket config (filled records) 0 key) := by
    apply ehashExtendBucket_splitTo Nat.zero_ne_one hposition
    rw [localDepth, hbucket]
    exact (by decide : 0 ≠ 32)
  have hmoves : forall r, r ∈ records -> ¬ bit 32 32 (config.ehashHash r.1) = 1 := by
    intro r hr
    rw [hrecords r hr]
    unfold bit
    omega
  have hnewBit : bit 32 32 (config.ehashHash key) = 1 := by
    rw [hkey]
    unfold bit
    omega
  obtain ⟨t, hashKey, hlastStep⟩ : exists (t : Ehash K V) (hashKey : Nat),
      ehashExtendBucket config (filled records) 0 key = t.connectBucket 32 hashKey (some 1) := by
    simp only [ehashExtendBucket, hposition]
    exact ⟨_, _, rfl⟩
  have hdepth := hsplit.depth
  have hentry : (t.connectBucket 32 hashKey (some 1)).bucketVpid 0 = some 1 := by
    apply entry_connectBucket_last
    rw [hlastStep, depth_connectBucket] at hdepth
    exact hdepth
  rw [← hlastStep] at hentry
  have hmoved : ((ehashExtendBucket config (filled records) 0 key).bucket 1).records = [] := by
    have hnone := hsplit.moved
    rw [hbucket] at hnone
    rw [show (1 : Nat) = (filled records).nextVpid from rfl, hnone, filter_eq_nil_iff]
    intro r hr hbit
    exact hmoves r hr (beq_iff_eq.mp hbit)
  have hkept : ((ehashExtendBucket config (filled records) 0 key).bucket 0).records = records := by
    rw [hsplit.kept, hbucket, filter_eq_self]
    intro r hr
    rw [Bool.not_eq_true', beq_eq_false_iff_ne]
    exact hmoves r hr
  have hagain := ehashInsertToBucket_last config.capacity value (List.Pairwise.nil : Sorted [])
    (fun r hr => absurd hr not_mem_nil : forall r : K × V, r ∈ [] -> r.1 < key)
  rw [if_pos (by rw [length_nil]; omega), nil_append] at hagain
  have htarget : (filled records).nextVpid = 1 := rfl
  have hfirst : ehashInsertToBucket config.capacity ((filled records).bucket 0).records key value =
      none := by
    rw [hbucket]
    exact hinsert
  refine ⟨(ehashExtendBucket config (filled records) 0 key).setBucket 1
    { (ehashExtendBucket config (filled records) 0 key).bucket 1 with
      records := [(key, value)] }, ?_, ?_, ?_, ?_, ?_, ?_⟩
  · simp only [Call.perform, ehashInsert, ehashInsertHelper, hfind, hfirst, hposition, hnewBit,
      if_true, htarget, hmoved, hagain]
  · exact hdepth
  · exact hentry
  · rw [bucket_setBucket_self]
  · rw [bucket_setBucket_of_ne (by decide), hkept]
  · rw [show (setBucket _ 1 _).pages =
      (ehashExtendBucket config (filled records) 0 key).pages from rfl, hsplit.pages]
    exact mem_cons_of_mem _ (mem_singleton.mpr rfl)

/-- A page full of keys of one pseudo key is lost by a key that differs in the last bit. -/
theorem lost_of_colliding {keys : List K} (hcapacity : 1 <= config.capacity)
    (hfull : keys.length = config.capacity) (hsorted : keys.Pairwise (fun a b => a < b))
    (hlast : forall k, k ∈ keys -> k < key) (heven : p % 2 = 0)
    (hkeys : forall k, k ∈ keys -> config.ehashHash k = p) (hkey : config.ehashHash key = p + 1) :
    Succeeds config (ehashCreate K K) (keys.map (fun k => Call.insert k k) ++ [Call.insert key key]) ∧
      Lost (keys.map fun k => (k, k)) key key
        ((keys.map (fun k => Call.insert k k) ++ [Call.insert key key]).foldl (afterCall config)
          (ehashCreate K K)) := by
  have hrecords : Sorted (keys.map fun k => (k, k)) := by
    rw [Sorted, pairwise_map]
    exact hsorted
  obtain ⟨result, hresult, hlost⟩ := perform_lost key hcapacity (by rw [length_map, hfull]) hrecords
    (by
      intro r hr
      obtain ⟨k, hk, rfl⟩ := mem_map.mp hr
      exact hlast k hk)
    heven
    (by
      intro r hr
      obtain ⟨k, hk, rfl⟩ := mem_map.mp hr
      exact hkeys k hk)
    hkey
  obtain ⟨hsucceeds, hfold⟩ := fill (fun k => k) keys [Call.insert key key]
    (by rwa [nil_append]) (by rw [length_nil, hfull, Nat.zero_add])
  rw [nil_append] at hsucceeds hfold
  rw [← filled_nil]
  constructor
  · exact hsucceeds ⟨Option.isSome_of_eq_some hresult, trivial⟩
  · rw [foldl_append, hfold, foldl_cons, foldl_nil, afterCall, hresult]
    exact hlost

theorem foldl_lookup_insert (keys : List K) (key : K) (found : Option K) :
    (keys.map fun k => Call.insert k k).foldl (Call.lookup key) found =
      if key ∈ keys then some key else found := by
  induction keys generalizing found with
  | nil => rfl
  | cons k keys ih =>
    rw [map_cons, foldl_cons, ih, Call.lookup]
    by_cases hkey : key = k
    · rw [← hkey, if_pos rfl, if_pos mem_cons_self, ite_self]
    · simp only [mem_cons, hkey, false_or, if_false]

theorem Lost.ehashSearch_eq_none {value : V} {result : Ehash K V}
    (h : Lost records key value result) {other : K} (hother : other ≠ key) :
    ehashSearch config result other = none := by
  have hlocation : findOffset (config.ehashHash other) result.depth = 0 := by
    rw [h.depth]
    exact Nat.mod_one _
  have hsorted : Sorted [(key, value)] := pairwise_singleton _ _
  rw [ehashSearch, findBucketVpid, hlocation, h.entry]
  apply Option.eq_none_iff_forall_ne_some.mpr
  intro v hv
  simp only [h.new, searchBucket_eq_some_iff hsorted, mem_singleton] at hv
  exact hother (Prod.mk.inj hv).1

omit [LinearOrder K] in
theorem Lost.not_hasBlock {value : V} {result : Ehash K V} (h : Lost records key value result)
    {r : K × V} (hr : r ∈ records) (hhash : config.ehashHash r.1 = 0) :
    ¬ result.HasBlock config 0 := by
  rintro ⟨block, _, hentries, hstored⟩
  have hblock := hstored r (by rw [h.old]; exact hr)
  rw [hhash, Nat.zero_div, Nat.zero_div] at hblock
  have hfirst := (hentries 0 (Nat.two_pow_pos _)).mpr (by rw [Nat.zero_div, hblock])
  rw [h.entry] at hfirst
  cases hfirst

end

/-!
## Losing a page of object identifiers
-/

def collidingOid (i : Nat) : Oid where
  volid := 0
  pageid := Fin.ofNat (2 ^ 31) (33024 + i)
  slotid := Fin.ofNat (2 ^ 15) (32767 - i)

def partingOid : Oid where
  volid := 256
  pageid := 0
  slotid := 0

def collidingOids (n : Nat) : List Oid :=
  (List.range n).map collidingOid

/-- Some keys of one pseudo key are inserted, and one more key. -/
def losingCalls (n : Nat) : List (Call Oid Oid) :=
  ((collidingOids n).map fun oid => Call.insert oid oid) ++ [.insert partingOid partingOid]

theorem ehashHash_collidingOid :
    forall i, i < 583 -> ehashHashEightBytesType (collidingOid i) = 0 := by
  decide +kernel

theorem collidingOid_pageid : forall i, i < 583 -> (collidingOid i).pageid.val = 33024 + i := by
  decide +kernel

theorem collidingOid_lt {i j : Nat} (hij : i < j) (hj : j < 583) :
    collidingOid i < collidingOid j := by
  rw [Oid.lt_iff, Oid.sortKey, Oid.sortKey, Prod.Lex.toLex_lt_toLex]
  right
  refine ⟨rfl, ?_⟩
  rw [Prod.Lex.toLex_lt_toLex]
  left
  rw [collidingOid_pageid i (by omega), collidingOid_pageid j hj]
  omega

variable {n : Nat}

theorem sorted_collidingOids (hn : n <= 583) : (collidingOids n).Pairwise (fun a b => a < b) := by
  rw [collidingOids, pairwise_map]
  apply pairwise_lt_range.imp_of_mem
  intro i j _ hj hij
  exact collidingOid_lt hij (Nat.lt_of_lt_of_le (mem_range.mp hj) hn)

theorem mem_collidingOids (hn : n <= 583) {oid : Oid} (h : oid ∈ collidingOids n) :
    ehashHashEightBytesType oid = 0 ∧ oid < partingOid := by
  obtain ⟨i, hi, rfl⟩ := mem_map.mp h
  refine ⟨ehashHash_collidingOid i (Nat.lt_of_lt_of_le (mem_range.mp hi) hn), ?_⟩
  rw [Oid.lt_iff, Oid.sortKey, Oid.sortKey, Prod.Lex.toLex_lt_toLex]
  left
  exact (by decide : 0 < 256)

theorem length_collidingOids (n : Nat) : (collidingOids n).length = n := by
  rw [collidingOids, length_map, length_range]

theorem count_losingCalls (hpos : 1 <= n) (hn : n <= 583) (hashKey : Nat) :
    (collidingOids n ++ [partingOid]).countP (fun oid => ehashHashEightBytesType oid == hashKey) <=
      n := by
  rw [countP_append]
  cases Nat.eq_zero_or_pos hashKey with
  | inl hzero =>
    have hlast : [partingOid].countP (fun oid => ehashHashEightBytesType oid == hashKey) = 0 := by
      rw [hzero]
      decide
    rw [hlast, Nat.add_zero]
    exact Nat.le_trans countP_le_length (Nat.le_of_eq (length_collidingOids n))
  | inr hhash =>
    have hnone : (collidingOids n).countP (fun oid => ehashHashEightBytesType oid == hashKey) =
        0 := by
      rw [countP_eq_zero]
      intro oid hoid heq
      rw [(mem_collidingOids hn hoid).1, beq_iff_eq] at heq
      omega
    rw [hnone, Nat.zero_add]
    exact Nat.le_trans countP_le_length hpos

theorem capacity_oidConfig (h : oidConfig.capacity = n) : 1 <= n ∧ n <= 583 := by
  rw [← h]
  decide

theorem lost_losingCalls (h : oidConfig.capacity = n) :
    Succeeds oidConfig (ehashCreate Oid Oid) (losingCalls n) ∧
      Lost ((collidingOids n).map fun oid => (oid, oid)) partingOid partingOid
        ((losingCalls n).foldl (afterCall oidConfig) (ehashCreate Oid Oid)) := by
  obtain ⟨hpos, hn⟩ := capacity_oidConfig h
  exact lost_of_colliding (h ▸ hpos) ((length_collidingOids n).trans h.symm)
    (sorted_collidingOids hn) (fun _ hoid => (mem_collidingOids hn hoid).2) (Nat.zero_mod 2)
    (fun _ hoid => (mem_collidingOids hn hoid).1) (by decide)

/-- The keys that filled the page are not found any more. -/
theorem ehashSearch_losingCalls :
    Succeeds oidConfig (ehashCreate Oid Oid) (losingCalls oidConfig.capacity) ∧
      (forall hashKey, (collidingOids oidConfig.capacity ++ [partingOid]).countP
        (fun oid => ehashHashEightBytesType oid == hashKey) <= oidConfig.capacity) ∧
      forall oid, oid ∈ collidingOids oidConfig.capacity ->
        ehashSearch oidConfig ((losingCalls oidConfig.capacity).foldl (afterCall oidConfig)
            (ehashCreate Oid Oid)) oid = none ∧
          lastInserted oid (losingCalls oidConfig.capacity) = some oid := by
  generalize h : oidConfig.capacity = n
  obtain ⟨hpos, hn⟩ := capacity_oidConfig h
  obtain ⟨hsucceeds, hlost⟩ := lost_losingCalls h
  refine ⟨hsucceeds, count_losingCalls hpos hn, ?_⟩
  intro oid hoid
  have hne : oid ≠ partingOid := ne_of_lt (mem_collidingOids hn hoid).2
  refine ⟨hlost.ehashSearch_eq_none hne, ?_⟩
  rw [lastInserted, losingCalls, foldl_append, foldl_cons, foldl_nil, Call.lookup,
    if_neg hne, foldl_lookup_insert, if_pos hoid]

/-- The bucket that was split is alive, but the entry of its records belongs to another one. -/
theorem not_connected_losingCalls :
    (ehashSystem oidConfig).Reachable ((losingCalls oidConfig.capacity).foldl
        (afterCall oidConfig) (ehashCreate Oid Oid)) ∧
      ¬ Connected oidConfig ((losingCalls oidConfig.capacity).foldl
        (afterCall oidConfig) (ehashCreate Oid Oid)) := by
  generalize h : oidConfig.capacity = n
  obtain ⟨hpos, hn⟩ := capacity_oidConfig h
  obtain ⟨hsucceeds, hlost⟩ := lost_losingCalls h
  constructor
  · exact System.reachable_of_follows (losingCalls n) (hsucceeds.imp fun _ _ _ => trivial)
  intro hconnected
  obtain ⟨oid, hoid⟩ : exists oid, oid ∈ collidingOids n := by
    apply exists_mem_of_length_pos
    rw [length_collidingOids]
    exact hpos
  have hrecord : (oid, oid) ∈ (collidingOids n).map fun oid => (oid, oid) :=
    mem_map_of_mem hoid
  exact hlost.not_hasBlock hrecord (mem_collidingOids hn hoid).1 (hconnected.block 0 hlost.live)

end Rye.Storage.ExtendibleHash
