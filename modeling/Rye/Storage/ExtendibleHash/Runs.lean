import Mathlib.Data.List.Nodup
import Rye.Foundation.Runs
import Rye.Storage.ExtendibleHash.Deletion

/-!
# Runs of the extendible hash

A run is a list of insertions and deletions from the structure as it was created.
As long as every insertion finds room among the keys that share 30 bits of the pseudo
key with its own, the structure is a map and the directory is in order after every call.
-/

namespace Rye.Storage.ExtendibleHash

open Foundation LeadingBits

inductive Call (K V : Type) where
  | insert (key : K) (value : V)
  | delete (key : K)

section

variable {K V : Type} [LinearOrder K]

def Call.perform (config : EhashConfig K) (s : Ehash K V) : Call K V -> Option (Ehash K V)
  | .insert key value => ehashInsert config s key value
  | .delete key => ehashDelete config s key

def Ehash.afterCall (config : EhashConfig K) (s : Ehash K V) (call : Call K V) : Ehash K V :=
  (call.perform config s).getD s

def Ehash.Admits (config : EhashConfig K) (s : Ehash K V) : Call K V -> Prop
  | .insert key _ => s.Roomy config key
  | .delete _ => True

instance (config : EhashConfig K) (s : Ehash K V) (call : Call K V) :
    Decidable (s.Admits config call) :=
  match call with
  | .insert key _ => inferInstanceAs (Decidable (s.Roomy config key))
  | .delete _ => .isTrue trivial

def ehashSystem (config : EhashConfig K) : System (Ehash K V) (Call K V) :=
  System.deterministic (ehashCreate K V) (fun _ _ => True) (Ehash.afterCall config)

def Call.lookup (key : K) (found : Option V) : Call K V -> Option V
  | .insert other value => if key = other then some value else found
  | .delete other => if key = other then none else found

/-- The value of the last insertion of the key that no deletion of it follows. -/
def lastInserted (key : K) (calls : List (Call K V)) : Option V :=
  calls.foldl (Call.lookup key) none

variable {config : EhashConfig K} {s : Ehash K V}

theorem Ehash.Inv.ehashSearch_ext {t : Ehash K V} (h : t.Inv config) {key : K} {found : Option V}
    (hholds : forall value, t.Holds config key value <-> found = some value) :
    ehashSearch config t key = found := by
  apply Option.ext
  intro value
  rw [h.ehashSearch_eq_some_iff, hholds]

theorem Ehash.Inv.afterCall (h : s.Inv config) (hcapacity : 1 <= config.capacity) (call : Call K V)
    (hadmits : s.Admits config call) :
    (s.afterCall config call).Inv config ∧ forall key,
      ehashSearch config (s.afterCall config call) key =
        call.lookup key (ehashSearch config s key) := by
  cases call with
  | insert other value =>
    obtain ⟨result, hresult, hinserted⟩ := ehashInsert_inserted hcapacity h value hadmits
    have hafter : s.afterCall config (.insert other value) = result := by
      rw [Ehash.afterCall, Call.perform, hresult]
      rfl
    rw [hafter]
    refine ⟨hinserted.inv, ?_⟩
    intro key
    apply hinserted.inv.ehashSearch_ext
    intro v
    rw [hinserted.holds, Call.lookup, ← h.ehashSearch_eq_some_iff]
    split_ifs with hkey
    · simp [hkey, eq_comm]
    · simp [hkey]
  | delete other =>
    cases hresult : ehashDelete config s other with
    | none =>
      have hafter : s.afterCall config (.delete other) = s := by
        rw [Ehash.afterCall, Call.perform, hresult]
        rfl
      rw [hafter]
      refine ⟨h, ?_⟩
      intro key
      apply h.ehashSearch_ext
      intro v
      rw [Call.lookup, ← h.ehashSearch_eq_some_iff]
      split_ifs with hkey
      · have hnot := not_holds_of_ehashDelete_none h hresult v
        rw [hkey, h.ehashSearch_eq_some_iff]
        exact iff_of_false hnot nofun
      · rfl
    | some result =>
      have hdeleted := ehashDelete_deleted h hresult
      have hafter : s.afterCall config (.delete other) = result := by
        rw [Ehash.afterCall, Call.perform, hresult]
        rfl
      rw [hafter]
      refine ⟨hdeleted.inv, ?_⟩
      intro key
      apply hdeleted.inv.ehashSearch_ext
      intro v
      rw [hdeleted.holds, Call.lookup, ← h.ehashSearch_eq_some_iff]
      split_ifs with hkey
      · simp [hkey]
      · simp [hkey]

theorem ehashSearch_foldl_afterCall (hcapacity : 1 <= config.capacity) {calls : List (Call K V)}
    (h : s.Inv config)
    (hfollows : System.Follows (Ehash.Admits config) (Ehash.afterCall config) s calls) (key : K) :
    ehashSearch config (calls.foldl (Ehash.afterCall config) s) key =
      calls.foldl (Call.lookup key) (ehashSearch config s key) := by
  induction calls generalizing s with
  | nil => rfl
  | cons call calls ih =>
    obtain ⟨hadmits, hrest⟩ := hfollows
    obtain ⟨hinv, hsearch⟩ := h.afterCall hcapacity call hadmits
    rw [List.foldl_cons, List.foldl_cons, ih hinv hrest, hsearch]

/-- After every run in which each insertion finds room the structure is a map. -/
theorem ehashSearch_eq_lastInserted (config : EhashConfig K) (hcapacity : 1 <= config.capacity)
    (calls : List (Call K V))
    (hfollows : System.Follows (Ehash.Admits config) (Ehash.afterCall config) (ehashCreate K V)
      calls) (key : K) :
    ehashSearch config (calls.foldl (Ehash.afterCall config) (ehashCreate K V)) key =
      lastInserted key calls := by
  have hrun := ehashSearch_foldl_afterCall hcapacity (ehashCreate_inv config) hfollows key
  have hempty : ehashSearch config (ehashCreate K V) key = none := rfl
  rw [hrun, hempty, lastInserted]

/-!
## The directory
-/

/-- The bucket has the entries of one aligned block, and its records belong there. -/
def Ehash.HasBlock (config : EhashConfig K) (s : Ehash K V) (vpid : Nat) : Prop :=
  exists block, block < 2 ^ s.localDepth vpid ∧
    (forall entry, entry < 2 ^ s.depth ->
      (s.bucketVpid entry = some vpid <->
        entry / 2 ^ (s.depth - s.localDepth vpid) = block)) ∧
    forall r, r ∈ (s.bucket vpid).records ->
      config.ehashHash r.1 / 2 ^ (32 - s.depth) / 2 ^ (s.depth - s.localDepth vpid) = block

inductive ShrinkScan (config : EhashConfig K) (s : Ehash K V) (key : K) : Ehash K V -> Prop where
  | merge {vpid sibling loc : Nat} {merged : Ehash K V}
      (find : s.findBucketVpid (config.ehashHash key) = some vpid)
      (check : ehashCheckMergePossible config s vpid (findOffset (config.ehashHash key) s.depth) =
        .successfulCompletion sibling loc)
      (move : ehashMergePermanent config s vpid sibling loc = some merged) :
      ShrinkScan config s key merged
  | remove {vpid : Nat} (find : s.findBucketVpid (config.ehashHash key) = some vpid)
      (check : ehashCheckMergePossible config s vpid (findOffset (config.ehashHash key) s.depth) =
        .noSiblingBucket)
      (empty : (s.bucket vpid).records.length = 0) (deep : (s.bucket vpid).localDepth ≠ 0) :
      ShrinkScan config s key
        (((s.deallocPage vpid).connectBucket (s.bucket vpid).localDepth (config.ehashHash key)
          none).adjustLocalDepth (s.bucket vpid).localDepth (-1))

structure Ehash.Connected (config : EhashConfig K) (s : Ehash K V) : Prop where
  nodup : s.pages.Nodup
  localDepth_le : forall vpid, vpid ∈ s.pages -> s.localDepth vpid <= s.depth
  block : forall vpid, vpid ∈ s.pages -> s.HasBlock config vpid
  counts : forall d, s.localDepthCount d = depthCount s.pages s.localDepth d
  scan : forall key vpid records, s.findBucketVpid (config.ehashHash key) = some vpid ->
    deleteFromBucket (s.bucket vpid).records key = some records ->
    forall t, ShrinkScan config (s.setBucket vpid { s.bucket vpid with records }) key t ->
      exists i, i <= t.depth ∧ scanLocalDepth t.localDepthCount t.depth = some i

theorem Ehash.Inv.hasBlock (h : s.Inv config) {vpid : Nat} (hvpid : vpid ∈ s.pages) :
    s.HasBlock config vpid := by
  have hdepth := h.depth_le
  have hle := h.localDepth_le vpid hvpid
  obtain ⟨p, hp, hfind⟩ := h.layout.reached hvpid
  refine ⟨p / 2 ^ (32 - s.localDepth vpid), ?_, ?_, ?_⟩
  · rw [Nat.div_lt_iff_lt_mul (Nat.two_pow_pos _), ← Nat.pow_add,
      show s.localDepth vpid + (32 - s.localDepth vpid) = 32 by omega]
    exact hp
  · intro entry hentry
    obtain ⟨hlt, hoffset⟩ := findOffset_mul (by omega : s.depth <= 31) hentry
    have hblock := h.layout.block hp hlt hfind
    rw [Ehash.findBucketVpid, hoffset] at hblock
    rw [hblock, Agree, leading_of_le hle (by omega) (entry * _),
      Nat.mul_div_cancel _ (Nat.two_pow_pos _)]
    exact eq_comm
  · intro r hr
    have hstored := h.stored vpid hvpid r hr
    have hagree := (h.layout.block hp (config.ehashHash_lt r.1) hfind).mp hstored
    rw [← leading_of_le hle (by omega)]
    exact hagree.symm

theorem Ehash.Inv.shrinkScan (h : s.Inv config) {key : K} {t : Ehash K V}
    (hscan : ShrinkScan config s key t) :
    exists i, i <= t.depth ∧ scanLocalDepth t.localDepthCount t.depth = some i := by
  cases hscan with
  | merge find check move =>
    obtain ⟨q, hloc, hs⟩ := mergeSiblings h find check
    rw [hloc] at move
    obtain ⟨m, records, hm, _, hstate⟩ := hs.ehashMergePermanent_merged h move
    obtain ⟨i, hi, hle⟩ := (hs.shrunk h hm hstate).1
    exact ⟨i, hle, hi⟩
  | @remove vpid find check empty deep =>
    have hp := config.ehashHash_lt key
    have hvpid := h.layout.live hp find
    obtain ⟨q, hq, _, hpart, hother⟩ := h.layout.sibling hp find (Nat.pos_of_ne_zero deep)
    obtain ⟨b, hb⟩ := Option.ne_none_iff_exists'.mp hother
    have hne : b ≠ vpid := by
      intro heq
      rw [heq] at hb
      exact hpart ((h.layout.block hp hq find).mp hb)
    have hlive := h.layout.live hq hb
    obtain ⟨entries, hconnect⟩ := exists_connectBucket_eq (s.deallocPage vpid)
      (s.bucket vpid).localDepth (config.ehashHash key) none
    rw [hconnect]
    have hcount : Function.update s.localDepthCount (s.localDepth vpid)
        (s.localDepthCount (s.localDepth vpid) + -1) (s.localDepth b) ≠ 0 := by
      have herase := depthCount_erase s.localDepth hvpid (s.localDepth b)
      have hleft : depthCount (s.pages.erase vpid) s.localDepth (s.localDepth b) ≠ 0 :=
        (depthCount_pos_iff _).mpr ⟨b, (List.Nodup.mem_erase_iff h.nodup).mpr ⟨hne, hlive⟩, rfl⟩
      rw [← h.counts] at herase
      rw [Function.update_apply]
      split_ifs with heq
      · rw [heq] at herase hleft
        rw [if_pos rfl] at herase
        omega
      · rw [if_neg (fun hsame : s.localDepth vpid = s.localDepth b => heq hsame.symm)] at herase
        omega
    obtain ⟨i, hi, _, hle, _⟩ := scanLocalDepth_spec (h.localDepth_le b hlive) hcount
    exact ⟨i, hle, hi⟩

theorem Ehash.Inv.connected (h : s.Inv config) : s.Connected config where
  nodup := h.nodup
  localDepth_le := h.localDepth_le
  block := fun _ => h.hasBlock
  counts := h.counts
  scan := fun _ _ _ hfind hdelete _ => (setRecords_deleted h hfind hdelete).inv.shrinkScan

/-- After every run in which each insertion finds room the directory is in order. -/
theorem connected_of_reachable (config : EhashConfig K) (hcapacity : 1 <= config.capacity)
    (s : Ehash K V)
    (hreachable : ((ehashSystem config).guarded (Ehash.Admits config)).Reachable s) :
    s.Connected config := by
  have hinv : s.Inv config := by
    apply hreachable.guarded_invariant (Ehash.Inv config)
    · rintro t rfl
      exact ehashCreate_inv config
    · rintro t call u ht hadmits ⟨_, rfl⟩
      exact (ht.afterCall hcapacity call hadmits).1
  exact hinv.connected

/-- Every key that can be found is visited once, with the value that is found. -/
theorem ehashMap_visits (config : EhashConfig K) (hcapacity : 1 <= config.capacity)
    {s : Ehash K V}
    (hreachable : ((ehashSystem config).guarded (Ehash.Admits config)).Reachable s) :
    exists entries : Records K V, (entries.map Prod.fst).Nodup ∧
      (forall key value, (key, value) ∈ entries <-> ehashSearch config s key = some value) ∧
      forall {M : Type -> Type} [Monad M] [LawfulMonad M] (applyFunction : K -> V -> M PUnit),
        ehashMap s applyFunction = forM entries fun r => applyFunction r.1 r.2 := by
  have hinv : s.Inv config := by
    apply hreachable.guarded_invariant (Ehash.Inv config)
    · rintro t rfl
      exact ehashCreate_inv config
    · rintro t call u ht hadmits ⟨_, rfl⟩
      exact (ht.afterCall hcapacity call hadmits).1
  refine ⟨s.pages.flatMap fun b => (s.bucket b).records, ?_, ?_, ?_⟩
  · rw [List.map_flatMap, List.nodup_flatMap]
    constructor
    · intro b hb
      exact List.pairwise_map.mpr ((hinv.sorted b hb).imp ne_of_lt)
    · -- The pseudo key of a record leads to one page only.
      refine hinv.nodup.imp_of_mem ?_
      intro b c hb hc hne key hkey hkey'
      obtain ⟨r, hr, rfl⟩ := List.mem_map.mp hkey
      obtain ⟨r', hr', heq⟩ := List.mem_map.mp hkey'
      have hstored := hinv.stored c hc r' hr'
      rw [heq, hinv.stored b hb r hr] at hstored
      exact hne (Option.some.inj hstored)
  · intro key value
    rw [hinv.ehashSearch_eq_some_iff, hinv.holds_iff, List.mem_flatMap]
  · intro M _ _ applyFunction
    rw [ehashMap]
    induction s.pages with
    | nil => rfl
    | cons b pages ih => rw [List.forM_cons, List.flatMap_cons, List.forM_append, ih]

end

end Rye.Storage.ExtendibleHash
