import Mathlib.Data.List.Perm.Basic
import Rye.Storage.ExtendibleHash.Directory
import Rye.Storage.ExtendibleHash.Layout

/-!
# The invariant of the extendible hash

The directory gives a layout of the buckets, the records of a bucket are those whose
pseudo keys lead to it, and the counters in the header count the buckets of each
local depth.  Inserting keeps the invariant as long as no directory of a depth over 30
is needed.
-/

namespace Rye.Storage.ExtendibleHash

open Foundation LeadingBits List Function

section

variable {pages : List Nat} {localDepth : Nat -> Nat}

def depthCount (pages : List Nat) (localDepth : Nat -> Nat) (d : Nat) : Int :=
  (pages.countP fun b => localDepth b == d : Nat)

theorem depthCount_erase (localDepth : Nat -> Nat) {b : Nat} (hb : b ∈ pages) (d : Nat) :
    depthCount pages localDepth d =
      depthCount (pages.erase b) localDepth d + if localDepth b = d then 1 else 0 := by
  unfold depthCount
  rw [(perm_cons_erase hb).countP_eq, countP_cons]
  split_ifs with h1 h2 h2
  · rfl
  · exact absurd (beq_iff_eq.mp h1) h2
  · exact absurd (beq_iff_eq.mpr h2) h1
  · rfl

theorem depthCount_congr {localDepth' : Nat -> Nat}
    (h : forall b, b ∈ pages -> localDepth' b = localDepth b) (d : Nat) :
    depthCount pages localDepth' d = depthCount pages localDepth d := by
  unfold depthCount
  rw [countP_congr (fun b hb => by rw [h b hb])]

theorem depthCount_cons {new m : Nat} (hnew : new ∉ pages) (d : Nat) :
    depthCount (new :: pages) (update localDepth new m) d =
      depthCount pages localDepth d + if m = d then 1 else 0 := by
  have hmem : new ∈ new :: pages := mem_cons_self
  have hcons := depthCount_erase (update localDepth new m) hmem d
  rw [hcons, erase_cons_head, update_self]
  congr 1
  apply depthCount_congr
  intro b hb
  exact update_of_ne (fun heq : b = new => hnew (heq ▸ hb)) _ _

theorem depthCount_update (localDepth : Nat -> Nat) {b m : Nat} (hnodup : pages.Nodup)
    (hb : b ∈ pages) (d : Nat) :
    depthCount pages (update localDepth b m) d =
      depthCount pages localDepth d - (if localDepth b = d then 1 else 0) +
        if m = d then 1 else 0 := by
  have hrest : depthCount (pages.erase b) (update localDepth b m) d =
      depthCount (pages.erase b) localDepth d := by
    apply depthCount_congr
    intro c hc
    exact update_of_ne ((List.Nodup.mem_erase_iff hnodup).mp hc).1 _ _
  rw [depthCount_erase _ hb, depthCount_erase localDepth hb, hrest, update_self]
  omega

theorem depthCount_pos_iff (d : Nat) :
    depthCount pages localDepth d ≠ 0 <-> exists b, b ∈ pages ∧ localDepth b = d := by
  unfold depthCount
  rw [Int.natCast_ne_zero, ← Nat.pos_iff_ne_zero, countP_pos_iff]
  simp only [beq_iff_eq]

end

section

variable {K V : Type} {s : Ehash K V}

def Ehash.localDepth (s : Ehash K V) (vpid : Nat) : Nat :=
  (s.bucket vpid).localDepth

variable (vpid : Nat) (bucket : Bucket K V)

theorem localDepth_update :
    (fun b => (update s.bucket vpid bucket b).localDepth) =
      update s.localDepth vpid bucket.localDepth := by
  funext b
  by_cases hb : b = vpid
  · rw [hb, update_self, update_self]
  · rw [update_of_ne hb, update_of_ne hb]
    rfl

theorem localDepth_setBucket :
    (s.setBucket vpid bucket).localDepth = update s.localDepth vpid bucket.localDepth :=
  localDepth_update vpid bucket

theorem bucket_setBucket_self : (s.setBucket vpid bucket).bucket vpid = bucket := by
  simp only [Ehash.setBucket, update_self]

theorem bucket_setBucket_of_ne {b vpid : Nat} (hb : b ≠ vpid) (bucket : Bucket K V) :
    (s.setBucket vpid bucket).bucket b = s.bucket b := by
  simp only [Ehash.setBucket, update_of_ne hb]

def Ehash.Holds (config : EhashConfig K) (s : Ehash K V) (key : K) (value : V) : Prop :=
  exists b, s.findBucketVpid (config.ehashHash key) = some b ∧ (key, value) ∈ (s.bucket b).records

end

section

variable {K V : Type} [LinearOrder K]

structure Ehash.Inv (config : EhashConfig K) (s : Ehash K V) : Prop where
  layout : Layout s.findBucketVpid s.pages s.localDepth
  depth_le : s.depth <= 30
  localDepth_le : forall b, b ∈ s.pages -> s.localDepth b <= s.depth
  nodup : s.pages.Nodup
  fresh : forall b, b ∈ s.pages -> b < s.nextVpid
  nonempty : s.pages ≠ []
  stored : forall b, b ∈ s.pages -> forall r, r ∈ (s.bucket b).records ->
    s.findBucketVpid (config.ehashHash r.1) = some b
  sorted : forall b, b ∈ s.pages -> Sorted (s.bucket b).records
  fits : forall b, b ∈ s.pages -> (s.bucket b).records.length <= config.capacity
  counts : forall d, s.localDepthCount d = depthCount s.pages s.localDepth d

variable {config : EhashConfig K} {s : Ehash K V}

/-- What the invariant says of one bucket. -/
structure Ehash.PageOk (config : EhashConfig K) (s : Ehash K V) (b : Nat) : Prop where
  localDepth_le : s.localDepth b <= s.depth
  fresh : b < s.nextVpid
  stored : forall r, r ∈ (s.bucket b).records -> s.findBucketVpid (config.ehashHash r.1) = some b
  sorted : Sorted (s.bucket b).records
  fits : (s.bucket b).records.length <= config.capacity

theorem Ehash.Inv.of_pages (layout : Layout s.findBucketVpid s.pages s.localDepth)
    (depth_le : s.depth <= 30) (nodup : s.pages.Nodup) (nonempty : s.pages ≠ [])
    (counts : forall d, s.localDepthCount d = depthCount s.pages s.localDepth d)
    (h : forall b, b ∈ s.pages -> s.PageOk config b) : s.Inv config where
  layout := layout
  depth_le := depth_le
  localDepth_le b hb := (h b hb).localDepth_le
  nodup := nodup
  fresh b hb := (h b hb).fresh
  nonempty := nonempty
  stored b hb := (h b hb).stored
  sorted b hb := (h b hb).sorted
  fits b hb := (h b hb).fits
  counts := counts

theorem Ehash.Inv.page_kept {s' : Ehash K V} (h : s.Inv config) {b : Nat} (hb : b ∈ s.pages)
    (hbucket : s'.bucket b = s.bucket b) (hdepth : s.localDepth b <= s'.depth)
    (hnext : s.nextVpid <= s'.nextVpid)
    (hfind : forall {x}, x < 2 ^ 32 -> s.findBucketVpid x = some b ->
      s'.findBucketVpid x = some b) : s'.PageOk config b := by
  constructor
  · rwa [Ehash.localDepth, hbucket]
  · exact Nat.lt_of_lt_of_le (h.fresh b hb) hnext
  · intro r hr
    rw [hbucket] at hr
    exact hfind (config.ehashHash_lt r.1) (h.stored b hb r hr)
  · rw [hbucket]
    exact h.sorted b hb
  · rw [hbucket]
    exact h.fits b hb

theorem Ehash.Inv.holds_iff (h : s.Inv config) {key : K} {value : V} :
    s.Holds config key value <-> exists b, b ∈ s.pages ∧ (key, value) ∈ (s.bucket b).records := by
  constructor
  · rintro ⟨b, hb, hmem⟩
    exact ⟨b, h.layout.live (config.ehashHash_lt key) hb, hmem⟩
  · rintro ⟨b, hb, hmem⟩
    exact ⟨b, h.stored b hb _ hmem, hmem⟩

theorem Ehash.Inv.ehashSearch_eq_some_iff (h : s.Inv config) (key : K) (value : V) :
    ehashSearch config s key = some value <-> s.Holds config key value := by
  unfold ehashSearch Ehash.Holds
  cases hfind : s.findBucketVpid (config.ehashHash key) with
  | none => simp
  | some b =>
    have hb := h.layout.live (config.ehashHash_lt key) hfind
    simp only [searchBucket_eq_some_iff (h.sorted b hb), Option.some.injEq]
    constructor
    · intro hmem
      exact ⟨b, rfl, hmem⟩
    · rintro ⟨c, hbc, hmem⟩
      rw [hbc]
      exact hmem

theorem ehashCreate_inv (config : EhashConfig K) : (ehashCreate K V).Inv config where
  layout :=
    { live := fun _ h => by
        cases h
        exact mem_singleton.mpr rfl
      reached := fun {b} hb => by
        rw [mem_singleton.mp hb]
        exact ⟨0, by decide, rfl⟩
      depth_le := fun _ => Nat.zero_le 32
      block := fun hp hq h => by
        cases h
        exact iff_of_true rfl (agree_zero hp hq)
      sibling := fun _ _ hpos => absurd hpos (Nat.not_succ_le_zero 0) }
  depth_le := Nat.zero_le 30
  localDepth_le := fun _ _ => Nat.le_refl 0
  nodup := pairwise_singleton _ 0
  fresh := fun b hb => by
    rw [mem_singleton.mp hb]
    exact Nat.one_pos
  nonempty := cons_ne_nil 0 []
  stored := fun _ _ r hr => absurd hr not_mem_nil
  sorted := fun _ _ => List.Pairwise.nil
  fits := fun _ _ => Nat.zero_le _
  counts := fun d => by
    cases d with
    | zero | succ d => rfl

/-!
## New records for a bucket
-/

variable {records : Records K V}

theorem Ehash.Inv.setRecords (h : s.Inv config) {vpid : Nat} (hsorted : Sorted records)
    (hfits : records.length <= config.capacity)
    (hstored : forall r, r ∈ records -> s.findBucketVpid (config.ehashHash r.1) = some vpid) :
    (s.setBucket vpid { s.bucket vpid with records }).Inv config := by
  have hdepth : (s.setBucket vpid { s.bucket vpid with records }).localDepth = s.localDepth := by
    rw [localDepth_setBucket]
    exact update_eq_self vpid s.localDepth
  apply Ehash.Inv.of_pages
  · rw [hdepth]
    exact h.layout
  · exact h.depth_le
  · exact h.nodup
  · exact h.nonempty
  · intro d
    rw [hdepth]
    exact h.counts d
  intro b hb
  by_cases hbv : b = vpid
  · subst hbv
    refine ⟨?_, h.fresh b hb, ?_, ?_, ?_⟩
    · rw [hdepth]
      exact h.localDepth_le b hb
    all_goals rw [bucket_setBucket_self]
    · exact hstored
    · exact hsorted
    · exact hfits
  · exact h.page_kept hb (bucket_setBucket_of_ne hbv _) (h.localDepth_le b hb) (Nat.le_refl _)
      (fun _ hfind => hfind)

omit [LinearOrder K] in
theorem holds_setRecords {key : K} {vpid : Nat} {changed : K -> V -> Prop}
    (hfind : s.findBucketVpid (config.ehashHash key) = some vpid)
    (hrecords : forall k v, (k, v) ∈ records <->
      (k = key ∧ changed k v) ∨ ((k, v) ∈ (s.bucket vpid).records ∧ k ≠ key)) (k : K) (v : V) :
    (s.setBucket vpid { s.bucket vpid with records }).Holds config k v <->
      (k = key ∧ changed k v) ∨ (s.Holds config k v ∧ k ≠ key) := by
  have hsame : (s.setBucket vpid { s.bucket vpid with records }).findBucketVpid =
      s.findBucketVpid := rfl
  unfold Ehash.Holds
  rw [hsame]
  constructor
  · rintro ⟨b, hb, hmem⟩
    by_cases hbv : b = vpid
    · rw [hbv, bucket_setBucket_self] at hmem
      cases (hrecords k v).mp hmem with
      | inl hchanged => exact .inl hchanged
      | inr hold =>
        rw [hbv] at hb
        exact .inr ⟨⟨vpid, hb, hold.1⟩, hold.2⟩
    · rw [bucket_setBucket_of_ne hbv] at hmem
      refine .inr ⟨⟨b, hb, hmem⟩, ?_⟩
      intro heq
      rw [heq, hfind] at hb
      exact hbv (Option.some.inj hb).symm
  · rintro (⟨hk, hchanged⟩ | ⟨⟨b, hb, hmem⟩, hk⟩)
    · refine ⟨vpid, hk ▸ hfind, ?_⟩
      rw [bucket_setBucket_self]
      exact (hrecords k v).mpr (.inl ⟨hk, hchanged⟩)
    refine ⟨b, hb, ?_⟩
    by_cases hbv : b = vpid
    · rw [hbv] at hmem ⊢
      rw [bucket_setBucket_self]
      exact (hrecords k v).mpr (.inr ⟨hmem, hk⟩)
    · rw [bucket_setBucket_of_ne hbv]
      exact hmem

end

end Rye.Storage.ExtendibleHash
