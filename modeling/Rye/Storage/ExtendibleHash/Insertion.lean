import Rye.Storage.ExtendibleHash.Invariant

/-!
# Inserting keeps the invariant

A key whose entry is null gets a new bucket, and a bucket without room is split until
there is room.  The keys and values that the structure holds change by the inserted
key only.
-/

namespace Rye.Storage.ExtendibleHash

open Foundation LeadingBits List Function

section

variable {K V : Type} [LinearOrder K] {config : EhashConfig K} {s : Ehash K V}

theorem Ehash.Inv.neighbour (h : s.Inv config) {x y b : Nat} (hx : x < 2 ^ 32) (hy : y < 2 ^ 32)
    (hpos : 1 <= s.depth) (hxy : Agree 32 (s.depth - 1) x y) (hfx : s.findBucketVpid x = some b) :
    s.findBucketVpid y ≠ none := by
  have hdepth := h.depth_le
  have hb := h.layout.live hx hfx
  have hle := h.localDepth_le b hb
  cases Nat.lt_or_eq_of_le hle with
  | inl hlt =>
    have hfy := (h.layout.block hx hy hfx).mpr (hxy.mono (by omega) (by omega))
    rw [hfy]
    exact nofun
  | inr heq =>
    by_cases hsame : Agree 32 s.depth x y
    · rw [← findBucketVpid_congr hx hy hdepth hsame, hfx]
      exact nofun
    obtain ⟨z, hz, hxz, hxz', hfz⟩ := h.layout.sibling hx hfx (by omega)
    rw [heq] at hxz hxz'
    obtain ⟨d, hd⟩ : exists d, s.depth = d + 1 := ⟨s.depth - 1, by omega⟩
    have hyz : Agree 32 s.depth y z := by
      rw [hd, Nat.add_sub_cancel] at hxy hxz
      rw [hd] at hsame hxz' ⊢
      exact hxy.other_half (by omega) hxz hsame hxz'
    rwa [findBucketVpid_congr hy hz hdepth hyz]

omit [LinearOrder K] in
theorem exists_pair {j : Nat} (hdepth : s.depth <= 30) (hj : 2 * j + 1 < 2 ^ s.depth) :
    exists x y, x < 2 ^ 32 ∧ y < 2 ^ 32 ∧ 1 <= s.depth ∧
      s.findBucketVpid x = s.bucketVpid (2 * j) ∧ s.findBucketVpid y = s.bucketVpid (2 * j + 1) ∧
      Agree 32 (s.depth - 1) x y ∧ ¬ Agree 32 s.depth x y := by
  have hpos : 1 <= s.depth := by
    by_contra hzero
    rw [Nat.lt_one_iff.mp (Nat.lt_of_not_le hzero)] at hj
    omega
  obtain ⟨hx, hfx⟩ := findOffset_mul (by omega : s.depth <= 31) (by omega : 2 * j < 2 ^ s.depth)
  obtain ⟨hy, hfy⟩ := findOffset_mul (by omega : s.depth <= 31) hj
  refine ⟨_, _, hx, hy, hpos, congrArg s.bucketVpid hfx, congrArg s.bucketVpid hfy, ?_, ?_⟩
  · obtain ⟨d, hd⟩ : exists d, s.depth = d + 1 := ⟨s.depth - 1, by omega⟩
    unfold Agree
    rw [hd, Nat.add_sub_cancel, leading_succ (by omega) (2 * j * _),
      leading_succ (by omega) ((2 * j + 1) * _), Nat.mul_div_cancel _ (Nat.two_pow_pos _), Nat.mul_div_cancel _ (Nat.two_pow_pos _)]
    omega
  · unfold Agree
    rw [Nat.mul_div_cancel _ (Nat.two_pow_pos _), Nat.mul_div_cancel _ (Nat.two_pow_pos _)]
    omega

theorem passes_nil_iff (entry : Option Nat) : passes [] entry = true <-> entry = none := by
  cases entry with
  | none => exact iff_of_true rfl rfl
  | some b => exact iff_of_false nofun nofun

theorem Ehash.Inv.evenStops_nil (h : s.Inv config) : s.EvenStops [] := by
  intro j hj hpass
  obtain ⟨x, y, hx, hy, hpos, hfx, hfy, hagree, _⟩ := exists_pair h.depth_le hj
  rw [passes_nil_iff, ← hfx] at hpass
  rw [passes_nil_iff, ← hfy]
  by_contra hsome
  obtain ⟨b, hb⟩ := Option.ne_none_iff_exists'.mp hsome
  exact h.neighbour hy hx hpos hagree.symm hb hpass

end

/-!
## A new bucket
-/

section

variable {K V : Type} [LinearOrder K] {config : EhashConfig K} {s : Ehash K V}

theorem Ehash.Inv.depth_pos (h : s.Inv config) {p : Nat} (hp : p < 2 ^ 32)
    (hnone : s.findBucketVpid p = none) : 1 <= s.depth := by
  by_contra hzero
  have hdepth : s.depth = 0 := Nat.lt_one_iff.mp (Nat.lt_of_not_le hzero)
  obtain ⟨b, hb⟩ := exists_mem_of_ne_nil _ h.nonempty
  obtain ⟨q, hq, hfq⟩ := h.layout.reached hb
  rw [findBucketVpid_congr hp hq h.depth_le (hdepth ▸ agree_zero hp hq), hfq] at hnone
  cases hnone

theorem insertAfterCreate_spec (h : s.Inv config) {key : K} {value : V} {result : Ehash K V}
    (hnone : s.findBucketVpid (config.ehashHash key) = none)
    (hresult : insertAfterCreate config s key value = some result) :
    result.Inv config ∧ forall k v, result.Holds config k v <->
      (k = key ∧ v = value) ∨ (s.Holds config k v ∧ k ≠ key) := by
  have hhash := config.ehashHash_lt key
  have hdepth := h.depth_le
  have hpos := h.depth_pos hhash hnone
  rw [insertAfterCreate] at hresult
  simp only [findOffset_eq hhash (by omega : s.depth <= 31)] at hresult
  generalize hm : s.depth - s.findDepth (config.ehashHash key / 2 ^ (32 - s.depth)) [] = m
    at hresult
  obtain ⟨hmd, hblock, hnext⟩ := findDepth_block hhash hdepth hpos h.evenStops_nil hm
  cases hrecords : ehashInsertToBucket config.capacity [] key value with
  | none =>
    rw [hrecords] at hresult
    cases hresult
  | some records =>
    simp only [hrecords] at hresult
    obtain ⟨hwritten, hlength⟩ := ehashInsertToBucket_written List.Pairwise.nil hrecords
    have hnewPage : s.nextVpid ∉ s.pages := fun hmem => lt_irrefl _ (h.fresh _ hmem)
    have hempty : forall x, x < 2 ^ 32 -> Agree 32 m (config.ehashHash key) x ->
        s.findBucketVpid x = none := by
      intro x hx hagree
      cases hblock x hx hagree with
      | inr hpass => exact (passes_nil_iff _).mp hpass
      | inl hnear =>
        by_contra hsome
        obtain ⟨b, hb⟩ := Option.ne_none_iff_exists'.mp hsome
        exact h.neighbour hx hhash hpos hnear.symm hb hnone
    have hmem : forall k v, (k, v) ∈ records <-> k = key ∧ v = value := by
      intro k v
      rw [hwritten.mem_iff, Prod.mk.injEq]
      simp
    have hfind : forall x, x < 2 ^ 32 -> result.findBucketVpid x =
        if Agree 32 m x (config.ehashHash key) then some s.nextVpid else s.findBucketVpid x := by
      intro x hx
      rw [← Option.some.inj hresult]
      exact findBucketVpid_connectBucket (s := s.allocPage { localDepth := m, records }) hx hhash
        (by exact Nat.le_of_succ_le hmd) hdepth
    obtain ⟨entries, hentries⟩ := exists_connectBucket_eq
      (s.allocPage { localDepth := m, records }) m (config.ehashHash key) (some s.nextVpid)
    rw [hentries] at hresult
    have hbucket : forall b, b ≠ s.nextVpid -> result.bucket b = s.bucket b := by
      intro b hb
      rw [← Option.some.inj hresult]
      simp only [Ehash.adjustLocalDepth, Ehash.allocPage, update_of_ne hb]
    have hbucketNew : result.bucket s.nextVpid = { localDepth := m, records } := by
      rw [← Option.some.inj hresult]
      simp only [Ehash.adjustLocalDepth, Ehash.allocPage, update_self]
    have hlocal : result.localDepth = Function.update s.localDepth s.nextVpid m := by
      rw [← Option.some.inj hresult]
      exact localDepth_update s.nextVpid { localDepth := m, records }
    have hpages : result.pages = s.nextVpid :: s.pages := by
      rw [← Option.some.inj hresult]
      rfl
    have hnextVpid : result.nextVpid = s.nextVpid + 1 := by
      rw [← Option.some.inj hresult]
      rfl
    have hdepthEq : result.depth = s.depth := by
      rw [← Option.some.inj hresult]
      rfl
    have hold : forall b, b ∈ s.pages -> b ≠ s.nextVpid :=
      fun b hb heq => hnewPage (heq ▸ hb)
    have hinv : result.Inv config := by
      apply Ehash.Inv.of_pages
      · rw [hpages, hlocal]
        apply h.layout.create hhash (by omega) hnewPage hempty _ hfind
        intro hm1
        obtain ⟨x, hx, hagree, hnot, hpass⟩ := hnext hm1
        refine ⟨x, hx, hagree, hnot, ?_⟩
        intro hfx
        rw [(passes_nil_iff _).mpr hfx] at hpass
        cases hpass
      · rw [hdepthEq]
        exact hdepth
      · rw [hpages]
        exact nodup_cons.mpr ⟨hnewPage, h.nodup⟩
      · rw [hpages]
        exact cons_ne_nil _ _
      · intro d
        rw [hpages, hlocal, depthCount_cons hnewPage, ← h.counts d, ← Option.some.inj hresult]
        simp only [Ehash.adjustLocalDepth, Ehash.allocPage, update_apply]
        split_ifs with h1 h2 h2
        · rw [h1]
        · exact absurd h1.symm h2
        · exact absurd h2.symm h1
        · rw [Int.add_zero]
      intro b hb
      rw [hpages] at hb
      rcases mem_cons.mp hb with rfl | hmemb
      · refine ⟨?_, by omega, ?_, ?_, ?_⟩
        · rw [hlocal, update_self]
          omega
        all_goals rw [hbucketNew]
        · intro r hr
          rw [hfind _ (config.ehashHash_lt r.1), ((hmem r.1 r.2).mp hr).1,
            if_pos (Agree.refl _ _ _)]
        · exact hwritten.sorted
        · exact hlength (Nat.zero_le _)
      · apply h.page_kept hmemb (hbucket b (hold b hmemb)) (hdepthEq ▸ h.localDepth_le b hmemb)
          (by omega)
        intro x hx hfx
        rw [hfind x hx, if_neg, hfx]
        intro hagree
        rw [hempty x hx hagree.symm] at hfx
        cases hfx
    refine ⟨hinv, fun k v => ?_⟩
    rw [hinv.holds_iff, hpages]
    constructor
    · rintro ⟨b, hb, hkv⟩
      rcases mem_cons.mp hb with rfl | hb
      · rw [hbucketNew] at hkv
        exact Or.inl ((hmem k v).mp hkv)
      rw [hbucket b (hold b hb)] at hkv
      refine Or.inr ⟨h.holds_iff.mpr ⟨b, hb, hkv⟩, ?_⟩
      rintro rfl
      rw [h.stored b hb _ hkv] at hnone
      cases hnone
    · rintro (hnew | ⟨hheld, _⟩)
      · refine ⟨_, mem_cons_self, ?_⟩
        rw [hbucketNew]
        exact (hmem k v).mpr hnew
      · obtain ⟨b, hb, hkv⟩ := h.holds_iff.mp hheld
        refine ⟨b, mem_cons_of_mem _ hb, ?_⟩
        rwa [hbucket b (hold b hb)]

end

/-!
## A split
-/

section

variable {K V : Type} [LinearOrder K] {config : EhashConfig K} {s : Ehash K V} {n : Nat} {key : K}

theorem firstPosition_eq_some {test : Nat -> Bool} {fuel pos : Nat}
    (h : firstPosition test fuel pos = some n) :
    pos <= n ∧ n < pos + fuel ∧ forall i, pos <= i -> i < n -> test i = false := by
  induction fuel generalizing pos with
  | zero => cases h
  | succ fuel ih =>
    rw [firstPosition] at h
    split_ifs at h with htest
    · cases h
      exact ⟨Nat.le_refl _, by omega, by omega⟩
    obtain ⟨h1, h2, h3⟩ := ih h
    refine ⟨by omega, by omega, ?_⟩
    intro i hi hin
    cases Nat.eq_or_lt_of_le hi with
    | inl heq =>
      rw [← heq]
      exact Bool.eq_false_iff.mpr htest
    | inr hlt => exact h3 i hlt hin

theorem firstPosition_eq_none {test : Nat -> Bool} {fuel pos : Nat}
    (h : firstPosition test fuel pos = none) :
    forall i, pos <= i -> i < pos + fuel -> test i = false := by
  induction fuel generalizing pos with
  | zero =>
    intro i hi hlt
    omega
  | succ fuel ih =>
    rw [firstPosition] at h
    split_ifs at h with htest
    intro i hi hlt
    cases Nat.eq_or_lt_of_le hi with
    | inl heq =>
      rw [← heq]
      exact Bool.eq_false_iff.mpr htest
    | inr hgt => exact ih h i hgt (by omega)

omit [LinearOrder K] in
/-- The records share the bits before the new local depth with the key, and the new local depth is
over 30 only if they share 30 bits. -/
theorem findFirstBitPosition_spec {bucket : Bucket K V} (hd : bucket.localDepth < 32)
    (hrecords : forall r, r ∈ bucket.records ->
      Agree 32 bucket.localDepth (config.ehashHash r.1) (config.ehashHash key)) :
    exists n, findFirstBitPosition config key bucket = n + 1 ∧ bucket.localDepth <= n ∧
      (forall r, r ∈ bucket.records ->
        Agree 32 n (config.ehashHash r.1) (config.ehashHash key)) ∧
      (n + 1 <= 30 ∨ forall r, r ∈ bucket.records ->
        Agree 32 30 (config.ehashHash r.1) (config.ehashHash key)) := by
  have hbits : forall {e}, bucket.localDepth <= e -> e <= 32 ->
      (forall pos, bucket.localDepth + 1 <= pos -> pos <= e -> (bucket.records.any fun r =>
          bit 32 pos (config.ehashHash r.1) != bit 32 pos (config.ehashHash key)) = false) ->
      forall r, r ∈ bucket.records -> Agree 32 e (config.ehashHash r.1) (config.ehashHash key) := by
    intro e hle he hsame r hr
    apply (hrecords r hr).of_bits hle he
    intro pos hpos hpe
    have hnot := any_eq_false.mp (hsame pos hpos hpe) r hr
    simpa using hnot
  simp only [findFirstBitPosition]
  generalize hfirst : firstPosition _ _ _ = first
  cases first with
  | none =>
    have hsame := firstPosition_eq_none hfirst
    refine ⟨bucket.localDepth, rfl, Nat.le_refl _, hrecords, Or.inr ?_⟩
    intro r hr
    have hall := hbits (e := 32) (Nat.le_of_lt hd) (Nat.le_refl 32)
      (fun pos hpos hle => hsame pos hpos (by omega)) r hr
    exact hall.mono (by decide) (Nat.le_refl 32)
  | some n =>
    obtain ⟨hpos, hlt, hsame⟩ := firstPosition_eq_some hfirst
    have hall := hbits (e := n - 1) (by omega) (by omega)
      (fun pos hp hle => hsame pos hp (by omega))
    refine ⟨n - 1, (by simp only [Option.getD_some]; omega), by omega, hall, ?_⟩
    cases Nat.lt_or_ge n 31 with
    | inl hsmall => exact Or.inl (by omega)
    | inr hlarge => exact Or.inr (fun r hr => (hall r hr).mono (by omega) (by omega))

theorem agree_setBit_iff {h x : Nat} (hn : n < 32) (hh : h < 2 ^ 32) :
    Agree 32 (n + 1) x (setBit 32 (n + 1) h) <-> Agree 32 n x h ∧ bit 32 (n + 1) x = 1 := by
  obtain ⟨_, hagree, hbit⟩ := setBit_spec hn hh
  rw [agree_succ_iff hn, hbit]
  exact and_congr_left' ⟨fun hx => hx.trans hagree, fun hx => hx.trans hagree.symm⟩

theorem agree_clearBit_iff {h x : Nat} (hn : n < 32) (hh : h < 2 ^ 32) :
    Agree 32 (n + 1) x (clearBit 32 (n + 1) h) <-> Agree 32 n x h ∧ bit 32 (n + 1) x = 0 := by
  obtain ⟨_, hagree, hbit⟩ := clearBit_spec hn hh
  rw [agree_succ_iff hn, hbit]
  exact and_congr_left' ⟨fun hx => hx.trans hagree, fun hx => hx.trans hagree.symm⟩

/-- The state in which the two halves are not yet connected. -/
def splitCounted (config : EhashConfig K) (s : Ehash K V) (vpid n : Nat) : Ehash K V :=
  ((splitBucket config s vpid n).adjustLocalDepth (s.localDepth vpid) (-1)).adjustLocalDepth n 2

omit [LinearOrder K] in
theorem ehashExtendBucket_eq (vpid : Nat) (key : K)
    (hn : findFirstBitPosition config key (s.bucket vpid) = n) :
    exists entries, ehashExtendBucket config s vpid key =
      { splitCounted config s vpid n with
        depth := if n > s.depth then n else s.depth
        bucketVpid := entries } := by
  unfold ehashExtendBucket
  simp only [hn]
  have hdepth : (((splitBucket config s vpid n).adjustLocalDepth (s.bucket vpid).localDepth
      (-1)).adjustLocalDepth n 2).depth = s.depth := rfl
  rw [hdepth]
  obtain ⟨entries, hexpanded⟩ : exists entries,
      (if n > s.depth then (splitCounted config s vpid n).expandDirectory n
        else splitCounted config s vpid n) =
      { splitCounted config s vpid n with
        depth := if n > s.depth then n else s.depth
        bucketVpid := entries } := by
    split_ifs
    · exact ⟨_, rfl⟩
    · exact ⟨_, rfl⟩
  have hsplit : ((splitBucket config s vpid n).adjustLocalDepth (s.bucket vpid).localDepth
      (-1)).adjustLocalDepth n 2 = splitCounted config s vpid n := rfl
  rw [hsplit, hexpanded]
  split_ifs
  all_goals
    simp only [Ehash.connectBucket]
    split_ifs <;> exact ⟨_, rfl⟩

variable {vpid : Nat}

theorem findBucketVpid_ehashExtendBucket (h : s.Inv config)
    (hfind : s.findBucketVpid (config.ehashHash key) = some vpid)
    (hn : findFirstBitPosition config key (s.bucket vpid) = n + 1) (hle : s.localDepth vpid <= n)
    (hn30 : n + 1 <= 30) {x : Nat} (hx : x < 2 ^ 32) :
    (ehashExtendBucket config s vpid key).findBucketVpid x =
      if Agree 32 (s.localDepth vpid) x (config.ehashHash key) then
        if Agree 32 n x (config.ehashHash key) then
          if bit 32 (n + 1) x = 1 then some s.nextVpid else some vpid
        else none
      else s.findBucketVpid x := by
  have hhash := config.ehashHash_lt key
  have hdepth := h.depth_le
  have hset := (setBit_spec (by omega : n < 32) hhash).1
  have hclear := (clearBit_spec (by omega : n < 32) hhash).1
  have hblock : Agree 32 (s.localDepth vpid) x (config.ehashHash key) <->
      s.findBucketVpid x = some vpid := by
    rw [h.layout.block hhash hx hfind]
    exact ⟨Agree.symm, Agree.symm⟩
  have hbits : bit 32 (n + 1) x = 0 ∨ bit 32 (n + 1) x = 1 := Nat.mod_two_eq_zero_or_one _
  obtain ⟨expanded, hexpanded, hfindExp, hdepthExp, hdepthLe⟩ : exists expanded : Ehash K V,
      (if n + 1 > s.depth then (splitCounted config s vpid (n + 1)).expandDirectory (n + 1)
        else splitCounted config s vpid (n + 1)) = expanded ∧
      expanded.findBucketVpid x = s.findBucketVpid x ∧ n + 1 <= expanded.depth ∧
      expanded.depth <= 30 := by
    refine ⟨_, rfl, ?_⟩
    split_ifs with hgt
    · exact ⟨findBucketVpid_expandDirectory hx (Nat.le_of_lt hgt) hn30, Nat.le_refl _, hn30⟩
    · exact ⟨rfl, Nat.le_of_not_lt hgt, hdepth⟩
  have hunfold : ehashExtendBucket config s vpid key = (if n + 1 - s.localDepth vpid > 1 then
        (expanded.connectBucket (s.localDepth vpid) (config.ehashHash key) none).connectBucket
          (n + 1) (clearBit 32 (n + 1) (config.ehashHash key)) (some vpid)
      else expanded).connectBucket (n + 1) (setBit 32 (n + 1) (config.ehashHash key))
        (some s.nextVpid) := by
    rw [← hexpanded]
    unfold ehashExtendBucket
    simp only [hn]
    rfl
  rw [hunfold]
  by_cases hgap : n + 1 - s.localDepth vpid > 1
  · have hdepth1 : (expanded.connectBucket (s.localDepth vpid) (config.ehashHash key) none).depth =
        expanded.depth := depth_connectBucket _ _ _
    rw [if_pos hgap, findBucketVpid_connectBucket hx hset (by rwa [depth_connectBucket, hdepth1])
      (by rwa [depth_connectBucket, hdepth1]), findBucketVpid_connectBucket hx hclear (by rwa [hdepth1])
      (by rwa [hdepth1]), findBucketVpid_connectBucket hx hhash (by omega) hdepthLe, hfindExp]
    simp only [agree_setBit_iff (by omega : n < 32) hhash, agree_clearBit_iff (by omega : n < 32) hhash]
    by_cases hnear : Agree 32 n x (config.ehashHash key)
    · have hd := hnear.mono hle (by omega)
      cases hbits with
      | inl hlow => simp [hnear, hd, hlow]
      | inr hhigh => simp [hnear, hd, hhigh]
    · simp [hnear]
  · have heq : s.localDepth vpid = n := by omega
    rw [if_neg hgap, findBucketVpid_connectBucket hx hset hdepthExp hdepthLe, hfindExp]
    simp only [agree_setBit_iff (by omega : n < 32) hhash]
    rw [heq] at hblock ⊢
    by_cases hnear : Agree 32 n x (config.ehashHash key)
    · rw [hblock.mp hnear]
      simp [hnear]
    · simp [hnear]

structure SplitTo (config : EhashConfig K) (s : Ehash K V) (vpid n : Nat) (result : Ehash K V) :
    Prop where
  pages : result.pages = s.nextVpid :: s.pages
  nextVpid : result.nextVpid = s.nextVpid + 1
  depth : result.depth = if n > s.depth then n else s.depth
  localDepth : result.localDepth =
    Function.update (Function.update s.localDepth vpid n) s.nextVpid n
  moved : (result.bucket s.nextVpid).records =
    (s.bucket vpid).records.filter fun r => bit 32 n (config.ehashHash r.1) == 1
  kept : (result.bucket vpid).records =
    (s.bucket vpid).records.filter fun r => !(bit 32 n (config.ehashHash r.1) == 1)
  other : forall b, b ≠ vpid -> b ≠ s.nextVpid -> result.bucket b = s.bucket b
  counts : forall d, result.localDepthCount d =
    s.localDepthCount d - (if s.localDepth vpid = d then 1 else 0) + if n = d then 2 else 0

omit [LinearOrder K] in
theorem ehashExtendBucket_splitTo (hvpid : vpid ≠ s.nextVpid)
    (hn : findFirstBitPosition config key (s.bucket vpid) = n) (hne : s.localDepth vpid ≠ n) :
    SplitTo config s vpid n (ehashExtendBucket config s vpid key) := by
  obtain ⟨entries, hresult⟩ := ehashExtendBucket_eq vpid key hn
  rw [hresult]
  constructor
  · rfl
  · rfl
  · rfl
  · funext b
    simp only [splitCounted, Ehash.localDepth, splitBucket, Ehash.setBucket, Ehash.allocPage,
      Ehash.adjustLocalDepth, update_apply]
    split_ifs <;> rfl
  · simp only [splitCounted, splitBucket, Ehash.setBucket, Ehash.allocPage,
      Ehash.adjustLocalDepth, update_self]
  · simp only [splitCounted, splitBucket, Ehash.setBucket, Ehash.allocPage,
      Ehash.adjustLocalDepth, update_of_ne hvpid, update_self]
  · intro b hb hb'
    simp only [splitCounted, splitBucket, Ehash.setBucket, Ehash.allocPage,
      Ehash.adjustLocalDepth, update_of_ne hb', update_of_ne hb]
  · intro d
    simp only [splitCounted, splitBucket, Ehash.setBucket, Ehash.allocPage,
      Ehash.adjustLocalDepth, update_apply]
    split_ifs <;> first | omega | (subst_vars; omega)

theorem ehashExtendBucket_spec (h : s.Inv config)
    (hfind : s.findBucketVpid (config.ehashHash key) = some vpid)
    (hn : findFirstBitPosition config key (s.bucket vpid) = n + 1) (hle : s.localDepth vpid <= n)
    (hn30 : n + 1 <= 30) (hrecords : forall r, r ∈ (s.bucket vpid).records ->
      Agree 32 n (config.ehashHash r.1) (config.ehashHash key)) :
    (ehashExtendBucket config s vpid key).Inv config ∧
      forall k v, (ehashExtendBucket config s vpid key).Holds config k v <->
        s.Holds config k v := by
  have hhash := config.ehashHash_lt key
  have hlive := h.layout.live hhash hfind
  have hnewPage : s.nextVpid ∉ s.pages := fun hmem => lt_irrefl _ (h.fresh _ hmem)
  have hold : forall b, b ∈ s.pages -> b ≠ s.nextVpid := fun b hb heq => hnewPage (heq ▸ hb)
  have hto := ehashExtendBucket_splitTo (hold vpid hlive) hn (by omega)
  have hfindAll := fun x hx =>
    findBucketVpid_ehashExtendBucket (x := x) h hfind hn hle hn30 hx
  generalize ehashExtendBucket config s vpid key = result at hto hfindAll ⊢
  have hblock : forall {x}, x < 2 ^ 32 -> (Agree 32 (s.localDepth vpid) x (config.ehashHash key) <->
      s.findBucketVpid x = some vpid) := by
    intro x hx
    rw [h.layout.block hhash hx hfind]
    exact ⟨Agree.symm, Agree.symm⟩
  -- where the records of the bucket are found afterwards
  have hsent : forall r, r ∈ (s.bucket vpid).records -> result.findBucketVpid (config.ehashHash r.1) =
      if bit 32 (n + 1) (config.ehashHash r.1) = 1 then some s.nextVpid else some vpid := by
    intro r hr
    have hr32 := config.ehashHash_lt r.1
    rw [hfindAll _ hr32, if_pos ((hblock hr32).mpr (h.stored vpid hlive r hr)),
      if_pos (hrecords r hr)]
  have hstay : forall {x b}, x < 2 ^ 32 -> s.findBucketVpid x = some b -> b ≠ vpid ->
      result.findBucketVpid x = some b := by
    intro x b hx hb hne
    rw [hfindAll x hx, if_neg, hb]
    intro hagree
    rw [(hblock hx).mp hagree] at hb
    exact hne (Option.some.inj hb).symm
  have hcases : forall b, b ∈ result.pages ->
      b = s.nextVpid ∨ b = vpid ∨ (b ∈ s.pages ∧ b ≠ vpid ∧ result.bucket b = s.bucket b) := by
    intro b hb
    rw [hto.pages] at hb
    cases mem_cons.mp hb with
    | inl heq => exact Or.inl heq
    | inr hmem =>
      by_cases hbv : b = vpid
      · exact Or.inr (Or.inl hbv)
      · exact Or.inr (Or.inr ⟨hmem, hbv, hto.other b hbv (hold b hmem)⟩)
  have hge : n + 1 <= result.depth ∧ s.depth <= result.depth ∧ result.depth <= 30 := by
    have := h.depth_le
    rw [hto.depth]
    split_ifs <;> omega
  have hinv : result.Inv config := by
    apply Ehash.Inv.of_pages
    · rw [hto.pages, hto.localDepth]
      exact h.layout.split hhash hfind hle (by omega) hnewPage hfindAll
    · exact hge.2.2
    · rw [hto.pages]
      exact nodup_cons.mpr ⟨hnewPage, h.nodup⟩
    · rw [hto.pages]
      exact cons_ne_nil _ _
    · intro d
      rw [hto.counts, hto.pages, hto.localDepth, depthCount_cons hnewPage,
        depthCount_update _ h.nodup hlive, ← h.counts d]
      split_ifs <;> omega
    intro b hb
    have hnext := hto.nextVpid
    rcases hcases b hb with rfl | rfl | ⟨hmem, hbv, hbucket⟩
    · refine ⟨?_, by omega, ?_, ?_, ?_⟩
      · rw [hto.localDepth, update_self]
        exact hge.1
      all_goals rw [hto.moved]
      · intro r hr
        obtain ⟨hr, hbit⟩ := mem_filter.mp hr
        rw [hsent r hr, if_pos (beq_iff_eq.mp hbit)]
      · exact (h.sorted vpid hlive).filter _
      · exact (length_filter_le _ _).trans (h.fits vpid hlive)
    · refine ⟨?_, hnext ▸ Nat.lt_succ_of_lt (h.fresh b hlive), ?_, ?_, ?_⟩
      · rw [hto.localDepth, update_of_ne (hold b hlive), update_self]
        exact hge.1
      all_goals rw [hto.kept]
      · intro r hr
        obtain ⟨hr, hbit⟩ := mem_filter.mp hr
        rw [hsent r hr, if_neg (by simpa using hbit)]
      · exact (h.sorted b hlive).filter _
      · exact (length_filter_le _ _).trans (h.fits b hlive)
    · exact h.page_kept hmem hbucket ((h.localDepth_le b hmem).trans hge.2.1) (by omega)
        (fun hx hfx => hstay hx hfx hbv)
  refine ⟨hinv, fun k v => ?_⟩
  rw [hinv.holds_iff, h.holds_iff]
  constructor
  · rintro ⟨b, hb, hmem⟩
    rcases hcases b hb with rfl | rfl | ⟨hmemb, _, hbucket⟩
    · rw [hto.moved] at hmem
      exact ⟨vpid, hlive, (mem_filter.mp hmem).1⟩
    · rw [hto.kept] at hmem
      exact ⟨b, hlive, (mem_filter.mp hmem).1⟩
    · exact ⟨b, hmemb, hbucket ▸ hmem⟩
  · rintro ⟨b, hb, hmem⟩
    rw [hto.pages]
    by_cases hbv : b = vpid
    · subst hbv
      by_cases hbit : bit 32 (n + 1) (config.ehashHash k) = 1
      · refine ⟨s.nextVpid, mem_cons_self, ?_⟩
        rw [hto.moved]
        exact mem_filter.mpr ⟨hmem, beq_iff_eq.mpr hbit⟩
      · refine ⟨b, mem_cons_of_mem _ hlive, ?_⟩
        rw [hto.kept]
        exact mem_filter.mpr ⟨hmem, by simpa using hbit⟩
    · refine ⟨b, mem_cons_of_mem _ hb, ?_⟩
      rwa [hto.other b hbv (hold b hb)]

end

/-!
## Inserting a key
-/

section

variable {K V : Type} [LinearOrder K] {config : EhashConfig K} {s : Ehash K V}

/-- There is room for the key: it is there already, or fewer keys of its bucket than fit on a page
share 30 bits with it. -/
def Ehash.Roomy (config : EhashConfig K) (s : Ehash K V) (key : K) : Prop :=
  forall b, s.findBucketVpid (config.ehashHash key) = some b ->
    (forall r, r ∈ (s.bucket b).records -> r.1 ≠ key) ->
    ((s.bucket b).records.filter fun r =>
      decide (Agree 32 30 (config.ehashHash r.1) (config.ehashHash key))).length < config.capacity

instance (config : EhashConfig K) (s : Ehash K V) (key : K) : Decidable (s.Roomy config key) :=
  match h : s.findBucketVpid (config.ehashHash key) with
  | none => .isTrue fun b hb => by
      rw [h] at hb
      cases hb
  | some b => decidable_of_iff ((forall r, r ∈ (s.bucket b).records -> r.1 ≠ key) ->
      ((s.bucket b).records.filter fun r =>
        decide (Agree 32 30 (config.ehashHash r.1) (config.ehashHash key))).length <
          config.capacity) (by
    constructor
    · intro hroom c hc
      rw [h] at hc
      cases hc
      exact hroom
    · intro hroomy
      exact hroomy b h)

/-- The structure holds a new value for the key and the old ones for the others. -/
structure Inserted (config : EhashConfig K) (s : Ehash K V) (key : K) (value : V)
    (result : Ehash K V) : Prop where
  inv : result.Inv config
  holds : forall k v, result.Holds config k v <->
    (k = key ∧ v = value) ∨ (s.Holds config k v ∧ k ≠ key)

variable {key : K}

theorem setRecords_inserted (h : s.Inv config) {value : V} {vpid : Nat} {records : Records K V}
    (hfind : s.findBucketVpid (config.ehashHash key) = some vpid)
    (hrecords : ehashInsertToBucket config.capacity (s.bucket vpid).records key value =
      some records) :
    Inserted config s key value (s.setBucket vpid { s.bucket vpid with records }) := by
  have hlive := h.layout.live (config.ehashHash_lt key) hfind
  obtain ⟨hwritten, hlength⟩ := ehashInsertToBucket_written (h.sorted vpid hlive) hrecords
  have hmem : forall k v, (k, v) ∈ records <->
      (k = key ∧ v = value) ∨ ((k, v) ∈ (s.bucket vpid).records ∧ k ≠ key) := by
    intro k v
    rw [hwritten.mem_iff, Prod.mk.injEq]
  constructor
  · apply h.setRecords hwritten.sorted (hlength (h.fits vpid hlive))
    intro r hr
    cases (hmem r.1 r.2).mp hr with
    | inl heq =>
      rw [heq.1]
      exact hfind
    | inr hold => exact h.stored vpid hlive r hold.1
  · exact holds_setRecords hfind hmem

theorem insertAfterCreate_inserted (h : s.Inv config) (hcapacity : 1 <= config.capacity)
    (value : V) (hnone : s.findBucketVpid (config.ehashHash key) = none) :
    exists result, insertAfterCreate config s key value = some result ∧
      Inserted config s key value result := by
  obtain ⟨result, hresult⟩ : exists result, insertAfterCreate config s key value = some result := by
    rw [insertAfterCreate]
    cases hrecords : ehashInsertToBucket config.capacity [] key value with
    | none =>
      have hfull := full_of_ehashInsertToBucket_none List.Pairwise.nil hrecords
      exact absurd (hcapacity.trans hfull.1) (Nat.not_succ_le_zero 0)
    | some records => exact ⟨_, rfl⟩
  obtain ⟨hinv, hholds⟩ := insertAfterCreate_spec h hnone hresult
  exact ⟨result, hresult, hinv, hholds⟩

/-- A full bucket with room by the leading bits is split at one of the first 30 bits. -/
theorem Ehash.Roomy.split (h : s.Inv config) {vpid : Nat} (hroomy : s.Roomy config key)
    (hfind : s.findBucketVpid (config.ehashHash key) = some vpid)
    (hfull : config.capacity <= (s.bucket vpid).records.length)
    (hnew : forall r, r ∈ (s.bucket vpid).records -> r.1 ≠ key) :
    exists n, findFirstBitPosition config key (s.bucket vpid) = n + 1 ∧ s.localDepth vpid <= n ∧
      n + 1 <= 30 ∧ forall r, r ∈ (s.bucket vpid).records ->
        Agree 32 n (config.ehashHash r.1) (config.ehashHash key) := by
  have hhash := config.ehashHash_lt key
  have hlive := h.layout.live hhash hfind
  have hle := h.localDepth_le vpid hlive
  have hdepth := h.depth_le
  have hshare : forall r, r ∈ (s.bucket vpid).records ->
      Agree 32 (s.bucket vpid).localDepth (config.ehashHash r.1) (config.ehashHash key) := by
    intro r hr
    exact (h.layout.block (config.ehashHash_lt r.1) hhash (h.stored vpid hlive r hr)).mp hfind
  obtain ⟨n, hn, hln, hagree, hbound⟩ :=
    findFirstBitPosition_spec (by exact Nat.lt_of_le_of_lt (hle.trans hdepth) (by decide)) hshare
  refine ⟨n, hn, hln, ?_, hagree⟩
  cases hbound with
  | inl hsmall => exact hsmall
  | inr hall =>
    have hcount := hroomy vpid hfind hnew
    rw [filter_eq_self.mpr (fun r hr => decide_eq_true (hall r hr))] at hcount
    exact absurd hfull (Nat.not_le_of_lt hcount)

/-- Every repetition finds a bucket of a greater local depth, so that the key gets in. -/
theorem ehashInsertHelper_inserted (hcapacity : 1 <= config.capacity) (value : V) {fuel : Nat}
    (hpos : 1 <= fuel) (h : s.Inv config) (hroomy : s.Roomy config key)
    (hfuel : forall b, s.findBucketVpid (config.ehashHash key) = some b ->
      31 <= fuel + s.localDepth b) :
    exists result, ehashInsertHelper config fuel s key value = some result ∧
      Inserted config s key value result := by
  induction fuel generalizing s with
  | zero => exact absurd hpos (Nat.not_succ_le_zero 0)
  | succ fuel ih =>
    rw [ehashInsertHelper]
    cases hfind : s.findBucketVpid (config.ehashHash key) with
    | none => exact insertAfterCreate_inserted h hcapacity value hfind
    | some vpid =>
      have hhash := config.ehashHash_lt key
      have hlive := h.layout.live hhash hfind
      cases hrecords : ehashInsertToBucket config.capacity (s.bucket vpid).records key value with
      | some records =>
        simp only [hrecords]
        exact ⟨_, rfl, setRecords_inserted h hfind hrecords⟩
      | none =>
        obtain ⟨hfull, hnew⟩ := full_of_ehashInsertToBucket_none (h.sorted vpid hlive) hrecords
        obtain ⟨n, hn, hln, hn30, hagree⟩ := hroomy.split h hfind hfull hnew
        have hvpid : vpid ≠ s.nextVpid := Nat.ne_of_lt (h.fresh vpid hlive)
        obtain ⟨hinv, hholds⟩ := ehashExtendBucket_spec h hfind hn hln hn30 hagree
        have hto := ehashExtendBucket_splitTo hvpid hn (by omega)
        have hfindKey := findBucketVpid_ehashExtendBucket h hfind hn hln hn30 hhash
        rw [if_pos (Agree.refl _ _ _), if_pos (Agree.refl _ _ _)] at hfindKey
        simp only [hrecords, hn]
        generalize ehashExtendBucket config s vpid key = extended at hinv hholds hto hfindKey ⊢
        -- the bucket of the key holds some of the records that were there
        obtain ⟨target, htarget, hdepth, test, htest⟩ : exists target,
            (if bit 32 (n + 1) (config.ehashHash key) = 1 then s.nextVpid else vpid) = target ∧
            extended.localDepth target = n + 1 ∧ exists test,
              (extended.bucket target).records = (s.bucket vpid).records.filter test := by
          refine ⟨_, rfl, ?_⟩
          rw [hto.localDepth]
          split_ifs
          · exact ⟨update_self _ _ _, _, hto.moved⟩
          · refine ⟨?_, _, hto.kept⟩
            rw [update_of_ne hvpid, update_self]
        have hfindTarget : extended.findBucketVpid (config.ehashHash key) = some target := by
          rw [hfindKey, ← htarget]
          split_ifs <;> rfl
        rw [htarget]
        have hback : forall {result : Ehash K V},
            Inserted config extended key value result -> Inserted config s key value result := by
          intro result hresult
          constructor
          · exact hresult.inv
          · intro k v
            rw [hresult.holds, hholds]
        cases hagain : ehashInsertToBucket config.capacity (extended.bucket target).records key
            value with
        | some records => exact ⟨_, rfl, hback (setRecords_inserted hinv hfindTarget hagain)⟩
        | none =>
          obtain ⟨result, hresult, hinserted⟩ := ih (by have := hfuel vpid hfind; omega) hinv (by
              intro b hb hnot
              rw [hfindTarget] at hb
              rw [← Option.some.inj hb, htest]
              exact Nat.lt_of_le_of_lt (filter_sublist.filter _).length_le (hroomy vpid hfind hnew))
            (by
              intro b hb
              rw [hfindTarget] at hb
              rw [← Option.some.inj hb, hdepth]
              have := hfuel vpid hfind
              omega)
          exact ⟨result, hresult, hback hinserted⟩

theorem ehashInsert_inserted (hcapacity : 1 <= config.capacity) (h : s.Inv config) (value : V)
    (hroomy : s.Roomy config key) :
    exists result, ehashInsert config s key value = some result ∧
      Inserted config s key value result :=
  ehashInsertHelper_inserted hcapacity value (by decide) h hroomy (fun b _ => by omega)

end

end Rye.Storage.ExtendibleHash
