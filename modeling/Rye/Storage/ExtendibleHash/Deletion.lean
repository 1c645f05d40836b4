import Rye.Storage.ExtendibleHash.Insertion

/-!
# Deleting keeps the invariant

A bucket that has become small is merged with its sibling.  The sibling takes over
the block of the two and the empty neighbourhood of that block, and the directory
shrinks to the depth that the remaining buckets need.
-/

namespace Rye.Storage.ExtendibleHash

open Foundation LeadingBits Function

theorem scanLocalDepth_spec {count : Nat -> Int} {top m : Nat} (hm : m <= top) (hne : count m ≠ 0) :
    exists i, scanLocalDepth count top = some i ∧ m <= i ∧ i <= top ∧
      forall j, i < j -> j <= top -> count j = 0 := by
  induction top with
  | zero =>
    have hzero : m = 0 := Nat.le_zero.mp hm
    rw [hzero] at hne
    refine ⟨0, ?_, hm, Nat.le_refl 0, by omega⟩
    rw [scanLocalDepth, if_neg hne]
  | succ top ih =>
    rw [scanLocalDepth]
    split_ifs with hcount
    · have hmtop : m <= top := by
        cases Nat.eq_or_lt_of_le hm with
        | inl heq =>
          rw [heq] at hne
          exact absurd hcount hne
        | inr hlt => exact Nat.le_of_lt_succ hlt
      obtain ⟨i, hi, hmi, hitop, hzero⟩ := ih hmtop
      refine ⟨i, hi, hmi, Nat.le_succ_of_le hitop, ?_⟩
      intro j hij hj
      cases Nat.eq_or_lt_of_le hj with
      | inl heq =>
        rw [heq]
        exact hcount
      | inr hlt => exact hzero j hij (Nat.le_of_lt_succ hlt)
    · exact ⟨top + 1, rfl, hm, Nat.le_refl _, by omega⟩

section

variable {K V : Type} [LinearOrder K] {config : EhashConfig K} {s : Ehash K V}

omit [LinearOrder K] in
theorem ehashCheckMergePossible_eq {vpid location kept loc : Nat}
    (h : ehashCheckMergePossible config s vpid location = .successfulCompletion kept loc) :
    1 <= s.localDepth vpid ∧ loc = siblingLocation s location (s.localDepth vpid) ∧
      s.bucketVpid loc = some kept ∧ kept ≠ vpid ∧ s.localDepth kept = s.localDepth vpid := by
  simp only [ehashCheckMergePossible] at h
  split_ifs at h with hzero
  cases hsibling : s.bucketVpid (siblingLocation s location (s.bucket vpid).localDepth) with
  | none =>
    rw [hsibling] at h
    cases h
  | some sibling =>
    simp only [hsibling] at h
    split_ifs at h with hsame hdepth hfull
    cases h
    exact ⟨Nat.pos_of_ne_zero hzero, rfl, hsibling, hsame, not_not.mp hdepth⟩

omit [LinearOrder K] in
/-- The sibling location belongs to the pseudo keys that part from the given one at the last bit of
the local depth. -/
theorem siblingLocation_spec {p d : Nat} (hp : p < 2 ^ 32) (hd : 1 <= d) (hle : d <= s.depth)
    (hdepth : s.depth <= 30) :
    exists q, q < 2 ^ 32 ∧ q / 2 ^ (32 - s.depth) = siblingLocation s (p / 2 ^ (32 - s.depth)) d ∧
      s.findBucketVpid q = s.bucketVpid (siblingLocation s (p / 2 ^ (32 - s.depth)) d) ∧
      Agree 32 (d - 1) p q ∧ ¬ Agree 32 d p q := by
  have hlead : p / 2 ^ (32 - s.depth) / 2 ^ (s.depth - d) = p / 2 ^ (32 - d) :=
    (leading_of_le hle (by omega) p).symm
  have hplt : p / 2 ^ (32 - s.depth) < 2 ^ s.depth := by
    rw [Nat.div_lt_iff_lt_mul (Nat.two_pow_pos _), ← Nat.pow_add]
    rwa [show s.depth + (32 - s.depth) = 32 by omega]
  have hpow : 2 ^ s.depth = 2 ^ d * 2 ^ (s.depth - d) := by
    rw [← Nat.pow_add, show d + (s.depth - d) = s.depth by omega]
  have heven : 2 ^ d = 2 * 2 ^ (d - 1) := by
    rw [← Nat.pow_succ', Nat.succ_eq_add_one, show d - 1 + 1 = d by omega]
  obtain ⟨loc, hloc, hlt, hhalf, hne⟩ : exists loc,
      siblingLocation s (p / 2 ^ (32 - s.depth)) d = loc ∧ loc < 2 ^ s.depth ∧
      loc / 2 ^ (s.depth - d) / 2 = p / 2 ^ (32 - d) / 2 ∧
      loc / 2 ^ (s.depth - d) ≠ p / 2 ^ (32 - d) := by
    refine ⟨_, rfl, ?_⟩
    simp only [siblingLocation]
    rw [← hlead]
    generalize p / 2 ^ (32 - s.depth) = location at hplt ⊢
    have hpos := Nat.two_pow_pos (s.depth - d)
    generalize 2 ^ (s.depth - d) = size at hpow hpos ⊢
    split_ifs with hbit
    · rw [Nat.add_div_right _ hpos]
      refine ⟨?_, by omega, by omega⟩
      have hsmall : location / size < 2 ^ d := by
        rw [Nat.div_lt_iff_lt_mul hpos, ← hpow]
        exact hplt
      have hnext : location / size + 1 < 2 ^ d := by omega
      have hmod := Nat.mod_lt location hpos
      have hdiv := Nat.div_add_mod location size
      calc location + size < size * (location / size) + size + size := by omega
        _ = (location / size + 1 + 1) * size := by ring
        _ <= 2 ^ d * size := Nat.mul_le_mul_right _ hnext
        _ = 2 ^ s.depth := hpow.symm
    · have hsub := Nat.sub_mul_div location size 1
      rw [Nat.mul_one] at hsub
      rw [hsub]
      generalize location / size = lead at hbit ⊢
      exact ⟨Nat.lt_of_le_of_lt (Nat.sub_le _ _) hplt, by omega, by omega⟩
  obtain ⟨hq, hoffset⟩ := findOffset_mul (by omega : s.depth <= 31) hlt
  have hqlead : loc * 2 ^ (32 - s.depth) / 2 ^ (32 - d) = loc / 2 ^ (s.depth - d) := by
    rw [leading_of_le hle (by omega), Nat.mul_div_cancel _ (Nat.two_pow_pos _)]
  refine ⟨loc * 2 ^ (32 - s.depth), hq, ?_, ?_, ?_, ?_⟩
  · rw [hloc, Nat.mul_div_cancel _ (Nat.two_pow_pos _)]
  · rw [hloc, Ehash.findBucketVpid, hoffset]
  · obtain ⟨e, he⟩ : exists e, d = e + 1 := ⟨d - 1, by omega⟩
    unfold Agree
    rw [he] at hqlead hhalf ⊢
    rw [Nat.add_sub_cancel, leading_succ (by omega) p, leading_succ (by omega) (loc * _), hqlead,
      hhalf]
  · unfold Agree
    rw [hqlead]
    exact fun heq => hne heq.symm

structure Siblings (s : Ehash K V) (p q gone kept : Nat) : Prop where
  p_lt : p < 2 ^ 32
  q_lt : q < 2 ^ 32
  gone_at : s.findBucketVpid p = some gone
  kept_at : s.findBucketVpid q = some kept
  ne : kept ≠ gone
  pos : 1 <= s.localDepth gone
  depth_eq : s.localDepth kept = s.localDepth gone
  agree : Agree 32 (s.localDepth gone - 1) p q
  part : ¬ Agree 32 (s.localDepth gone) p q

theorem Siblings.find_eq (hs : Siblings s p q gone kept) (h : s.Inv config) {x : Nat}
    (hx : x < 2 ^ 32) (hagree : Agree 32 (s.localDepth gone - 1) q x) :
    s.findBucketVpid x = some gone ∨ s.findBucketVpid x = some kept := by
  have hpos := hs.pos
  have h32 := h.layout.depth_le (h.layout.live hs.p_lt hs.gone_at)
  by_cases hq : Agree 32 (s.localDepth gone) q x
  · exact Or.inr ((h.layout.block hs.q_lt hx hs.kept_at).mpr (hs.depth_eq ▸ hq))
  obtain ⟨d, hd⟩ : exists d, s.localDepth gone = d + 1 := ⟨s.localDepth gone - 1, by omega⟩
  have hpart := hs.part
  have hpq := hs.agree
  rw [hd, Nat.add_sub_cancel] at hagree hpq
  rw [hd] at hq hpart h32
  have hpx : Agree 32 (d + 1) p x :=
    hpq.symm.other_half (by omega) hagree (fun hqp => hpart hqp.symm) hq
  exact Or.inl ((h.layout.block hs.p_lt hx hs.gone_at).mpr (hd ▸ hpx))

theorem passes_pair_iff (gone kept : Nat) (entry : Option Nat) :
    passes [gone, kept] entry = true <-> forall b, entry = some b -> b = gone ∨ b = kept := by
  cases entry with
  | none => exact iff_of_true rfl nofun
  | some b => simp [passes]

theorem Siblings.evenStops (hs : Siblings s p q gone kept) (h : s.Inv config) :
    s.EvenStops [gone, kept] := by
  intro j hj hpass
  obtain ⟨x, y, hx, hy, hpos, hfx, hfy, hagree, hpart⟩ := exists_pair h.depth_le hj
  have hdepth := h.depth_le
  rw [passes_pair_iff, ← hfx] at hpass
  rw [passes_pair_iff, ← hfy]
  intro b hb
  obtain ⟨c, hc⟩ := Option.ne_none_iff_exists'.mp (h.neighbour hy hx hpos hagree.symm hb)
  have hle := h.localDepth_le c (h.layout.live hx hc)
  cases Nat.lt_or_eq_of_le hle with
  | inl hlt =>
    have hcy := (h.layout.block hx hy hc).mpr (hagree.mono (by omega) (by omega))
    rw [hb] at hcy
    rw [Option.some.inj hcy]
    exact hpass c hc
  | inr heq =>
    -- the bucket at the even entry is one of the two, so the odd entry belongs to the other one
    have hboth : s.localDepth gone = s.depth ∧ Agree 32 (s.depth - 1) q x := by
      cases hpass c hc with
      | inl hgone =>
        rw [hgone] at hc heq
        have hpx := (h.layout.block hs.p_lt hx hs.gone_at).mp hc
        refine ⟨heq, ?_⟩
        have hpq := hs.agree
        rw [heq] at hpx hpq
        exact hpq.symm.trans (hpx.mono (by omega) (by omega))
      | inr hkept =>
        rw [hkept] at hc heq
        have hqx := (h.layout.block hs.q_lt hx hs.kept_at).mp hc
        rw [heq] at hqx
        exact ⟨hs.depth_eq ▸ heq, hqx.mono (by omega) (by omega)⟩
    have hfound := hs.find_eq h hy (by rw [hboth.1]; exact hboth.2.trans hagree)
    rw [hb] at hfound
    exact hfound.imp Option.some.inj Option.some.inj

theorem Siblings.block (hs : Siblings s p q gone kept) (h : s.Inv config) {m : Nat}
    (hm : s.depth - s.findDepth (q / 2 ^ (32 - s.depth)) [gone, kept] = m) :
    m < s.localDepth gone ∧ Agree 32 m p q ∧
      (forall x b, x < 2 ^ 32 -> Agree 32 m p x -> s.findBucketVpid x = some b ->
        b = gone ∨ b = kept) ∧
      (1 <= m -> exists x b, x < 2 ^ 32 ∧ Agree 32 (m - 1) p x ∧ ¬ Agree 32 m p x ∧
        s.findBucketVpid x = some b) := by
  have hdepth := h.depth_le
  have hpos := hs.pos
  have hle := h.localDepth_le gone (h.layout.live hs.p_lt hs.gone_at)
  obtain ⟨hmd, hblock, hnext⟩ :=
    findDepth_block hs.q_lt hdepth (by omega) (hs.evenStops h) hm
  have hstop : 1 <= m -> exists x b, x < 2 ^ 32 ∧ Agree 32 (m - 1) q x ∧ ¬ Agree 32 m q x ∧
      s.findBucketVpid x = some b ∧ b ≠ gone ∧ b ≠ kept := by
    intro hm1
    obtain ⟨x, hx, hagree, hpart, hpass⟩ := hnext hm1
    cases hfx : s.findBucketVpid x with
    | none =>
      rw [hfx] at hpass
      cases hpass
    | some b =>
      have hnot : ¬ (b = gone ∨ b = kept) := by
        intro hor
        have hpass' := (passes_pair_iff gone kept (some b)).mpr
          (fun c hc => Option.some.inj hc ▸ hor)
        rw [hfx, hpass'] at hpass
        cases hpass
      exact ⟨x, b, hx, hagree, hpart, hfx, fun heq => hnot (Or.inl heq),
        fun heq => hnot (Or.inr heq)⟩
  have hlt : m < s.localDepth gone := by
    by_contra hge
    obtain ⟨x, b, hx, hagree, _, hfx, hbg, hbk⟩ := hstop (by omega)
    have hfound := hs.find_eq h hx (hagree.mono (by omega) (by omega))
    rw [hfx] at hfound
    cases hfound with
    | inl heq => exact hbg (Option.some.inj heq)
    | inr heq => exact hbk (Option.some.inj heq)
  have hpq : Agree 32 m p q := hs.agree.mono (by omega) (by omega)
  refine ⟨hlt, hpq, ?_, ?_⟩
  · intro x b hx hagree hfx
    cases hblock x hx (hpq.symm.trans hagree) with
    | inl hnear =>
      have hfound := hs.find_eq h hx (hnear.mono (by omega) (by omega))
      rw [hfx] at hfound
      exact hfound.imp Option.some.inj Option.some.inj
    | inr hpass => exact (passes_pair_iff gone kept _).mp hpass b hfx
  · intro hm1
    obtain ⟨x, b, hx, hagree, hpart, hfx, _⟩ := hstop hm1
    refine ⟨x, b, hx, (hpq.mono (by omega) (by omega)).trans hagree, ?_, hfx⟩
    exact fun hpx => hpart (hpq.symm.trans hpx)

end

section

variable {K V : Type} {s : Ehash K V}

theorem shrinkDirectoryIfNeed_spec {i : Nat} (hdepth : s.depth <= 30)
    (hscan : scanLocalDepth s.localDepthCount s.depth = some i) (hi : i <= s.depth) :
    exists top entries, s.shrinkDirectoryIfNeed = { s with depth := top, bucketVpid := entries } ∧
      i <= top ∧ top <= s.depth ∧
      forall x, x < 2 ^ 32 -> exists y, y < 2 ^ 32 ∧ Agree 32 i x y ∧
        s.shrinkDirectoryIfNeed.findBucketVpid x = s.findBucketVpid y := by
  simp only [Ehash.shrinkDirectoryIfNeed, hscan]
  split_ifs with hfar
  · have hle : i + 1 <= s.depth := by omega
    refine ⟨i + 1, fun entry => s.bucketVpid (entry * 2 ^ (s.depth - (i + 1))), ?_, by omega, hle, ?_⟩
    · rw [Ehash.shrinkDirectory, if_neg (Nat.not_lt.mpr hle)]
    intro x hx
    refine ⟨_, Nat.lt_of_le_of_lt (Nat.div_mul_le_self _ _) hx, ?_,
      findBucketVpid_shrinkDirectory hx hle hdepth⟩
    exact agree_round.mono (by omega) (by omega)
  · exact ⟨s.depth, s.bucketVpid, rfl, hi, Nat.le_refl _, fun x hx => ⟨x, hx, rfl, rfl⟩⟩

end

/-!
## Merging two siblings
-/

section

variable {K V : Type} [LinearOrder K] {config : EhashConfig K} {s merged final : Ehash K V}
  {p q gone kept : Nat}

/-- The state at which the scan for the new directory depth is made. -/
structure Merged (s : Ehash K V) (gone kept m : Nat) (records : Records K V)
    (merged : Ehash K V) : Prop where
  depth : merged.depth = s.depth
  bucketVpid : merged.bucketVpid = s.bucketVpid
  pages : merged.pages = s.pages.erase gone
  nextVpid : merged.nextVpid = s.nextVpid
  bucket : merged.bucket = Function.update s.bucket kept { localDepth := m, records }
  counts : forall d, merged.localDepthCount d = depthCount merged.pages merged.localDepth d

theorem Siblings.kept_mem (hs : Siblings s p q gone kept) (h : s.Inv config) :
    kept ∈ s.pages.erase gone :=
  (List.Nodup.mem_erase_iff h.nodup).mpr ⟨hs.ne, h.layout.live hs.q_lt hs.kept_at⟩

theorem Siblings.ehashMergePermanent_merged (hs : Siblings s p q gone kept) (h : s.Inv config)
    (hmerged : ehashMergePermanent config s gone kept (q / 2 ^ (32 - s.depth)) = some merged) :
    exists m records, s.depth - s.findDepth (q / 2 ^ (32 - s.depth)) [gone, kept] = m ∧
      moveRecords config.capacity (s.bucket gone).records (s.bucket kept).records = some records ∧
      Merged s gone kept m records merged := by
  obtain ⟨m, hm⟩ : exists m, s.depth - s.findDepth (q / 2 ^ (32 - s.depth)) [gone, kept] = m :=
    ⟨_, rfl⟩
  obtain ⟨hlt, _⟩ := hs.block h hm
  simp only [ehashMergePermanent, hm] at hmerged
  cases hmove : moveRecords config.capacity (s.bucket gone).records (s.bucket kept).records with
  | none =>
    simp only [hmove] at hmerged
    cases hmerged
  | some records =>
    simp only [hmove] at hmerged
    cases hmerged
    refine ⟨m, records, hm, rfl, rfl, rfl, rfl, rfl, rfl, ?_⟩
    intro d
    have hdepths := localDepth_setBucket (s := s) kept { localDepth := m, records }
    have hgone := depthCount_erase s.localDepth (h.layout.live hs.p_lt hs.gone_at) d
    have hkept := depthCount_update s.localDepth (m := m) (h.nodup.erase gone) (hs.kept_mem h) d
    have hcount := h.counts d
    have hsame := hs.depth_eq
    change Function.update (Function.update s.localDepthCount (s.localDepth gone) _) m _ d =
      depthCount (s.pages.erase gone) (s.setBucket kept { localDepth := m, records }).localDepth d
    rw [hdepths, hkept, hsame]
    have hne : m ≠ s.localDepth gone := Nat.ne_of_lt hlt
    by_cases hdm : d = m
    · rw [hdm] at hcount hgone ⊢
      rw [update_self]
      change Function.update s.localDepthCount (s.localDepth gone) _ m + 1 = _
      rw [update_of_ne hne, hcount, hgone, if_neg hne.symm, if_pos rfl]
      omega
    rw [update_of_ne hdm, if_neg (Ne.symm hdm : ¬ m = d)]
    by_cases hdg : d = s.localDepth gone
    · rw [hdg] at hcount hgone ⊢
      rw [if_pos rfl] at hgone ⊢
      rw [update_self]
      change s.localDepthCount (s.localDepth gone) + -2 = _
      omega
    · have hgd : ¬ s.localDepth gone = d := Ne.symm hdg
      rw [if_neg hgd] at hgone
      rw [update_of_ne hdg, if_neg hgd]
      omega

/-- The state after the merge, with the depth of every bucket below that of the directory. -/
structure Shrunk (s merged : Ehash K V) (p m kept : Nat) (final : Ehash K V) : Prop where
  eq : exists top entries, final = { merged with depth := top, bucketVpid := entries }
  depth_le : final.depth <= s.depth
  localDepth_le : forall b, b ∈ merged.pages -> merged.localDepth b <= final.depth
  find : forall x, x < 2 ^ 32 -> final.findBucketVpid x =
    if Agree 32 m x p then some kept else s.findBucketVpid x

variable {m : Nat} {records : Records K V} {key : K}

omit [LinearOrder K] in
theorem Merged.localDepth (hmerged : Merged s gone kept m records merged) :
    merged.localDepth = Function.update s.localDepth kept m := by
  rw [← localDepth_update kept { localDepth := m, records }, ← hmerged.bucket]
  rfl

theorem Siblings.outside (hs : Siblings s p q gone kept) (h : s.Inv config) {x b : Nat}
    (hm : s.depth - s.findDepth (q / 2 ^ (32 - s.depth)) [gone, kept] = m) (hx : x < 2 ^ 32)
    (hpart : ¬ Agree 32 m x p) (hfx : s.findBucketVpid x = some b) : b ≠ gone ∧ b ≠ kept := by
  obtain ⟨hlt, hpq, _⟩ := hs.block h hm
  have h32 := h.layout.depth_le (h.layout.live hs.p_lt hs.gone_at)
  constructor
  · intro heq
    rw [heq] at hfx
    have hpx := (h.layout.block hs.p_lt hx hs.gone_at).mp hfx
    exact hpart (hpx.mono (by omega) h32).symm
  · intro heq
    rw [heq] at hfx
    have hqx := (h.layout.block hs.q_lt hx hs.kept_at).mp hfx
    rw [hs.depth_eq] at hqx
    exact hpart (hpq.trans (hqx.mono (by omega) h32)).symm

theorem Siblings.shrunk (hs : Siblings s p q gone kept) (h : s.Inv config)
    (hm : s.depth - s.findDepth (q / 2 ^ (32 - s.depth)) [gone, kept] = m)
    (hmerged : Merged s gone kept m records merged) :
    (exists i, scanLocalDepth merged.localDepthCount merged.depth = some i ∧ i <= merged.depth) ∧
      Shrunk s merged p m kept (merged.shrinkDirectoryIfNeed.connectBucket m p (some kept)) := by
  obtain ⟨hlt, hpq, _⟩ := hs.block h hm
  have hle := h.localDepth_le gone (h.layout.live hs.p_lt hs.gone_at)
  have hdepth : merged.depth <= 30 := hmerged.depth ▸ h.depth_le
  have hkeptDepth : merged.localDepth kept = m := by
    rw [hmerged.localDepth, update_self]
  have hcount : merged.localDepthCount m ≠ 0 := by
    rw [hmerged.counts, hmerged.pages, depthCount_pos_iff]
    exact ⟨kept, hs.kept_mem h, hkeptDepth⟩
  obtain ⟨i, hscan, hmi, hi, hzero⟩ :=
    scanLocalDepth_spec (by rw [hmerged.depth]; omega : m <= merged.depth) hcount
  obtain ⟨top, entries, hshrunk, hitop, htop, hfind⟩ := shrinkDirectoryIfNeed_spec hdepth hscan hi
  have hdeepest : forall b, b ∈ merged.pages -> merged.localDepth b <= i := by
    intro b hb
    by_contra hgt
    have hbound : merged.localDepth b <= merged.depth := by
      rw [hmerged.localDepth, hmerged.depth]
      by_cases hbk : b = kept
      · rw [hbk, update_self]
        omega
      · rw [update_of_ne hbk]
        rw [hmerged.pages] at hb
        exact h.localDepth_le b (List.mem_of_mem_erase hb)
    have hnone := hzero _ (Nat.lt_of_not_le hgt) hbound
    rw [hmerged.counts] at hnone
    exact (depthCount_pos_iff _).mpr ⟨b, hb, rfl⟩ hnone
  refine ⟨⟨i, hscan, hi⟩, ?_, ?_, ?_, ?_⟩
  · obtain ⟨entries', hconnect⟩ :=
      exists_connectBucket_eq merged.shrinkDirectoryIfNeed m p (some kept)
    exact ⟨top, entries', by rw [hconnect, hshrunk]⟩
  · rw [depth_connectBucket, hshrunk]
    exact hmerged.depth ▸ htop
  · intro b hb
    rw [depth_connectBucket, hshrunk]
    exact Nat.le_trans (hdeepest b hb) hitop
  intro x hx
  have hmtop : m <= merged.shrinkDirectoryIfNeed.depth := by
    rw [hshrunk]
    exact Nat.le_trans hmi hitop
  have htop30 : merged.shrinkDirectoryIfNeed.depth <= 30 := by
    rw [hshrunk]
    exact Nat.le_trans htop hdepth
  rw [findBucketVpid_connectBucket hx hs.p_lt hmtop htop30]
  split_ifs with hagree
  · rfl
  -- the entry read by the smaller directory belongs to the same bucket or is null as well
  obtain ⟨y, hy, hxy, hsame⟩ := hfind x hx
  have hread : merged.findBucketVpid y = s.findBucketVpid y := by
    rw [Ehash.findBucketVpid, hmerged.depth, hmerged.bucketVpid]
    rfl
  rw [hsame, hread]
  symm
  have hypart : ¬ Agree 32 m y p := by
    intro hyp
    exact hagree ((hxy.mono hmi (by omega)).trans hyp)
  have hsmall : forall {z b}, z < 2 ^ 32 -> ¬ Agree 32 m z p -> s.findBucketVpid z = some b ->
      s.localDepth b <= i := by
    intro z b hz hzpart hfz
    obtain ⟨hbg, hbk⟩ := hs.outside h hm hz hzpart hfz
    have hb : b ∈ merged.pages := by
      rw [hmerged.pages]
      exact (List.Nodup.mem_erase_iff h.nodup).mpr ⟨hbg, h.layout.live hz hfz⟩
    have hbound := hdeepest b hb
    rwa [hmerged.localDepth, update_of_ne hbk] at hbound
  apply h.layout.find_eq_of_agree hx hy (by omega : i <= 32) hxy
  intro b hb
  cases hb with
  | inl hfx => exact hsmall hx hagree hfx
  | inr hfy => exact hsmall hy hypart hfy

theorem Siblings.merge_spec (hs : Siblings s p q gone kept) (h : s.Inv config)
    (hm : s.depth - s.findDepth (q / 2 ^ (32 - s.depth)) [gone, kept] = m)
    (hmove : moveRecords config.capacity (s.bucket gone).records (s.bucket kept).records =
      some records) (hmerged : Merged s gone kept m records merged)
    (hfinal : Shrunk s merged p m kept final) :
    final.Inv config ∧ forall k v, final.Holds config k v <-> s.Holds config k v := by
  obtain ⟨hlt, hpq, honly, hnext⟩ := hs.block h hm
  have hgoneMem := h.layout.live hs.p_lt hs.gone_at
  have hkeptMem := h.layout.live hs.q_lt hs.kept_at
  obtain ⟨hsorted, hmem, hlength⟩ :=
    moveRecords_mem (h.sorted kept hkeptMem) (h.fits kept hkeptMem) hmove
  obtain ⟨top, entries, hfields⟩ := hfinal.eq
  have hpages : final.pages = s.pages.erase gone := by
    rw [hfields]
    exact hmerged.pages
  have hbucket : final.bucket = Function.update s.bucket kept { localDepth := m, records } := by
    rw [hfields]
    exact hmerged.bucket
  have hdepths : final.localDepth = Function.update s.localDepth kept m := by
    rw [← hmerged.localDepth, hfields]
    rfl
  -- a pseudo key whose record moves into the sibling lies in the common block
  have hinside : forall r, r ∈ records -> Agree 32 m (config.ehashHash r.1) p := by
    intro r hr
    have hh := config.ehashHash_lt r.1
    by_contra hpart
    cases (hmem r).mp hr with
    | inl hmoved => exact (hs.outside h hm hh hpart (h.stored gone hgoneMem r hmoved)).1 rfl
    | inr hstayed => exact (hs.outside h hm hh hpart (h.stored kept hkeptMem r hstayed)).2 rfl
  have hother : forall {x b}, x < 2 ^ 32 -> b ≠ gone -> b ≠ kept ->
      (final.findBucketVpid x = some b <-> s.findBucketVpid x = some b) := by
    intro x b hx hbg hbk
    rw [hfinal.find x hx]
    split_ifs with hagree
    · constructor
      · intro heq
        exact absurd (Option.some.inj heq).symm hbk
      intro hfx
      cases honly x b hx hagree.symm hfx with
      | inl heq => exact absurd heq hbg
      | inr heq => exact absurd heq hbk
    · rfl
  have hrecords : forall b, b ∈ final.pages -> (b = kept ∧ (final.bucket b).records = records) ∨
      (b ≠ gone ∧ b ≠ kept ∧ b ∈ s.pages ∧ final.bucket b = s.bucket b) := by
    intro b hb
    rw [hpages] at hb
    obtain ⟨hbg, hbs⟩ := (List.Nodup.mem_erase_iff h.nodup).mp hb
    rw [hbucket]
    by_cases hbk : b = kept
    · rw [hbk, update_self]
      exact Or.inl ⟨rfl, rfl⟩
    · rw [update_of_ne hbk]
      exact Or.inr ⟨hbg, hbk, hbs, rfl⟩
  have hinv : final.Inv config := by
    apply Ehash.Inv.of_pages
    · rw [hpages, hdepths]
      exact h.layout.merge h.nodup hs.p_lt hs.q_lt hs.gone_at hs.kept_at hs.ne hpq
        (Nat.le_of_lt hlt) (hs.depth_eq ▸ Nat.le_of_lt hlt) honly hnext hfinal.find
    · exact Nat.le_trans hfinal.depth_le h.depth_le
    · rw [hpages]
      exact h.nodup.erase gone
    · rw [hpages]
      exact List.ne_nil_of_mem (hs.kept_mem h)
    · intro d
      rw [hpages, hdepths, ← hmerged.pages, ← hmerged.localDepth, ← hmerged.counts, hfields]
    intro b hb
    have hdepth := hfinal.localDepth_le b (by rwa [hmerged.pages, ← hpages])
    rw [hmerged.localDepth] at hdepth
    have hnextVpid : final.nextVpid = s.nextVpid := by
      rw [hfields]
      exact hmerged.nextVpid
    rcases hrecords b hb with ⟨rfl, hrec⟩ | ⟨hbg, hbk, hbs, hsame⟩
    · refine ⟨hdepths ▸ hdepth, hnextVpid ▸ h.fresh b hkeptMem, ?_, ?_, ?_⟩
      all_goals rw [hrec]
      · intro r hr
        rw [hfinal.find _ (config.ehashHash_lt r.1), if_pos (hinside r hr)]
      · exact hsorted
      · exact hlength
    · rw [update_of_ne hbk] at hdepth
      exact h.page_kept hbs hsame hdepth (Nat.le_of_eq hnextVpid.symm)
        (fun hx hfx => (hother hx hbg hbk).mpr hfx)
  refine ⟨hinv, fun k v => ?_⟩
  rw [hinv.holds_iff, h.holds_iff]
  constructor
  · rintro ⟨b, hb, hkv⟩
    rcases hrecords b hb with ⟨_, hrec⟩ | ⟨_, _, hbs, hsame⟩
    · rw [hrec] at hkv
      cases (hmem (k, v)).mp hkv with
      | inl hmoved => exact ⟨gone, hgoneMem, hmoved⟩
      | inr hstayed => exact ⟨kept, hkeptMem, hstayed⟩
    · exact ⟨b, hbs, hsame ▸ hkv⟩
  · rintro ⟨b, hb, hkv⟩
    rw [hpages, hbucket]
    by_cases hpair : b = gone ∨ b = kept
    · refine ⟨kept, hs.kept_mem h, ?_⟩
      rw [update_self, hmem]
      cases hpair with
      | inl heq => exact Or.inl (heq ▸ hkv)
      | inr heq => exact Or.inr (heq ▸ hkv)
    · obtain ⟨hbg, hbk⟩ := not_or.mp hpair
      refine ⟨b, (List.Nodup.mem_erase_iff h.nodup).mpr ⟨hbg, hb⟩, ?_⟩
      rwa [update_of_ne hbk]

/-!
## The deletion
-/

theorem mergeSiblings {loc : Nat} (h : s.Inv config)
    (hfind : s.findBucketVpid (config.ehashHash key) = some gone)
    (hcheck : ehashCheckMergePossible config s gone (findOffset (config.ehashHash key) s.depth) =
      .successfulCompletion kept loc) :
    exists q, loc = q / 2 ^ (32 - s.depth) ∧ Siblings s (config.ehashHash key) q gone kept := by
  have hp := config.ehashHash_lt key
  have hdepth := h.depth_le
  rw [findOffset_eq hp (by omega)] at hcheck
  obtain ⟨hpos, hloc, hkept, hne, hsame⟩ := ehashCheckMergePossible_eq hcheck
  have hle := h.localDepth_le gone (h.layout.live hp hfind)
  obtain ⟨q, hq, hqloc, hqfind, hagree, hpart⟩ := siblingLocation_spec hp hpos hle hdepth
  refine ⟨q, by rw [hloc, hqloc], hp, hq, hfind, ?_, hne, hpos, hsame, hagree, hpart⟩
  rw [hqfind, ← hloc, hkept]

/-- Where the check has found the merge possible, the merge keeps the invariant and what the
structure holds. -/
theorem ehashMerge_spec {loc : Nat} (h : s.Inv config)
    (hfind : s.findBucketVpid (config.ehashHash key) = some gone)
    (hcheck : ehashCheckMergePossible config s gone (findOffset (config.ehashHash key) s.depth) =
      .successfulCompletion kept loc) :
    (ehashMerge config s key).Inv config ∧
      forall k v, (ehashMerge config s key).Holds config k v <-> s.Holds config k v := by
  have hentry : s.bucketVpid (findOffset (config.ehashHash key) s.depth) = some gone := hfind
  obtain ⟨q, hloc, hs⟩ := mergeSiblings h hfind hcheck
  simp only [ehashMerge, hentry, hcheck]
  split_ifs
  · cases hmerged : ehashMergePermanent config s gone kept loc with
    | none => exact ⟨h, fun _ _ => Iff.rfl⟩
    | some merged =>
      rw [hloc] at hmerged
      obtain ⟨m, records, hm, hmove, hstate⟩ := hs.ehashMergePermanent_merged h hmerged
      have hdepth : (merged.bucket kept).localDepth = m := by
        rw [hstate.bucket, update_self]
      simp only [hdepth]
      exact hs.merge_spec h hm hmove hstate (hs.shrunk h hm hstate).2
  · exact ⟨h, fun _ _ => Iff.rfl⟩

structure Deleted (config : EhashConfig K) (s : Ehash K V) (key : K) (result : Ehash K V) :
    Prop where
  inv : result.Inv config
  holds : forall k v, result.Holds config k v <-> s.Holds config k v ∧ k ≠ key

theorem setRecords_deleted {vpid : Nat} (h : s.Inv config)
    (hfind : s.findBucketVpid (config.ehashHash key) = some vpid)
    (hdelete : deleteFromBucket (s.bucket vpid).records key = some records) :
    Deleted config s key (s.setBucket vpid { s.bucket vpid with records }) := by
  have hlive := h.layout.live (config.ehashHash_lt key) hfind
  obtain ⟨hsorted, hmem, hlength⟩ := deleteFromBucket_mem (h.sorted vpid hlive) hdelete
  constructor
  · apply h.setRecords hsorted (Nat.le_trans hlength (h.fits vpid hlive))
    intro r hr
    exact h.stored vpid hlive r ((hmem r).mp hr).1
  intro k v
  have hnone : forall k v, (k, v) ∈ records <->
      (k = key ∧ False) ∨ ((k, v) ∈ (s.bucket vpid).records ∧ k ≠ key) := by
    intro k v
    rw [hmem, and_false, false_or]
  rw [holds_setRecords hfind hnone, and_false, false_or]

theorem ehashDelete_deleted {result : Ehash K V} (h : s.Inv config)
    (hdelete : ehashDelete config s key = some result) : Deleted config s key result := by
  simp only [ehashDelete] at hdelete
  cases hfind : s.bucketVpid (findOffset (config.ehashHash key) s.depth) with
  | none =>
    simp only [hfind] at hdelete
    cases hdelete
  | some vpid =>
    simp only [hfind] at hdelete
    cases hrecords : deleteFromBucket (s.bucket vpid).records key with
    | none =>
      simp only [hrecords] at hdelete
      cases hdelete
    | some records =>
      simp only [hrecords] at hdelete
      have hdeleted := setRecords_deleted h hfind hrecords
      split_ifs at hdelete
      · split at hdelete
        · rename_i kept loc hcheck
          cases hdelete
          obtain ⟨hinv, hholds⟩ := ehashMerge_spec hdeleted.inv hfind hcheck
          exact ⟨hinv, fun k v => (hholds k v).trans (hdeleted.holds k v)⟩
        · cases hdelete
          exact hdeleted
      · cases hdelete
        exact hdeleted

theorem not_holds_of_ehashDelete_none (h : s.Inv config)
    (hdelete : ehashDelete config s key = none) (value : V) : ¬ s.Holds config key value := by
  rintro ⟨vpid, hfind, hmem⟩
  have hentry : s.bucketVpid (findOffset (config.ehashHash key) s.depth) = some vpid := hfind
  simp only [ehashDelete, hentry] at hdelete
  cases hrecords : deleteFromBucket (s.bucket vpid).records key with
  | none =>
    have hlive := h.layout.live (config.ehashHash_lt key) hfind
    exact not_mem_of_deleteFromBucket_none (h.sorted vpid hlive) hrecords (key, value) hmem rfl
  | some records =>
    simp only [hrecords] at hdelete
    split_ifs at hdelete
    split at hdelete <;> cases hdelete

end

end Rye.Storage.ExtendibleHash
