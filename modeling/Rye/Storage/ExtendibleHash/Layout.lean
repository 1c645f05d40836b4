import Mathlib.Tactic.ByContra
import Rye.Foundation.LeadingBits

/-!
# Layouts of buckets

A layout says how the pseudo keys are divided among the buckets, whatever the size of
the directory is.  The pseudo keys of a bucket are those that share as many leading
bits as the local depth says.  Some pseudo keys may have no bucket, but never all of
those next to a bucket: a bucket with an empty neighbourhood would have been given
that too.

The three ways in which a layout changes are the creation of a bucket, the split of a
bucket and the merge of two.
-/

namespace Rye.Storage.ExtendibleHash

open Foundation LeadingBits List Function

structure Layout (find : Nat -> Option Nat) (pages : List Nat) (localDepth : Nat -> Nat) :
    Prop where
  live : forall {p b}, p < 2 ^ 32 -> find p = some b -> b ∈ pages
  reached : forall {b}, b ∈ pages -> exists p, p < 2 ^ 32 ∧ find p = some b
  depth_le : forall {b}, b ∈ pages -> localDepth b <= 32
  block : forall {p q b}, p < 2 ^ 32 -> q < 2 ^ 32 -> find p = some b ->
    (find q = some b <-> Agree 32 (localDepth b) p q)
  sibling : forall {p b}, p < 2 ^ 32 -> find p = some b -> 1 <= localDepth b ->
    exists q, q < 2 ^ 32 ∧ Agree 32 (localDepth b - 1) p q ∧ ¬ Agree 32 (localDepth b) p q ∧
      find q ≠ none

variable {find find' : Nat -> Option Nat} {pages : List Nat} {localDepth : Nat -> Nat}

theorem Layout.find_eq_of_agree (h : Layout find pages localDepth) {p q d : Nat} (hp : p < 2 ^ 32)
    (hq : q < 2 ^ 32) (hd : d <= 32) (hagree : Agree 32 d p q)
    (hle : forall b, find p = some b ∨ find q = some b -> localDepth b <= d) :
    find p = find q := by
  cases hfp : find p with
  | some b =>
    have hb := hle b (.inl hfp)
    exact ((h.block hp hq hfp).mpr (hagree.mono hb hd)).symm
  | none =>
    cases hfq : find q with
    | none => rfl
    | some b =>
      have hb := hle b (.inr hfq)
      have hfp' := (h.block hq hp hfq).mpr (hagree.symm.mono hb hd)
      rw [hfp] at hfp'
      exact hfp'

/-!
## One bucket at a time
-/

/-- The pseudo keys of the bucket `b` are those that share `d` leading bits with `p`, and some
pseudo key next to them has a bucket. -/
structure IsBlock (find : Nat -> Option Nat) (b d p : Nat) : Prop where
  lt : p < 2 ^ 32
  depth_le : d <= 32
  found : forall {x}, x < 2 ^ 32 -> (find x = some b <-> Agree 32 d x p)
  sibling : 1 <= d -> exists q, q < 2 ^ 32 ∧ Agree 32 (d - 1) p q ∧ ¬ Agree 32 d p q ∧ find q ≠ none

theorem Layout.isBlock (h : Layout find pages localDepth) {p b : Nat} (hp : p < 2 ^ 32)
    (hb : find p = some b) : IsBlock find b (localDepth b) p where
  lt := hp
  depth_le := h.depth_le (h.live hp hb)
  found hx := (h.block hp hx hb).trans ⟨Agree.symm, Agree.symm⟩
  sibling := h.sibling hp hb

theorem Layout.of_isBlock (hlive : forall {p b}, p < 2 ^ 32 -> find p = some b -> b ∈ pages)
    (h : forall {b}, b ∈ pages -> exists p, IsBlock find b (localDepth b) p) :
    Layout find pages localDepth where
  live := hlive
  reached hb := by
    obtain ⟨p, hp⟩ := h hb
    exact ⟨p, hp.lt, (hp.found hp.lt).mpr (Agree.refl 32 _ p)⟩
  depth_le hb := by
    obtain ⟨p, hp⟩ := h hb
    exact hp.depth_le
  block hx hy hfx := by
    obtain ⟨p, hp⟩ := h (hlive hx hfx)
    have hxp := (hp.found hx).mp hfx
    rw [hp.found hy]
    exact ⟨fun hyp => hxp.trans hyp.symm, fun hxy => hxy.symm.trans hxp⟩
  sibling hx hfx hpos := by
    obtain ⟨p, hp⟩ := h (hlive hx hfx)
    have hxp := (hp.found hx).mp hfx
    obtain ⟨y, hy, hagree, hnot, hfy⟩ := hp.sibling hpos
    refine ⟨y, hy, (hxp.mono (Nat.sub_le _ _) hp.depth_le).trans hagree, ?_, hfy⟩
    exact fun hxy => hnot (hxp.symm.trans hxy)

/-!
## Creation and merge

A block of pseudo keys is given to one bucket.
-/

section

variable (h : Layout find pages localDepth)
include h

theorem Layout.assign {pages' : List Nat} {p m c : Nat} (hp : p < 2 ^ 32) (hm : m <= 32)
    (hc : c ∈ pages') (hown : forall {x}, x < 2 ^ 32 -> find x = some c -> Agree 32 m x p)
    (hinside : forall {x b}, x < 2 ^ 32 -> Agree 32 m x p -> find x = some b -> b ∈ pages' -> b = c)
    (hold : forall {b}, b ∈ pages' -> b ≠ c -> b ∈ pages)
    (houtside : forall {x b}, x < 2 ^ 32 -> ¬ Agree 32 m x p -> find x = some b -> b ∈ pages')
    (hnext : 1 <= m -> exists x, x < 2 ^ 32 ∧ Agree 32 (m - 1) p x ∧ ¬ Agree 32 m p x ∧
      find x ≠ none)
    (hfind : forall x, x < 2 ^ 32 -> find' x = if Agree 32 m x p then some c else find x) :
    Layout find' pages' (update localDepth c m) := by
  have hne : forall {x}, x < 2 ^ 32 -> find x ≠ none -> find' x ≠ none := by
    intro x hx hfx
    rw [hfind x hx]
    split_ifs
    · exact nofun
    · exact hfx
  apply Layout.of_isBlock
  · intro x b hx hfx
    rw [hfind x hx] at hfx
    split_ifs at hfx with hagree
    · rwa [← Option.some.inj hfx]
    · exact houtside hx hagree hfx
  intro b hb
  by_cases hbc : b = c
  · rw [hbc, update_self]
    refine ⟨p, hp, hm, fun {x} hx => ?_, fun hpos => ?_⟩
    · rw [hfind x hx]
      split_ifs with hagree
      · exact iff_of_true rfl hagree
      · exact iff_of_false (fun hfx => hagree (hown hx hfx)) hagree
    · obtain ⟨x, hx, hagree, hnot, hfx⟩ := hnext hpos
      exact ⟨x, hx, hagree, hnot, hne hx hfx⟩
  · obtain ⟨q, hq, hfq⟩ := h.reached (hold hb hbc)
    have hblock := h.isBlock hq hfq
    rw [update_of_ne hbc]
    refine ⟨q, hq, hblock.depth_le, fun {x} hx => ?_, fun hpos => ?_⟩
    · rw [← hblock.found hx, hfind x hx]
      split_ifs with hagree
      · exact iff_of_false (fun heq => hbc (Option.some.inj heq).symm)
          (fun hfx => hbc (hinside hx hagree hfx hb))
      · exact Iff.rfl
    · obtain ⟨x, hx, hagree, hnot, hfx⟩ := hblock.sibling hpos
      exact ⟨x, hx, hagree, hnot, hne hx hfx⟩

theorem Layout.create {p m new : Nat} (hp : p < 2 ^ 32) (hm : m <= 32) (hnew : new ∉ pages)
    (hempty : forall x, x < 2 ^ 32 -> Agree 32 m p x -> find x = none)
    (hnext : 1 <= m -> exists x, x < 2 ^ 32 ∧ Agree 32 (m - 1) p x ∧ ¬ Agree 32 m p x ∧
      find x ≠ none)
    (hfind : forall x, x < 2 ^ 32 -> find' x = if Agree 32 m x p then some new else find x) :
    Layout find' (new :: pages) (update localDepth new m) := by
  refine h.assign hp hm mem_cons_self ?_ ?_ ?_ ?_ hnext hfind
  · exact fun hx hfx => absurd (h.live hx hfx) hnew
  · intro x b hx hagree hfx
    rw [hempty x hx hagree.symm] at hfx
    cases hfx
  · exact fun hb hbn => (mem_cons.mp hb).resolve_left hbn
  · exact fun hx _ hfx => mem_cons_of_mem _ (h.live hx hfx)

theorem Layout.merge (hnodup : pages.Nodup) {p q m gone kept : Nat} (hp : p < 2 ^ 32)
    (hq : q < 2 ^ 32) (hgone : find p = some gone) (hkept : find q = some kept) (hne : kept ≠ gone)
    (hpq : Agree 32 m p q) (hmGone : m <= localDepth gone) (hmKept : m <= localDepth kept)
    (honly : forall x b, x < 2 ^ 32 -> Agree 32 m p x -> find x = some b -> b = gone ∨ b = kept)
    (hnext : 1 <= m -> exists x b, x < 2 ^ 32 ∧ Agree 32 (m - 1) p x ∧ ¬ Agree 32 m p x ∧
      find x = some b)
    (hfind : forall x, x < 2 ^ 32 -> find' x = if Agree 32 m x p then some kept else find x) :
    Layout find' (pages.erase gone) (update localDepth kept m) := by
  have hgoneDepth := h.depth_le (h.live hp hgone)
  have hkeptDepth := h.depth_le (h.live hq hkept)
  have hkeptMem := (mem_erase_of_ne hne).mpr (h.live hq hkept)
  refine h.assign hp (hmKept.trans hkeptDepth) hkeptMem ?_ ?_ ?_ ?_ ?_ hfind
  · intro x hx hfx
    exact (hpq.trans (((h.block hq hx hkept).mp hfx).mono hmKept hkeptDepth)).symm
  · intro x b hx hagree hfx hb
    have hbg : b ≠ gone := ((List.Nodup.mem_erase_iff hnodup).mp hb).1
    exact (honly x b hx hagree.symm hfx).resolve_left hbg
  · exact fun hb _ => mem_of_mem_erase hb
  · intro x b hx hnot hfx
    refine (mem_erase_of_ne ?_).mpr (h.live hx hfx)
    rintro rfl
    exact hnot (((h.block hp hx hgone).mp hfx).mono hmGone hgoneDepth).symm
  · intro hpos
    obtain ⟨x, b, hx, hagree, hnot, hfx⟩ := hnext hpos
    exact ⟨x, hx, hagree, hnot, hfx ▸ nofun⟩

end

/-!
## Split
-/

theorem IsBlock.of_half {c n p y z : Nat} (hn : n < 32) (hy : y < 2 ^ 32) (hz : z < 2 ^ 32)
    (hyp : Agree 32 n y p) (hzp : Agree 32 n z p) (hbit : bit 32 (n + 1) y ≠ bit 32 (n + 1) z)
    (hfz : find z ≠ none)
    (hfind : forall {x}, x < 2 ^ 32 ->
      (find x = some c <-> Agree 32 n x p ∧ bit 32 (n + 1) x = bit 32 (n + 1) y)) :
    IsBlock find c (n + 1) y where
  lt := hy
  depth_le := hn
  found hx := by
    rw [hfind hx, agree_succ_iff hn]
    exact and_congr_left' ⟨fun h => h.trans hyp.symm, fun h => h.trans hyp⟩
  sibling _ := by
    rw [Nat.add_sub_cancel]
    exact ⟨z, hz, hyp.trans hzp.symm, fun h => hbit ((agree_succ_iff hn).mp h).2, hfz⟩

/-- A bucket keeps the pseudo keys that share bits up to the new depth and do not have the bit
there, a new bucket gets those that have it; the others have no bucket any more. -/
theorem Layout.split (h : Layout find pages localDepth) {p n b new : Nat} (hp : p < 2 ^ 32)
    (hb : find p = some b) (hn : localDepth b <= n) (hn32 : n < 32) (hnew : new ∉ pages)
    (hfind : forall x, x < 2 ^ 32 -> find' x =
      if Agree 32 (localDepth b) x p then
        if Agree 32 n x p then if bit 32 (n + 1) x = 1 then some new else some b else none
      else find x) :
    Layout find' (new :: pages) (update (update localDepth b (n + 1)) new (n + 1)) := by
  have hbn : b ≠ new := fun heq => hnew (heq ▸ h.live hp hb)
  have hblock := h.isBlock hp hb
  have hwithin : forall {x}, Agree 32 n x p -> Agree 32 (localDepth b) x p :=
    fun hagree => hagree.mono hn (Nat.le_of_lt hn32)
  have hinside : forall {x}, x < 2 ^ 32 -> Agree 32 n x p ->
      find' x = if bit 32 (n + 1) x = 1 then some new else some b := by
    intro x hx hagree
    rw [hfind x hx, if_pos (hwithin hagree), if_pos hagree]
  have houtside : forall {x}, x < 2 ^ 32 -> ¬ Agree 32 n x p ->
      find' x ≠ some new ∧ find' x ≠ some b := by
    intro x hx hagree
    rw [hfind x hx, if_neg hagree]
    split_ifs with hd
    · exact ⟨nofun, nofun⟩
    · exact ⟨fun hfx => hnew (h.live hx hfx), fun hfx => hd ((hblock.found hx).mp hfx)⟩
  have hother : forall {x c}, x < 2 ^ 32 -> c ≠ b -> c ≠ new ->
      (find' x = some c <-> find x = some c) := by
    intro x c hx hcb hcn
    rw [hfind x hx]
    by_cases hd : Agree 32 (localDepth b) x p
    · rw [if_pos hd, (hblock.found hx).mpr hd]
      refine iff_of_false ?_ (fun heq => hcb (Option.some.inj heq).symm)
      split_ifs
      · exact fun heq => hcn (Option.some.inj heq).symm
      · exact fun heq => hcb (Option.some.inj heq).symm
      · exact nofun
    · rw [if_neg hd]
  -- both halves of the block are there
  obtain ⟨low, hlow, hlowAgree, hlowBit⟩ := exists_agree_bit hp hn32 (.inl rfl)
  obtain ⟨high, hhigh, hhighAgree, hhighBit⟩ := exists_agree_bit hp hn32 (.inr rfl)
  have hlowFind : find' low ≠ none := by
    rw [hinside hlow hlowAgree, hlowBit]
    exact nofun
  have hhighFind : find' high ≠ none := by
    rw [hinside hhigh hhighAgree, hhighBit]
    exact nofun
  apply Layout.of_isBlock
  · intro x c hx hfx
    by_cases hcn : c = new
    · rw [hcn]
      exact mem_cons_self
    apply mem_cons_of_mem
    by_cases hcb : c = b
    · rw [hcb]
      exact h.live hp hb
    · exact h.live hx ((hother hx hcb hcn).mp hfx)
  intro c hc
  by_cases hcn : c = new
  · rw [hcn, update_self]
    refine ⟨high, .of_half hn32 hhigh hlow hhighAgree hlowAgree ?_ hlowFind fun {x} hx => ?_⟩
    · rw [hhighBit, hlowBit]
      decide
    rw [hhighBit]
    by_cases hagree : Agree 32 n x p
    · rw [hinside hx hagree, and_iff_right hagree]
      split_ifs with hbit
      · exact iff_of_true rfl hbit
      · exact iff_of_false (fun heq => hbn (Option.some.inj heq)) hbit
    · exact iff_of_false (houtside hx hagree).1 (fun hx => hagree hx.1)
  rw [update_of_ne hcn]
  by_cases hcb : c = b
  · rw [hcb, update_self]
    refine ⟨low, .of_half hn32 hlow hhigh hlowAgree hhighAgree ?_ hhighFind fun {x} hx => ?_⟩
    · rw [hhighBit, hlowBit]
      decide
    rw [hlowBit]
    by_cases hagree : Agree 32 n x p
    · rw [hinside hx hagree, and_iff_right hagree]
      split_ifs with hbit
      · exact iff_of_false (fun heq => hbn (Option.some.inj heq).symm) (by rw [hbit]; decide)
      · exact iff_of_true rfl ((Nat.mod_two_eq_zero_or_one _).resolve_right hbit)
    · exact iff_of_false (houtside hx hagree).2 (fun hx => hagree hx.1)
  · rw [update_of_ne hcb]
    obtain ⟨x, hx, hfx⟩ := h.reached ((mem_cons.mp hc).resolve_left hcn)
    have hown := h.isBlock hx hfx
    refine ⟨x, hx, hown.depth_le, fun hy => (hother hy hcb hcn).trans (hown.found hy), ?_⟩
    intro hpos
    obtain ⟨y, hy, hagree, hnot, hfy⟩ := hown.sibling hpos
    by_cases hd : Agree 32 (localDepth b) y p
    · -- the bucket that was split lies next to this one, and so does its remaining part
      have hle : localDepth c <= localDepth b := by
        by_contra hlt
        have hc32 := hown.depth_le
        have hxp := (hagree.mono (by omega) (by omega)).trans hd
        rw [(hblock.found hx).mpr hxp] at hfx
        exact hcb (Option.some.inj hfx).symm
      have hylow : Agree 32 (localDepth b) y low := hd.trans (hwithin hlowAgree).symm
      refine ⟨low, hlow, hagree.trans (hylow.mono (by omega) hblock.depth_le), ?_, hlowFind⟩
      exact fun hxz => hnot (hxz.trans (hylow.mono hle hblock.depth_le).symm)
    · refine ⟨y, hy, hagree, hnot, ?_⟩
      rw [hfind y hy, if_neg hd]
      exact hfy

end Rye.Storage.ExtendibleHash
