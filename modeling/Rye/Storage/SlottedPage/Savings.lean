import Mathlib.Algebra.BigOperators.Group.Finset.Piecewise
import Mathlib.Algebra.Order.BigOperators.Group.Finset
import Rye.Storage.SlottedPage.Contents

/-!
# Savings

The table of a page has one entry for each transaction that saved space there.  The
total of the head is the sum of the entries.  Saving adds to the entry of the
transaction and to the total; the end of the transaction takes its entry away.
-/

namespace Rye.Storage

open Foundation List

/-!
## Entries
-/

def entrySaved (tranid : Tranid) : List SpageSaveEntry -> Int
  | [] => 0
  | entry :: entries => if entry.tranid = tranid then entry.saved else entrySaved tranid entries

variable {tranid : Tranid} {entries : List SpageSaveEntry} {head : Option SpageSaveHead}
    {live : Finset Tranid}

theorem entrySaved_eq_zero (h : entries.any (fun entry => entry.tranid = tranid) = false) :
    entrySaved tranid entries = 0 := by
  induction entries with
  | nil => rfl
  | cons entry entries ih =>
    rw [any_cons, Bool.or_eq_false_iff] at h
    rw [entrySaved, if_neg (of_decide_eq_false h.1), ih h.2]

theorem entrySaved_addSaved (space : Int)
    (h : entries.any (fun entry => entry.tranid = tranid) = true) (other : Tranid) :
    entrySaved other (addSaved tranid space entries) =
      entrySaved other entries + if other = tranid then space else 0 := by
  induction entries with
  | nil => cases h
  | cons entry entries ih =>
    unfold addSaved
    by_cases hentry : entry.tranid = tranid
    · rw [if_pos hentry, entrySaved, entrySaved]
      rw [hentry]
      by_cases hother : tranid = other
      · rw [if_pos hother, if_pos hother, if_pos hother.symm]
      · rw [if_neg hother, if_neg hother, if_neg (Ne.symm hother), Int.add_zero]
    · have hrest : entries.any (fun entry => entry.tranid = tranid) = true := by
        rwa [any_cons, decide_eq_false hentry, Bool.false_or] at h
      rw [if_neg hentry, entrySaved, entrySaved, ih hrest]
      by_cases hother : entry.tranid = other
      · have hne : other ≠ tranid := fun heq => hentry (hother.trans heq)
        rw [if_pos hother, if_pos hother, if_neg hne, Int.add_zero]
      · rw [if_neg hother, if_neg hother]

theorem tranid_addSaved (tranid : Tranid) (space : Int) (entries : List SpageSaveEntry) :
    (addSaved tranid space entries).map SpageSaveEntry.tranid =
      entries.map SpageSaveEntry.tranid := by
  induction entries with
  | nil => rfl
  | cons entry entries ih =>
    unfold addSaved
    split_ifs
    · rfl
    · rw [map_cons, map_cons, ih]

theorem entrySaved_cons (space : Int)
    (h : entries.any (fun entry => entry.tranid = tranid) = false) (other : Tranid) :
    entrySaved other (⟨tranid, space⟩ :: entries) =
      entrySaved other entries + if other = tranid then space else 0 := by
  rw [entrySaved]
  by_cases hother : tranid = other
  · rw [if_pos hother, if_pos hother.symm, ← hother, entrySaved_eq_zero h, Int.zero_add]
  · rw [if_neg hother, if_neg (Ne.symm hother), Int.add_zero]

theorem entrySaved_eraseP (tranid : Tranid) (hnodup : (entries.map SpageSaveEntry.tranid).Nodup)
    (other : Tranid) :
    entrySaved other (entries.eraseP fun entry => entry.tranid = tranid) =
      if other = tranid then 0 else entrySaved other entries := by
  induction entries with
  | nil => rw [eraseP_nil, entrySaved, ite_self]
  | cons entry entries ih =>
    rcases nodup_cons.mp hnodup with ⟨hnotin, hnodup⟩
    by_cases hentry : entry.tranid = tranid
    · rw [eraseP_cons_of_pos (by rw [decide_eq_true_eq]; exact hentry), entrySaved]
      by_cases hother : other = tranid
      · rw [if_pos hother, hother]
        apply entrySaved_eq_zero
        rw [any_eq_false]
        intro e he heq
        apply hnotin
        rw [hentry, ← of_decide_eq_true heq]
        exact mem_map_of_mem he
      · rw [if_neg hother, if_neg (fun heq => hother (heq.symm.trans hentry))]
    · rw [eraseP_cons_of_neg (by rw [decide_eq_true_eq]; exact hentry), entrySaved, entrySaved,
        ih hnodup]
      by_cases hother : entry.tranid = other
      · rw [if_pos hother, if_pos hother, if_neg (fun heq => hentry (hother.trans heq))]
      · rw [if_neg hother, if_neg hother]

theorem entrySaved_find (tranid : Tranid) (entries : List SpageSaveEntry) :
    entrySaved tranid entries =
      match entries.find? (fun entry => entry.tranid = tranid) with
      | none => 0
      | some entry => entry.saved := by
  induction entries with
  | nil => rfl
  | cons entry entries ih =>
    by_cases hentry : entry.tranid = tranid
    · rw [entrySaved, if_pos hentry, find?_cons_of_pos (by rw [decide_eq_true_eq]; exact hentry)]
    · rw [entrySaved, if_neg hentry, ih,
        find?_cons_of_neg (by rw [decide_eq_true_eq]; exact hentry)]

/-!
## The table
-/

def savedSpace (head : Option SpageSaveHead) (tranid : Tranid) : Int :=
  match head with
  | none => 0
  | some head => entrySaved tranid head.entries

def totalSavedSpace (head : Option SpageSaveHead) : Int :=
  match head with
  | none => 0
  | some head => head.totalSaved

/-- Only the transactions in `live` have savings, and the total is their sum. -/
structure SaveTable (head : Option SpageSaveHead) (live : Finset Tranid) : Prop where
  total : totalSavedSpace head = ∑ tranid ∈ live, savedSpace head tranid
  nonneg : forall tranid, 0 <= savedSpace head tranid
  outside : forall tranid, tranid ∉ live -> savedSpace head tranid = 0
  nodup : forall head', head = some head' -> (head'.entries.map SpageSaveEntry.tranid).Nodup

theorem saveTable_none : SaveTable none ∅ :=
  ⟨rfl, fun _ => le_refl 0, fun _ _ => rfl, nofun⟩

/-- `space` was added to the savings of a transaction. -/
structure Saved (head head' : Option SpageSaveHead) (tranid : Tranid) (space : Int) : Prop where
  total : totalSavedSpace head' = totalSavedSpace head + space
  saved : forall other, savedSpace head' other =
    savedSpace head other + if other = tranid then space else 0
  nodup : (forall h, head = some h -> (h.entries.map SpageSaveEntry.tranid).Nodup) ->
    forall h, head' = some h -> (h.entries.map SpageSaveEntry.tranid).Nodup

theorem saved_zero (head : Option SpageSaveHead) (tranid : Tranid) : Saved head head tranid 0 where
  total := (Int.add_zero _).symm
  saved other := by rw [ite_self, Int.add_zero]
  nodup h := h

variable {head' : Option SpageSaveHead}

theorem SaveTable.save {space : Int} (h : SaveTable head live)
    (hsaved : Saved head head' tranid space) (hlive : tranid ∈ live) (hspace : 0 <= space) :
    SaveTable head' live where
  total := by
    have hsum : ∑ other ∈ live, savedSpace head' other =
        ∑ other ∈ live, (savedSpace head other + if other = tranid then space else 0) :=
      Finset.sum_congr rfl fun other _ => hsaved.saved other
    rw [hsaved.total, h.total, hsum, Finset.sum_add_distrib, Finset.sum_ite_eq', if_pos hlive]
  nonneg other := by
    have hold := h.nonneg other
    rw [hsaved.saved]
    split_ifs <;> omega
  outside other hother := by
    have hne : other ≠ tranid := fun heq => hother (by rwa [heq])
    rw [hsaved.saved, h.outside other hother, if_neg hne, Int.add_zero]
  nodup := hsaved.nodup h.nodup

theorem SaveTable.insert (h : SaveTable head live) (hlive : tranid ∉ live) :
    SaveTable head (insert tranid live) where
  total := by rw [h.total, Finset.sum_insert hlive, h.outside tranid hlive, Int.zero_add]
  nonneg := h.nonneg
  outside other hother := h.outside other fun hmem => hother (Finset.mem_insert_of_mem hmem)
  nodup := h.nodup

variable {thread : ThreadEntry}

theorem spageSaveSpace_saved (hactive : thread.isActive = true)
    (hcrash : thread.inCrashRecovery = false) (hhead : thread.mallocHead = true)
    (hentry : thread.mallocEntry = true) (page : SpagePage) (space : Int) :
    exists head', spageSaveSpace thread page space = (true, { page with saveHead := head' }) ∧
      Saved page.saveHead head' thread.tranid (max space 0) := by
  unfold spageSaveSpace
  rw [hcrash, Bool.or_false, hactive, Bool.not_true, Bool.or_false, hhead, hentry]
  by_cases hpos : 0 < space
  · rw [if_neg (by rw [decide_eq_true_eq]; omega), if_neg (by rw [decide_eq_true_eq]; omega),
      max_eq_left (le_of_lt hpos)]
    cases hsave : page.saveHead with
    | none =>
      refine ⟨_, rfl, ⟨(Int.zero_add _).symm, fun other => ?_, fun _ h heq => ?_⟩⟩
      · exact entrySaved_cons space rfl other
      · cases heq
        exact nodup_singleton _
    | some head =>
      dsimp only
      cases hhas : head.has thread.tranid with
      | true =>
        refine ⟨_, rfl, ⟨rfl, entrySaved_addSaved space hhas, fun hnodup h heq => ?_⟩⟩
        cases heq
        rw [SpageSaveHead.add, tranid_addSaved]
        exact hnodup head rfl
      | false =>
        refine ⟨_, rfl, ⟨rfl, entrySaved_cons space hhas, fun hnodup h heq => ?_⟩⟩
        cases heq
        refine nodup_cons.mpr ⟨fun hmem => ?_, hnodup head rfl⟩
        rcases mem_map.mp hmem with ⟨entry, hentry, heq⟩
        exact any_eq_false.mp hhas entry hentry (decide_eq_true heq)
  · rw [max_eq_right (Int.not_lt.mp hpos)]
    refine ⟨page.saveHead, ?_, saved_zero _ _⟩
    by_cases hzero : space = 0
    · rw [if_pos (decide_eq_true hzero)]
    · rw [if_neg (by rw [decide_eq_true_eq]; exact hzero), if_pos (by rw [decide_eq_true_eq]; omega)]

theorem spageSaveSpace_inactive (hactive : thread.isActive = false) (page : SpagePage) (space : Int) :
    spageSaveSpace thread page space = (true, page) := by
  unfold spageSaveSpace
  rw [hactive, Bool.not_false, Bool.or_true, if_pos rfl, ite_self]

/-!
## The end of a transaction
-/

theorem SaveTable.erase (h : SaveTable head live) (hsaved : forall other, savedSpace head' other =
      if other = tranid then 0 else savedSpace head other)
    (htotal : totalSavedSpace head' = ∑ other ∈ live.erase tranid, savedSpace head other)
    (hnodup : forall head'', head' = some head'' ->
      (head''.entries.map SpageSaveEntry.tranid).Nodup) :
    SaveTable head' (live.erase tranid) where
  total := by
    rw [htotal]
    apply Finset.sum_congr rfl
    intro other hother
    rw [hsaved, if_neg (Finset.ne_of_mem_erase hother)]
  nonneg other := by
    rw [hsaved]
    split_ifs
    · exact le_refl 0
    · exact h.nonneg other
  outside other hother := by
    rw [hsaved]
    by_cases heq : other = tranid
    · rw [if_pos heq]
    · rw [if_neg heq]
      exact h.outside other fun hmem => hother (Finset.mem_erase.mpr ⟨heq, hmem⟩)
  nodup := hnodup

theorem SaveTable.sum_erase (h : SaveTable head live) (hlive : tranid ∈ live) :
    savedSpace head tranid + ∑ other ∈ live.erase tranid, savedSpace head other =
      totalSavedSpace head := by
  rw [h.total]
  exact Finset.add_sum_erase live _ hlive

theorem SaveTable.free {page : SpagePage} (h : SaveTable page.saveHead live)
    (hlive : tranid ∈ live) :
    exists head', spageFreeSavedSpaces tranid page = { page with saveHead := head' } ∧
      SaveTable head' (live.erase tranid) ∧
      forall other, savedSpace head' other =
        if other = tranid then 0 else savedSpace page.saveHead other := by
  have hsum := h.sum_erase hlive
  have hrest : 0 <= ∑ other ∈ live.erase tranid, savedSpace page.saveHead other :=
    Finset.sum_nonneg fun other _ => h.nonneg other
  have hown := h.nonneg tranid
  -- nothing was saved
  have hnothing (hzero : savedSpace page.saveHead tranid = 0) (other : Tranid) :
      savedSpace page.saveHead other =
        if other = tranid then 0 else savedSpace page.saveHead other := by
    split_ifs with heq
    · rw [heq, hzero]
    · rfl
  unfold spageFreeSavedSpaces
  cases hhead : page.saveHead with
  | none =>
    rw [hhead] at h hsum hnothing
    have hsaved := hnothing rfl
    have hsame : page = { page with saveHead := none } := by rw [← hhead]
    refine ⟨none, hsame, h.erase hsaved ?_ nofun, hsaved⟩
    change 0 + _ = 0 at hsum
    change 0 = _
    omega
  | some head =>
    rw [hhead] at h hsum hnothing hrest hown
    have hnodup := h.nodup head rfl
    have hfind := entrySaved_find tranid head.entries
    dsimp only
    cases hentry : head.entries.find? (fun entry => entry.tranid = tranid) with
    | none =>
      rw [hentry] at hfind
      have hsaved := hnothing hfind
      have hsame : page = { page with saveHead := some head } := by rw [← hhead]
      refine ⟨some head, hsame, h.erase hsaved ?_ h.nodup, hsaved⟩
      change entrySaved tranid head.entries + _ = _ at hsum
      dsimp only at hfind
      omega
    | some entry =>
      rw [hentry] at hfind
      change savedSpace (some head) tranid = entry.saved at hfind
      have hsaved (other : Tranid) := entrySaved_eraseP tranid hnodup other
      have hnodup' : ((head.entries.eraseP fun entry => entry.tranid = tranid).map
          SpageSaveEntry.tranid).Nodup :=
        hnodup.sublist (eraseP_sublist.map _)
      dsimp only
      by_cases hempty : (head.entries.eraseP fun entry => entry.tranid = tranid) = []
      · rw [if_pos hempty]
        rw [hempty] at hsaved
        refine ⟨none, rfl, h.erase hsaved ?_ nofun, hsaved⟩
        symm
        apply Finset.sum_eq_zero
        intro other hother
        have hother' := hsaved other
        rw [if_neg (Finset.ne_of_mem_erase hother)] at hother'
        exact hother'.symm
      · rw [if_neg hempty]
        refine ⟨_, rfl, h.erase hsaved ?_ ?_, hsaved⟩
        · change (if entry.saved > 0 then max (head.totalSaved - entry.saved) 0
            else head.totalSaved) = _
          change _ = head.totalSaved at hsum
          split_ifs with hpos
          · rw [max_eq_left (by omega)]
            omega
          · omega
        · intro head'' heq
          cases heq
          exact hnodup'

end Rye.Storage
