import Rye.Storage.SlottedPage.Performed

/-!
# Rollback

Transactions insert, delete and update records of a page while they are active, and end
with a commit or with a rollback, which undoes their operations in reverse order.  No two
of them work on the same record.  The space that an operation sets free is saved for its
transaction, and active transactions leave all savings alone.  So the savings cover what
the undo operations need, and there is always space for them.
-/

namespace Rye.Storage

open Foundation List Function

/-!
## The system
-/

structure Tran where
  isActive : Bool
  undo : List Undo

/-- A page, the transactions that have not ended, and what they have to undo. -/
structure TranState where
  page : SpagePage
  live : Finset Tranid
  trans : Tranid -> Tran

inductive TranStep where
  | begin (tranid : Tranid)
  | insert (thread : ThreadEntry) (recdes : RecDes)
  | delete (thread : ThreadEntry) (slotId : Int)
  | update (thread : ThreadEntry) (slotId : Int) (recdes : RecDes)
  | commit (tranid : Tranid)
  | rollback (tranid : Tranid)
  | undo (thread : ThreadEntry)
  | finish (tranid : Tranid)

namespace TranState

def setTran (s : TranState) (page : SpagePage) (tranid : Tranid) (tran : Tran) : TranState :=
  { s with page := page, trans := update s.trans tranid tran }

/-- An operation was successful, and `u` undoes it. -/
def push (s : TranState) (page : SpagePage) (tranid : Tranid) (u : Undo) : TranState :=
  s.setTran page tranid ⟨true, u :: (s.trans tranid).undo⟩

def close (s : TranState) (tranid : Tranid) : TranState :=
  { s with page := spageFreeSavedSpaces tranid s.page, live := s.live.erase tranid }

def next (s : TranState) : TranStep -> TranState
  | .begin tranid => { s.setTran s.page tranid ⟨true, []⟩ with live := insert tranid s.live }
  | .insert thread recdes =>
    match spageInsert thread s.page recdes with
    | (.success, page, slotId) => s.push page thread.tranid (.insert slotId.toNat)
    | (_, page, _) => { s with page := page }
  | .delete thread slotId =>
    match spageDelete thread s.page slotId with
    | (deleted, page) =>
      if deleted = nullSlotid then { s with page := page }
      else s.push page thread.tranid (.delete slotId.toNat (oldRecord s.page slotId))
  | .update thread slotId recdes =>
    match spageUpdate thread s.page slotId recdes with
    | (.success, page) => s.push page thread.tranid (.update slotId.toNat (oldRecord s.page slotId))
    | (_, page) => { s with page := page }
  | .commit tranid => s.close tranid
  | .rollback tranid => s.setTran s.page tranid ⟨false, (s.trans tranid).undo⟩
  | .undo thread =>
    match (s.trans thread.tranid).undo with
    | [] => s
    | u :: undo => s.setTran (u.run thread s.page).2 thread.tranid ⟨false, undo⟩
  | .finish tranid => s.close tranid

def Working (s : TranState) (thread : ThreadEntry) : Prop :=
  thread.tranid ∈ s.live ∧ (s.trans thread.tranid).isActive = true ∧ thread.isActive = true ∧
    thread.inCrashRecovery = false

def Undoing (s : TranState) (thread : ThreadEntry) : Prop :=
  thread.tranid ∈ s.live ∧ (s.trans thread.tranid).isActive = false ∧ thread.isActive = false

/-- No other transaction that has not ended works on the record. -/
def Free (s : TranState) (tranid : Tranid) (slotId : Int) : Prop :=
  forall other, other ∈ s.live -> other ≠ tranid ->
    forall u, u ∈ (s.trans other).undo -> (u.slotId : Int) ≠ slotId

def undoStatus (s : TranState) (thread : ThreadEntry) : SpStatus :=
  match (s.trans thread.tranid).undo with
  | [] => .success
  | u :: _ => (u.run thread s.page).1

/-- A rollback goes on as long as its operations succeed. -/
def Enabled (s : TranState) : TranStep -> Prop
  | .begin tranid => tranid ∉ s.live
  | .insert thread _ => s.Working thread
  | .delete thread slotId | .update thread slotId _ =>
    s.Working thread ∧ s.Free thread.tranid slotId
  | .commit tranid | .rollback tranid => tranid ∈ s.live ∧ (s.trans tranid).isActive = true
  | .undo thread => s.Undoing thread ∧ s.undoStatus thread = .success
  | .finish tranid =>
    tranid ∈ s.live ∧ (s.trans tranid).isActive = false ∧ (s.trans tranid).undo.isEmpty = true

instance (s : TranState) (thread : ThreadEntry) : Decidable (s.Working thread) :=
  inferInstanceAs (Decidable (_ ∧ _))

instance (s : TranState) (thread : ThreadEntry) : Decidable (s.Undoing thread) :=
  inferInstanceAs (Decidable (_ ∧ _))

instance (s : TranState) (tranid : Tranid) (slotId : Int) : Decidable (s.Free tranid slotId) :=
  inferInstanceAs (Decidable (forall other, other ∈ s.live -> other ≠ tranid ->
    forall u, u ∈ (s.trans other).undo -> (u.slotId : Int) ≠ slotId))

instance (s : TranState) : forall step, Decidable (s.Enabled step)
  | .begin _ => inferInstanceAs (Decidable (_ ∉ _))
  | .insert _ _ => inferInstanceAs (Decidable (s.Working _))
  | .delete _ _ | .update _ _ _ | .commit _ | .rollback _ | .undo _ | .finish _ =>
    inferInstanceAs (Decidable (_ ∧ _))

end TranState

def tranSystem (bytes : Memory) (alignment : Alignment) : System TranState TranStep :=
  .deterministic ⟨spageInitialize bytes .anchored alignment true, ∅, fun _ => ⟨false, []⟩⟩
    TranState.Enabled TranState.next

/-- The records fit their areas, and memory for the savings is found. -/
def TranStep.Regular (s : TranState) : TranStep -> Prop
  | .insert thread recdes =>
    0 <= recdes.length ∧ AddressFits s.page.alignment recdes ∧ thread.mallocHead = true ∧
      thread.mallocEntry = true
  | .delete thread _ | .update thread _ _ => thread.mallocHead = true ∧ thread.mallocEntry = true
  | .begin _ | .commit _ | .rollback _ | .undo _ | .finish _ => True

instance (a : Alignment) (recdes : RecDes) : Decidable (AddressFits a recdes) :=
  inferInstanceAs (Decidable (_ -> _))

instance (s : TranState) : forall step : TranStep, Decidable (step.Regular s)
  | .insert _ _ | .delete _ _ | .update _ _ _ => inferInstanceAs (Decidable (_ ∧ _))
  | .begin _ | .commit _ | .rollback _ | .undo _ | .finish _ => .isTrue trivial

/-- The space that a transaction may need for its undo operations. -/
def TranState.need (s : TranState) (tranid : Tranid) : Int :=
  undoSpace s.page.alignment s.page.sizes (s.trans tranid).undo

structure TranState.Inv (s : TranState) : Prop where
  consistent : Consistent s.page
  anchorType : s.page.anchorType = .anchored
  isSaving : s.page.isSaving = true
  types : RecType.deletedWillReuse ∉ s.page.types
  table : SaveTable s.page.saveHead s.live
  undoable : forall tranid, tranid ∈ s.live ->
    Undoable s.page.alignment s.page.numSlots s.page.sizes (s.trans tranid).undo
  apart : forall tranid, tranid ∈ s.live -> forall u, u ∈ (s.trans tranid).undo ->
    s.Free tranid u.slotId
  saved : forall tranid, tranid ∈ s.live -> s.need tranid <= savedSpace s.page.saveHead tranid
  totalFree : ∑ tranid ∈ s.live, s.need tranid <= s.page.totalFree

namespace TranState

variable {s : TranState}

theorem need_nonneg (s : TranState) (tranid : Tranid) : 0 <= s.need tranid :=
  undoSpace_nonneg _ _ _

variable {tranid : Tranid} {thread : ThreadEntry}

theorem Inv.need_le (h : s.Inv) (hlive : tranid ∈ s.live) : s.need tranid <= s.page.totalFree :=
  le_trans (Finset.single_le_sum (fun other _ => s.need_nonneg other) hlive) h.totalFree

theorem Inv.undo_fits (h : s.Inv) (hundoing : s.Undoing thread) :
    s.undoStatus thread ≠ .doesntFit := by
  rcases hundoing with ⟨hlive, _, hactive⟩
  unfold undoStatus
  cases hundo : (s.trans thread.tranid).undo with
  | nil => nofun
  | cons u undo =>
    have hundoable := h.undoable _ hlive
    have hneed := h.need_le hlive
    rw [hundo] at hundoable
    unfold need at hneed
    rw [hundo, undoSpace] at hneed
    have hrest := undoSpace_nonneg s.page.alignment
      (update s.page.sizes u.slotId (u.size s.page.alignment)) undo
    exact Undo.run_ne_doesntFit hactive h.anchorType hundoable.1 hundoable.2.1 (by omega)

/-!
## Steps
-/

theorem undo_setTran_self (s : TranState) (page : SpagePage) (tranid : Tranid) (tran : Tran) :
    ((s.setTran page tranid tran).trans tranid).undo = tran.undo := by
  change (update s.trans tranid tran tranid).undo = _
  rw [update_self]

theorem undo_setTran_of_ne (s : TranState) (page : SpagePage) {other : Tranid} (tran : Tran)
    (hne : other ≠ tranid) :
    ((s.setTran page tranid tran).trans other).undo = (s.trans other).undo := by
  change (update s.trans tranid tran other).undo = _
  rw [update_of_ne hne]

variable {page' : SpagePage} {u : Undo}

theorem Inv.unchanged (h : s.Inv) (hpage : Unchanged s.page page') :
    ({ s with page := page' } : TranState).Inv where
  consistent := hpage.consistent
  anchorType := hpage.anchorType.trans h.anchorType
  isSaving := hpage.isSaving.trans h.isSaving
  types := by
    rw [hpage.types]
    exact h.types
  table := by
    rw [hpage.saveHead]
    exact h.table
  undoable tranid hlive := by
    rw [hpage.alignment, hpage.numSlots, hpage.sizes]
    exact h.undoable tranid hlive
  apart := h.apart
  saved tranid hlive := by
    change undoSpace page'.alignment page'.sizes _ <= savedSpace page'.saveHead tranid
    rw [hpage.alignment, hpage.sizes, hpage.saveHead]
    exact h.saved tranid hlive
  totalFree := by
    change ∑ tranid ∈ s.live, undoSpace page'.alignment page'.sizes (s.trans tranid).undo <=
      page'.totalFree
    rw [hpage.alignment, hpage.sizes, hpage.totalFree]
    exact h.totalFree

theorem free_setTran (h : forall tranid, tranid ∈ s.live -> forall u, u ∈ (s.trans tranid).undo ->
      s.Free tranid u.slotId) (page : SpagePage) {tran : Tran}
    (htran : forall u, u ∈ tran.undo -> s.Free tranid u.slotId) :
    forall other, other ∈ s.live -> forall u, u ∈ ((s.setTran page tranid tran).trans other).undo ->
      (s.setTran page tranid tran).Free other u.slotId := by
  intro other hother u hu third hthird hne v hv
  by_cases heq : other = tranid
  · subst heq
    rw [undo_setTran_self] at hu
    rw [undo_setTran_of_ne _ _ _ hne] at hv
    exact htran u hu third hthird hne v hv
  · rw [undo_setTran_of_ne _ _ _ heq] at hu
    by_cases hthird' : third = tranid
    · subst hthird'
      rw [undo_setTran_self] at hv
      exact Ne.symm (htran v hv other hother heq u hu)
    · rw [undo_setTran_of_ne _ _ _ hthird'] at hv
      exact h other hother u hu third hthird hne v hv

theorem Free.sizes_eq (hfree : s.Free tranid u.slotId) {other : Tranid} (hother : other ∈ s.live)
    (hne : other ≠ tranid) (x : Option Int) :
    forall v, v ∈ (s.trans other).undo ->
      update s.page.sizes u.slotId x v.slotId = s.page.sizes v.slotId := by
  intro v hv
  have hslot : v.slotId ≠ u.slotId := fun heq => hfree other hother hne v hv (by rw [heq])
  rw [update_of_ne hslot]

section

variable (h : s.Inv)
include h

section

variable (hlive : tranid ∈ s.live)
include hlive

/-- A transaction needs `d` more or less than before, and a slot that belongs to it has changed. -/
theorem Inv.setTran {tran : Tran} {x : Option Int} {d : Int} (hfree : s.Free tranid u.slotId)
    (hpage : Consistent page') (hanchor : page'.anchorType = s.page.anchorType)
    (halignment : page'.alignment = s.page.alignment) (hsaving : page'.isSaving = s.page.isSaving)
    (hnum : s.page.numSlots <= page'.numSlots)
    (htypes : forall type, type ∈ page'.types -> type ∈ s.page.types ∨ type ≠ .deletedWillReuse)
    (hsizes : page'.sizes = update s.page.sizes u.slotId x)
    (htable : SaveTable page'.saveHead s.live)
    (hundoable : Undoable s.page.alignment page'.numSlots page'.sizes tran.undo)
    (hapart : forall v, v ∈ tran.undo -> s.Free tranid v.slotId)
    (hneed : undoSpace s.page.alignment page'.sizes tran.undo = s.need tranid + d)
    (hsaved : forall other, other ∈ s.live ->
      s.need other + (if other = tranid then d else 0) <= savedSpace page'.saveHead other)
    (htotal : ∑ other ∈ s.live, s.need other + d <= page'.totalFree) :
    (s.setTran page' tranid tran).Inv := by
  have hneeds : forall other, other ∈ s.live -> (s.setTran page' tranid tran).need other =
      s.need other + if other = tranid then d else 0 := by
    intro other hother
    change undoSpace page'.alignment page'.sizes _ = _
    rw [halignment]
    by_cases heq : other = tranid
    · subst heq
      rw [if_pos rfl, undo_setTran_self, hneed]
    · rw [if_neg heq, Int.add_zero, undo_setTran_of_ne _ _ _ heq, hsizes]
      exact undoSpace_congr (hfree.sizes_eq hother heq x)
  constructor
  · exact hpage
  · exact hanchor.trans h.anchorType
  · exact hsaving.trans h.isSaving
  · exact fun hmem => (htypes _ hmem).elim h.types fun hne => hne rfl
  · exact htable
  · intro other hother
    change Undoable page'.alignment page'.numSlots page'.sizes _
    rw [halignment]
    by_cases heq : other = tranid
    · subst heq
      rw [undo_setTran_self]
      exact hundoable
    · rw [undo_setTran_of_ne _ _ _ heq, hsizes]
      exact (h.undoable other hother).congr hnum (hfree.sizes_eq hother heq x)
  · exact free_setTran h.apart page' hapart
  · intro other hother
    rw [hneeds other hother]
    exact hsaved other hother
  · change ∑ other ∈ s.live, (s.setTran page' tranid tran).need other <= page'.totalFree
    rw [Finset.sum_congr rfl hneeds, Finset.sum_add_distrib, Finset.sum_ite_eq', if_pos hlive]
    exact htotal

theorem Inv.push {x : Option Int} (hfree : s.Free tranid u.slotId)
    (hpage : Performed s.page page' tranid u x) : (s.push page' tranid u).Inv := by
  let m : Int := max ((s.page.sizes u.slotId).getD 0 - x.getD 0) 0
  have hready := hpage.ready
  rw [hpage.sizes] at hready
  refine h.setTran (d := m) hlive hfree hpage.consistent hpage.anchorType hpage.alignment
    hpage.isSaving hpage.numSlots_le hpage.types hpage.sizes
    (h.table.save hpage.saved hlive (le_max_right _ _)) ?_ ?_ ?_ ?_ ?_
  · rw [hpage.sizes]
    exact (h.undoable tranid hlive).cons hpage.numSlots_le hpage.old hpage.slotId_lt hready
  · intro v hv
    rcases mem_cons.mp hv with rfl | hv
    · exact hfree
    · exact h.apart tranid hlive v hv
  · rw [hpage.sizes]
    exact (undoSpace_cons hpage.old).trans (Int.add_comm _ _)
  · intro other hother
    rw [hpage.saved.saved]
    exact Int.add_le_add_right (h.saved other hother) _
  · rcases hpage.totalFree with hgrown | ⟨hle, hleft⟩
    · exact le_trans (Int.add_le_add_right h.totalFree m) hgrown
    have hcovered : ∑ other ∈ s.live, s.need other <= totalSavedSpace s.page.saveHead := by
      rw [h.table.total]
      exact Finset.sum_le_sum h.saved
    omega

theorem Inv.pop {undo : List Undo} (hundo : (s.trans tranid).undo = u :: undo)
    (hpage : Undone s.page page' u) : (s.setTran page' tranid ⟨false, undo⟩).Inv := by
  let m : Int := max (u.growth s.page.alignment s.page.sizes) 0
  have hneed : s.need tranid = m + undoSpace s.page.alignment page'.sizes undo := by
    unfold need
    rw [hundo, undoSpace, hpage.sizes]
  have hundoable := h.undoable tranid hlive
  rw [hundo] at hundoable
  have hapart := h.apart tranid hlive
  rw [hundo] at hapart
  refine h.setTran (d := -m) hlive (hapart u mem_cons_self) hpage.consistent
    hpage.anchorType hpage.alignment hpage.isSaving hpage.numSlots.ge hpage.types hpage.sizes
    (hpage.saveHead ▸ h.table) ?_ ?_ ?_ ?_ ?_
  · rw [hpage.numSlots, hpage.sizes]
    exact hundoable.2.2
  · exact fun v hv => hapart v (mem_cons_of_mem _ hv)
  · dsimp only
    omega
  · intro other hother
    have hold := h.saved other hother
    rw [hpage.saveHead]
    split_ifs <;> omega
  · have hold := h.totalFree
    rw [hpage.totalFree]
    omega

end

theorem Inv.rollback (tranid : Tranid) :
    (s.setTran s.page tranid ⟨false, (s.trans tranid).undo⟩).Inv := by
  have hundo (other : Tranid) :
      ((s.setTran s.page tranid ⟨false, (s.trans tranid).undo⟩).trans other).undo =
        (s.trans other).undo := by
    by_cases heq : other = tranid
    · rw [heq, undo_setTran_self]
    · rw [undo_setTran_of_ne _ _ _ heq]
  have hneed (other : Tranid) :
      (s.setTran s.page tranid ⟨false, (s.trans tranid).undo⟩).need other = s.need other := by
    unfold need
    rw [hundo]
    rfl
  refine { h with undoable := ?_, apart := ?_, saved := ?_, totalFree := ?_ }
  · intro other hother
    rw [hundo]
    exact h.undoable other hother
  · intro other hother u hu third hthird hne v hv
    rw [hundo] at hu hv
    exact h.apart other hother u hu third hthird hne v hv
  · intro other hother
    rw [hneed]
    exact h.saved other hother
  · rw [Finset.sum_congr rfl fun other _ => hneed other]
    exact h.totalFree

theorem Inv.begin (hlive : tranid ∉ s.live) :
    ({ s.setTran s.page tranid ⟨true, []⟩ with live := insert tranid s.live } : TranState).Inv := by
  let s' : TranState := { s.setTran s.page tranid ⟨true, []⟩ with live := insert tranid s.live }
  have hself : (s'.trans tranid).undo = [] := undo_setTran_self s s.page tranid ⟨true, []⟩
  have hothers {other : Tranid} (hother : other ∈ s.live) :
      (s'.trans other).undo = (s.trans other).undo :=
    undo_setTran_of_ne s s.page _ fun heq => hlive (heq ▸ hother)
  have hzero : s'.need tranid = 0 := by
    unfold need
    rw [hself]
    rfl
  have hneed {other : Tranid} (hother : other ∈ s.live) : s'.need other = s.need other := by
    unfold need
    rw [hothers hother]
    rfl
  refine { h with
    table := h.table.insert hlive, undoable := ?_, apart := ?_, saved := ?_, totalFree := ?_ }
  · intro other hother
    rcases Finset.mem_insert.mp hother with rfl | hother
    · rw [hself]
      trivial
    · rw [hothers hother]
      exact h.undoable other hother
  · intro other hother u hu third hthird hne v hv
    rcases Finset.mem_insert.mp hother with rfl | hother
    · rw [hself] at hu
      cases hu
    rcases Finset.mem_insert.mp hthird with rfl | hthird
    · rw [hself] at hv
      cases hv
    rw [hothers hother] at hu
    rw [hothers hthird] at hv
    exact h.apart other hother u hu third hthird hne v hv
  · intro other hother
    rcases Finset.mem_insert.mp hother with rfl | hother
    · rw [hzero]
      exact h.table.nonneg other
    · rw [hneed hother]
      exact h.saved other hother
  · rw [Finset.sum_insert hlive, hzero, Int.zero_add,
      Finset.sum_congr rfl fun other hother => hneed hother]
    exact h.totalFree

theorem Inv.close (hlive : tranid ∈ s.live) : (s.close tranid).Inv := by
  rcases h.table.free hlive with ⟨head, hfree, htable, hsaved⟩
  have hmem {other : Tranid} (hother : other ∈ s.live.erase tranid) : other ∈ s.live :=
    Finset.mem_of_mem_erase hother
  unfold TranState.close
  rw [hfree]
  refine { h with
    consistent := h.consistent.withSaved ?_
    table := htable
    undoable := fun other hother => h.undoable other (hmem hother)
    apart := fun other hother u hu third hthird =>
      h.apart other (hmem hother) u hu third (hmem hthird)
    saved := ?_, totalFree := ?_ }
  · intro head' hhead
    have htotal : head'.totalSaved = ∑ other ∈ s.live.erase tranid, savedSpace head other := by
      rw [← htable.total, hhead]
      rfl
    rw [htotal]
    exact Finset.sum_nonneg fun other _ => htable.nonneg other
  · intro other hother
    have hold := h.saved other (hmem hother)
    rw [hsaved, if_neg (Finset.ne_of_mem_erase hother)]
    exact hold
  · refine le_trans (Finset.sum_le_sum_of_subset_of_nonneg (Finset.erase_subset tranid s.live) ?_)
      h.totalFree
    exact fun other _ _ => s.need_nonneg other

theorem Inv.insert {recdes : RecDes} (henabled : s.Enabled (.insert thread recdes))
    (hregular : (TranStep.insert thread recdes).Regular s) :
    (s.next (.insert thread recdes)).Inv := by
  rcases henabled with ⟨hlive, _, hactive, hcrash⟩
  rcases hregular with ⟨h0, hfits, hhead, hentry⟩
  rcases spageInsert_performed h.consistent h.anchorType h.isSaving
    ⟨hactive, hcrash, hhead, hentry⟩ h.types h0 hfits with ⟨status, page', slotId, hrun, hcases⟩
  unfold TranState.next
  dsimp only
  rw [hrun]
  rcases hcases with ⟨hfail, hunchanged⟩ | ⟨rfl, rfl, x, hperformed⟩
  · cases status with
    | success => exact absurd rfl hfail
    | error | doesntFit => exact h.unchanged hunchanged
  apply h.push hlive ?_ hperformed
  -- the new slot belongs to nobody
  intro other hother _ u hu heq
  have hlt := (h.undoable other hother).slotId_lt hu
  change (u.slotId : Int) = (s.page.numSlots : Nat) at heq
  omega

theorem Inv.delete {slotId : Int} (henabled : s.Enabled (.delete thread slotId))
    (hregular : (TranStep.delete thread slotId).Regular s) :
    (s.next (.delete thread slotId)).Inv := by
  rcases henabled with ⟨⟨hlive, _, hactive, hcrash⟩, hfree⟩
  rcases spageDelete_performed h.consistent h.anchorType h.isSaving
    ⟨hactive, hcrash, hregular.1, hregular.2⟩ slotId with ⟨deleted, page', hrun, hcases⟩
  unfold TranState.next
  dsimp only
  rw [hrun]
  rcases hcases with ⟨hfail, hunchanged⟩ | ⟨hdeleted, k, rfl, hperformed⟩
  · rw [if_pos hfail]
    exact h.unchanged hunchanged
  · rw [if_neg hdeleted]
    exact h.push hlive hfree hperformed

theorem Inv.update {slotId : Int} {recdes : RecDes}
    (henabled : s.Enabled (.update thread slotId recdes))
    (hregular : (TranStep.update thread slotId recdes).Regular s) :
    (s.next (.update thread slotId recdes)).Inv := by
  rcases henabled with ⟨⟨hlive, _, hactive, hcrash⟩, hfree⟩
  rcases spageUpdate_performed h.consistent h.anchorType h.isSaving
    ⟨hactive, hcrash, hregular.1, hregular.2⟩ slotId recdes with ⟨status, page', hrun, hcases⟩
  unfold TranState.next
  dsimp only
  rw [hrun]
  rcases hcases with ⟨hfail, hunchanged⟩ | ⟨rfl, k, x, rfl, hperformed⟩
  · cases status with
    | success => exact absurd rfl hfail
    | error | doesntFit => exact h.unchanged hunchanged
  · exact h.push hlive hfree hperformed

theorem Inv.undo (henabled : s.Enabled (.undo thread)) : (s.next (.undo thread)).Inv := by
  rcases henabled with ⟨⟨hlive, _, hactive⟩, hsuccess⟩
  unfold TranState.next
  dsimp only
  cases hundo : (s.trans thread.tranid).undo with
  | nil => exact h
  | cons u undo =>
    have hundoable := h.undoable _ hlive
    rw [hundo] at hundoable
    apply h.pop hlive hundo
    apply Undo.run_undone h.consistent h.anchorType hactive hundoable.1 hundoable.2.1
    unfold undoStatus at hsuccess
    rw [hundo] at hsuccess
    exact Prod.ext hsuccess rfl

theorem Inv.next {step : TranStep} (henabled : s.Enabled step) (hregular : step.Regular s) :
    (s.next step).Inv := by
  cases step with
  | begin tranid => exact h.begin henabled
  | insert thread recdes => exact h.insert henabled hregular
  | delete thread slotId => exact h.delete henabled hregular
  | update thread slotId recdes => exact h.update henabled hregular
  | commit tranid => exact h.close henabled.1
  | rollback tranid => exact h.rollback tranid
  | undo thread => exact h.undo henabled
  | finish tranid => exact h.close henabled.1

end

theorem inv_initial (bytes : Memory) (alignment : Alignment) :
    (⟨spageInitialize bytes .anchored alignment true, ∅, fun _ => ⟨false, []⟩⟩ : TranState).Inv where
  consistent := spageInitialize_consistent bytes .anchored alignment true
  anchorType := rfl
  isSaving := rfl
  types := not_mem_nil
  table := saveTable_none
  undoable _ hlive := absurd hlive (Finset.notMem_empty _)
  apart _ hlive := absurd hlive (Finset.notMem_empty _)
  saved _ hlive := absurd hlive (Finset.notMem_empty _)
  totalFree := by
    have haccounts := (spageInitialize_consistent bytes .anchored alignment true).accounts
    rw [Finset.sum_empty]
    exact le_trans haccounts.page_contFree_nonneg haccounts.page_contFree_le

end TranState

def undoThread (tranid : Tranid) : ThreadEntry :=
  { activeThread tranid with isActive := false }

def tranStart : TranState :=
  ⟨spageInitialize (fun _ => 0) .anchored .double true, ∅, fun _ => ⟨false, []⟩⟩

def tranRun (steps : List TranStep) : TranState :=
  steps.foldl TranState.next tranStart

variable {steps : List TranStep}

theorem reachable_tranRun (h : System.Follows TranState.Enabled TranState.next tranStart steps) :
    (tranSystem (fun _ => 0) .double).Reachable (tranRun steps) :=
  System.reachable_of_follows steps h

theorem regular_tranRun
    (h : System.Follows (fun s step => step.Regular s ∧ s.Enabled step) TranState.next tranStart
      steps) :
    ((tranSystem (fun _ => 0) .double).guarded fun s step => step.Regular s).Reachable
      (tranRun steps) :=
  System.reachable_guarded_of_follows steps h

/-- A transaction fills the page, and another one deletes two records of it. -/
def deletedTwice : List TranStep :=
  [.begin 1, .insert (activeThread 1) (zeroRecord 96), .insert (activeThread 1) (zeroRecord 96),
    .insert (activeThread 1) (zeroRecord 16128), .commit 1,
    .begin 2, .delete (activeThread 2) 0, .delete (activeThread 2) 1]

/-- A new address without an area, for a transaction whose identifier looks like a slot. -/
def emptyAddress : TranStep :=
  .insert (activeThread 1572904) { zeroRecord 0 with type := .assignAddress }

end Rye.Storage
