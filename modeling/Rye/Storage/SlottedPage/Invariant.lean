import Mathlib.Data.List.Sort
import Rye.Foundation.Runs
import Rye.Storage.SlottedPage.Update

/-!
# The header is right after every run

A run starts with an initialised page and calls the routines in any order, with any
arguments, from any threads.  The header stays right as long as three kinds of calls
are left out: a record of negative length, a slot with a negative identifier, and the
recovery of a record into a slot that is in use.  A new address needs an area of at
least four bytes.
-/

namespace Rye.Storage

open Foundation List SpageSlot

inductive SpageOp where
  | insert (recdes : RecDes)
  | insertAt (slotId : Int) (recdes : RecDes)
  | insertForRecovery (slotId : Int) (recdes : RecDes)
  | delete (slotId : Int)
  | update (slotId : Int) (recdes : RecDes)
  | compact

def SpageOp.run (thread : ThreadEntry) (page : SpagePage) : SpageOp -> SpagePage
  | .insert recdes => (spageInsert thread page recdes).2.1
  | .insertAt slotId recdes => (spageInsertAt thread page slotId recdes).2
  | .insertForRecovery slotId recdes => (spageInsertForRecovery thread page slotId recdes).2
  | .delete slotId => (spageDelete thread page slotId).2
  | .update slotId recdes => (spageUpdate thread page slotId recdes).2
  | .compact => (spageCompact thread page).2

def spageSystem (bytes : Memory) (slotType : AnchorType) (alignment : Alignment)
    (isSaving : Bool) : System SpagePage (ThreadEntry × SpageOp) :=
  .deterministic (spageInitialize bytes slotType alignment isSaving) (fun _ _ => True)
    (fun page call => call.2.run call.1 page)

def SpageSlot.Covers (a : Alignment) (slot : SpageSlot) (x : Int) : Prop :=
  slot.offsetToRecord <= x ∧ x < slot.offsetToRecord + slot.size a

structure Representation (page : SpagePage) : Prop where
  numRecords : page.numRecords = page.slots.countP occupied
  totalFree : page.totalFree = dbPagesize - sizeofSpageHeader - sizeofSpageSlot * page.numSlots -
    ((page.slots.filter occupied).map (size page.alignment)).sum
  contFree : page.contFree = dbPagesize - page.offsetToFreeArea - sizeofSpageSlot * page.numSlots
  contFree_nonneg : 0 <= page.contFree
  contFree_le : page.contFree <= page.totalFree
  disjoint : forall i j : Nat, i < page.numSlots -> j < page.numSlots -> i ≠ j ->
    (page.slot i).occupied = true -> (page.slot j).occupied = true ->
    forall x, ¬ ((page.slot i).Covers page.alignment x ∧ (page.slot j).Covers page.alignment x)
  inside : forall i : Nat, i < page.numSlots -> (page.slot i).occupied = true ->
    forall x, (page.slot i).Covers page.alignment x ->
      sizeofSpageHeader <= x ∧ x < page.offsetToFreeArea

def SpageOp.Regular (page : SpagePage) : SpageOp -> Prop
  | .insert recdes => 0 <= recdes.length ∧ AddressFits page.alignment recdes
  | .insertAt slotId recdes => 0 <= slotId ∧ AddressFits page.alignment recdes
  | .insertForRecovery slotId recdes =>
    0 <= slotId ∧
      (page.anchorType = .anchored -> slotId < page.numSlots ->
        (page.slot slotId).occupied = false) ∧
      (page.anchorType ≠ .anchored -> AddressFits page.alignment recdes)
  | .delete _ | .update _ _ | .compact => True

theorem usedSpace_eq_filter (a : Alignment) (slots : List SpageSlot) :
    usedSpace a slots = ((slots.filter occupied).map (size a)).sum := by
  induction slots with
  | nil => rfl
  | cons s slots ih =>
    rw [usedSpace_cons, ih]
    cases hocc : s.occupied with
    | true =>
      rw [filter_cons_of_pos hocc, map_cons, sum_cons, s.room_of_occupied hocc]
    | false =>
      rw [filter_cons_of_neg (by rw [hocc]; decide), s.room_of_empty hocc, Int.zero_add]

theorem SpageSlot.Covers.length_pos {a : Alignment} {slot : SpageSlot} {x : Int}
    (h : slot.Covers a x) : 0 < slot.recordLength := by
  apply Nat.pos_of_ne_zero
  intro hzero
  have hlow := h.1
  have hhigh := h.2
  rw [slot.size_eq_zero hzero] at hhigh
  omega

theorem Accounts.representation {page : SpagePage} (h : Accounts page.area page.slots) :
    Representation page where
  numRecords := h.numRecords
  totalFree := by
    rw [← usedSpace_eq_filter, ← page.length_slots]
    exact h.totalFree
  contFree := by
    rw [← page.length_slots]
    exact h.contFree
  contFree_nonneg := h.contFree_nonneg
  contFree_le := h.contFree_le
  disjoint i j hi hj hne hiocc hjocc x := by
    rintro ⟨hicovers, hjcovers⟩
    have hapart : Apart page.alignment (page.slot i) (page.slot j) :=
      (SpagePage.pairwise_slots_iff fun _ _ => Apart.symm).mp h.apart i j hi hj hne
    have hor := hapart hiocc hjocc hicovers.length_pos hjcovers.length_pos
    unfold Covers at hicovers hjcovers
    omega
  inside i hi hocc x hcovers := by
    have hplaced := h.placed _ (SpagePage.slot_mem_slots hi) hocc
    have hheader := hplaced.header_le
    have hbelow := hplaced.below hcovers.length_pos
    change _ + (page.slot i).size page.alignment <= page.offsetToFreeArea at hbelow
    unfold Covers at hcovers
    omega

/-!
## Every call keeps a page consistent
-/

theorem spageInitialize_consistent (bytes : Memory) (slotType : AnchorType) (alignment : Alignment)
    (isSaving : Bool) : Consistent (spageInitialize bytes slotType alignment isSaving) := by
  have hslots : (spageInitialize bytes slotType alignment isSaving).slots = [] := rfl
  have htotal : dbAlign (dbPagesize - sizeofSpageHeader) alignment =
      dbPagesize - sizeofSpageHeader := by
    cases alignment <;> rfl
  have hfree := dbAlign_header alignment
  constructor
  · rw [hslots]
    constructor
    · exact fun s hs => absurd hs not_mem_nil
    · exact List.Pairwise.nil
    · rfl
    · change dbAlign (dbPagesize - sizeofSpageHeader) alignment = _
      rw [htotal]
      rfl
    · change dbAlign (dbPagesize - sizeofSpageHeader) alignment =
        dbPagesize - dbAlign sizeofSpageHeader alignment - _
      rw [htotal, hfree]
      rfl
    · change 0 <= dbAlign (dbPagesize - sizeofSpageHeader) alignment
      rw [htotal]
      decide
    · exact le_refl _
    · exact dbAlign_dvd _ _
    · exact le_dbAlign _ _
  · intro _ s hs
    rw [hslots] at hs
    exact absurd hs not_mem_nil
  · intro head hhead
    cases hhead

/-- A slot that is added does not reach the start of a record. -/
def SpageOp.KeepsVisible (page : SpagePage) : SpageOp -> Prop
  | .insert recdes => LeavesVisible page page.numSlots recdes.length
  | .insertAt slotId recdes | .insertForRecovery slotId recdes =>
    LeavesVisible page slotId.toNat recdes.length
  | .delete _ | .update _ _ | .compact => True

theorem LeavesVisible.of_last {page : SpagePage} {recordLength : Int}
    (h : LeavesVisible page page.numSlots recordLength) (k : Nat) :
    LeavesVisible page k recordLength :=
  fun _ => h (decide_eq_true (.inl rfl))

theorem Effect.visible_of_length {page page' : SpagePage} {contents : List (Option Record)}
    {types : List RecType} (h : Effect page page' contents types)
    (hlength : contents.length <= page.contents.length) (hvisible : page.Visible) :
    page'.Visible := by
  rw [← h.contents, length_contents, length_contents] at hlength
  exact h.visible hlength hvisible

theorem length_removedContents_le (page : SpagePage) (k : Nat) :
    (removedContents page k).length <= page.contents.length := by
  unfold removedContents
  split_ifs
  · rw [length_set]
  · exact length_eraseIdx_le _ _

section

variable {page page' : SpagePage} (hpage : Consistent page)
include hpage

variable {types : List RecType}

theorem Effect.consistent_same (h : Effect page page' page.contents types) : Consistent page' :=
  hpage.of_effect h fun hanchor => hpage.contents_isSome hanchor

/-- The page is left in order, and if `leaves` holds its records can still be seen. -/
def InOrder (page page' : SpagePage) (leaves : Prop) : Prop :=
  Consistent page' ∧ (leaves -> page.Visible -> page'.Visible)

variable {leaves : Prop}

theorem Effect.inOrder_same (h : Effect page page' page.contents types) :
    InOrder page page' leaves :=
  ⟨h.consistent_same hpage, fun _ => h.visible_of_length (le_refl _)⟩

theorem MaybeCompacted.inOrder (h : MaybeCompacted page page') : InOrder page page' leaves :=
  (h.effect hpage.accounts).inOrder_same hpage

theorem Inserted.inOrder {k : Nat} {recdes : RecDes} (h : Inserted page page' k recdes) :
    InOrder page page' (LeavesVisible page k recdes.length) := by
  rcases h with ⟨⟨r, _, heffect⟩, hvisible⟩
  refine ⟨hpage.of_effect heffect ?_, hvisible⟩
  intro hanchor x hx
  have hold := hpage.contents_isSome hanchor
  have hnew : takesNewSlot page k = true := decide_eq_true (.inr hanchor)
  rw [hnew] at hx
  rcases eq_or_mem_of_mem_insertIdx hx with rfl | hx
  · rfl
  · exact hold x hx

omit hpage in
/-- The space that a call frees is saved at its end. -/
theorem InOrder.saved {α : Type} (h : InOrder page page' leaves) (thread : ThreadEntry)
    (space : Int) (a b : α) :
    InOrder page (if page.isSaving then
      match spageSaveSpace thread page' space with
      | (true, page) => (a, page)
      | (false, page) => (b, page)
      else (a, page')).2 leaves := by
  rcases spageSaveSpace_same thread page' space with ⟨saved, head, hrun, hsaved⟩
  rw [hrun]
  have hafter : InOrder page { page' with saveHead := head } leaves :=
    ⟨h.1.withSaved (hsaved h.1.saved), h.2⟩
  split_ifs
  · cases saved <;> exact hafter
  · exact h

variable (thread : ThreadEntry)

theorem spageDelete_inOrder (slotId : Int) :
    InOrder page (spageDelete thread page slotId).2 leaves := by
  rcases spageDelete_spec thread hpage slotId with
    ⟨_, hrun⟩ | ⟨k, removed, _, _, _, _, heffect, hrun⟩
  · rw [hrun]
    exact ⟨hpage, fun _ h => h⟩
  rw [hrun]
  refine InOrder.saved ⟨hpage.of_effect heffect ?_, fun _ =>
    heffect.visible_of_length (length_removedContents_le page k)⟩ thread _ slotId nullSlotid
  intro hanchor r hr
  unfold removedContents at hr
  rw [if_neg hanchor] at hr
  exact hpage.contents_isSome hanchor r (mem_of_mem_eraseIdx hr)

theorem spageUpdate_inOrder (slotId : Int) (recdes : RecDes) :
    InOrder page (spageUpdate thread page slotId recdes).2 leaves := by
  rcases spageUpdate_spec thread hpage slotId recdes with
    ⟨status, page', hrun, _, heffect, _⟩ | ⟨k, after, _, _, _, _, heffect, hrun, _⟩
  · rw [hrun]
    exact heffect.inOrder_same hpage
  rw [hrun]
  refine InOrder.saved ⟨hpage.of_effect heffect ?_, fun _ =>
    heffect.visible_of_length (le_of_eq length_set)⟩ thread _ SpStatus.success .error
  intro hanchor r hr
  rcases mem_or_eq_of_mem_set hr with hr | rfl
  · exact hpage.contents_isSome hanchor r hr
  · rfl

theorem SpageOp.run_inOrder {op : SpageOp} (hop : op.Regular page) :
    InOrder page (op.run thread page) (op.KeepsVisible page) := by
  cases op with
  | insert recdes =>
    rcases spageInsert_spec thread hpage hop.1 hop.2 with ⟨status, page', slotId, hrun, hcases⟩
    rw [SpageOp.run, hrun]
    rcases hcases with ⟨_, hmid, _⟩ | ⟨_, _, hinserted⟩
    · exact hmid.inOrder hpage
    · have horder := hinserted.inOrder hpage
      exact ⟨horder.1, fun hkeeps => horder.2 (hkeeps.of_last _)⟩
  | insertAt slotId recdes =>
    rcases hop with ⟨hslot, hfits⟩
    lift slotId to Nat using hslot
    rcases spageInsertAt_spec thread hpage slotId hfits with ⟨status, page', hrun, hcases⟩
    rw [SpageOp.run, hrun]
    rcases hcases with ⟨_, hmid⟩ | ⟨_, _, _, hinserted⟩
    · exact hmid.inOrder hpage
    · exact hinserted.inOrder hpage
  | insertForRecovery slotId recdes =>
    rcases hop with ⟨hslot, hempty, hfits⟩
    lift slotId to Nat using hslot
    rcases spageInsertForRecovery_spec thread hpage slotId
      (fun hanchor hlt => hempty hanchor (by exact_mod_cast hlt)) hfits with
      ⟨status, page', hrun, hcases⟩
    rw [SpageOp.run, hrun]
    rcases hcases with ⟨_, types, heffect⟩ | ⟨_, _, _, hinserted⟩
    · exact heffect.inOrder_same hpage
    · exact hinserted.inOrder hpage
  | delete slotId => exact spageDelete_inOrder hpage thread slotId
  | update slotId recdes => exact spageUpdate_inOrder hpage thread slotId recdes
  | compact =>
    rcases spageCompact_spec thread hpage.accounts with ⟨_, hrun⟩ | ⟨page', hrun, hcompacted⟩
    · rw [SpageOp.run, hrun]
      exact ⟨hpage, fun _ h => h⟩
    · rw [SpageOp.run, hrun]
      exact MaybeCompacted.inOrder hpage (.inr hcompacted)

end

theorem reachable_consistent {bytes : Memory} {slotType : AnchorType} {alignment : Alignment}
    {isSaving : Bool} {page : SpagePage}
    (h : ((spageSystem bytes slotType alignment isSaving).guarded
      fun page call => call.2.Regular page).Reachable page) : Consistent page := by
  refine h.guarded_invariant Consistent ?_ ?_
  · rintro page rfl
    exact spageInitialize_consistent bytes slotType alignment isSaving
  · rintro page call page' hpage hop ⟨_, rfl⟩
    exact (SpageOp.run_inOrder hpage call.1 hop).1

/-- In every run of regular calls the header describes the slots. -/
theorem spage_representation (bytes : Memory) (slotType : AnchorType) (alignment : Alignment)
    (isSaving : Bool) (page : SpagePage)
    (h : ((spageSystem bytes slotType alignment isSaving).guarded
      fun page call => call.2.Regular page).Reachable page) : Representation page :=
  (reachable_consistent h).accounts.representation

def insertionQSort : QSort where
  sort key l := l.insertionSort fun i j => key i <= key j
  perm key l := perm_insertionSort _ l
  sorted key l := by
    exact pairwise_insertionSort _ l

/-- An active transaction that gets all the memory it asks for. -/
def activeThread (tranid : Tranid) : ThreadEntry where
  tranid := tranid
  isActive := true
  inCrashRecovery := false
  callocSlots := true
  mallocHead := true
  mallocEntry := true
  qsort := insertionQSort

def zeroRecord (length : Nat) : RecDes where
  areaSize := length
  length := length
  type := .home
  data := fun _ => 0

theorem spage_representation_inserted :
    Representation ((SpageOp.insert (zeroRecord 8)).run (activeThread 1)
      (spageInitialize (fun _ => 0) .anchored .double false)) := by
  refine spage_representation (fun _ => 0) .anchored .double false _ ?_
  refine System.reachable_guarded_of_follows [(activeThread 1, SpageOp.insert (zeroRecord 8))] ?_
  exact ⟨⟨⟨by decide, nofun⟩, trivial⟩, trivial⟩

/-- The slot is counted twice, though it has one record. -/
theorem spage_representation_recovered :
    exists page, (spageSystem (fun _ => 0) .anchored .double false).Reachable page ∧
      ¬ Representation page := by
  refine ⟨_, System.reachable_of_follows
    [(activeThread 1, SpageOp.insert (zeroRecord 8)),
      (activeThread 1, SpageOp.insertForRecovery 0 (zeroRecord 8))] ⟨trivial, trivial, trivial⟩, ?_⟩
  intro h
  have hrecords := h.numRecords
  revert hrecords
  decide +kernel

end Rye.Storage
