import Rye.Storage.SlottedPage.Invariant

/-!
# The records of a page

A page stands for the list of the records that can be read from its slots.  An
insertion, a deletion and an update change this list at one place, with or without a
compaction on the way, and a compaction changes nothing.

There is one exception.  An empty record needs no area and may start anywhere up to the
slots.  When the slots grow over its start, it is taken for a slot that does not exist.
-/

namespace Rye.Storage

open Foundation List SpageOp SpagePage

def SpagePage.getRecord (page : SpagePage) (slotId : Int) : Option Record :=
  match spageGetRecord page slotId ⟨-1, 0, .unknown, fun _ => 0⟩ true with
  | (.success, found) => some (found.record found.type)
  | _ => none

def SpagePage.records (page : SpagePage) : List (Option Record) :=
  (List.range page.numSlots).map fun i : Nat => page.getRecord i

/-- A record was put at the slot, in a new one or in one that was there. -/
def PutsRecord (page page' : SpagePage) (slotId : Int) (recdes : RecDes) : Prop :=
  exists (k : Nat) (r : Record), slotId = k ∧ InsertedRecord recdes r ∧
    page'.records = putAt (takesNewSlot page k) page.records k (some r)

def RemovesRecord (page page' : SpagePage) (slotId : Int) : Prop :=
  exists (k : Nat) (old : Record), slotId = k ∧ page.records[k]? = some (some old) ∧
    page'.records =
      if page.anchorType = .anchored then page.records.set k none else page.records.eraseIdx k

def ReplacesRecord (page page' : SpagePage) (slotId : Int) (recdes : RecDes) : Prop :=
  exists (k : Nat) (old : Record), slotId = k ∧ page.records[k]? = some (some old) ∧
    page'.records = page.records.set k (some (recdes.record old.type))

/-- A successful call changes the addressed slot and no other. -/
def SpageOp.Refines (thread : ThreadEntry) (page : SpagePage) : SpageOp -> Prop
  | .insert recdes =>
    forall page' slotId, spageInsert thread page recdes = (.success, page', slotId) ->
      PutsRecord page page' slotId recdes
  | .insertAt slotId recdes =>
    forall page', spageInsertAt thread page slotId recdes = (.success, page') ->
      PutsRecord page page' slotId recdes
  | .insertForRecovery slotId recdes =>
    forall page', spageInsertForRecovery thread page slotId recdes = (.success, page') ->
      PutsRecord page page' slotId recdes
  | .delete slotId =>
    forall deleted page', spageDelete thread page slotId = (deleted, page') ->
      deleted ≠ nullSlotid -> RemovesRecord page page' slotId
  | .update slotId recdes =>
    forall page', spageUpdate thread page slotId recdes = (.success, page') ->
      ReplacesRecord page page' slotId recdes
  | .compact => (spageCompact thread page).2.records = page.records

section

variable {page : SpagePage} (hpage : Accounts page.area page.slots) (hvisible : page.Visible)
include hpage hvisible

theorem spageFindSlot_eq {i : Nat} (hi : i < page.numSlots) :
    spageFindSlot page i = if (page.slot i).occupied then some (page.slot i) else none := by
  have hmem := slot_mem_slots hi
  have hunknown : spageIsUnknownSlot i page = !(page.slot i).occupied := by
    unfold spageIsUnknownSlot
    cases hocc : (page.slot i).occupied with
    | false =>
      have hempty : (page.slot i).offsetToRecord = spageEmptyOffset := by
        simpa [SpageSlot.occupied] using hocc
      simp [hempty]
    | true =>
      have hheader := (hpage.placed _ hmem hocc).header_le
      have hstart := hvisible _ hmem hocc
      have hne : (page.slot i).offsetToRecord ≠ spageEmptyOffset :=
        (SpageSlot.occupied_iff _).mp hocc
      rw [slotAddress_eq] at hstart
      rw [show sizeofSpageSlot = 4 from rfl]
      simp only [Bool.not_true, Bool.or_eq_false_iff, decide_eq_false_iff_not]
      exact ⟨⟨⟨⟨by omega, by omega⟩, hne⟩, by omega⟩, by omega⟩
  unfold spageFindSlot
  rw [hunknown]
  cases (page.slot i).occupied <;> rfl

theorem records_eq_contents : page.records = page.contents := by
  unfold records contents slots
  rw [map_map]
  apply map_congr_left
  intro i hi
  unfold getRecord spageGetRecord
  rw [spageFindSlot_eq hpage hvisible (mem_range.mp hi), Function.comp_apply, recordOf]
  cases (page.slot i).occupied <;> rfl

theorem records_getElem? {k : Nat} (hk : k < page.numSlots) (hocc : (page.slot k).occupied = true) :
    exists old : Record, old.type = (page.slot k).recordType ∧
      page.records[k]? = some (some old) := by
  have hlt : k < page.contents.length := by rwa [length_contents]
  rw [records_eq_contents hpage hvisible, getElem?_eq_getElem hlt, getElem_contents hlt,
    recordOf, if_pos hocc]
  exact ⟨_, rfl, rfl⟩

end

/-!
## One call
-/

variable {page : SpagePage}

theorem records_spageSaveSpace (thread : ThreadEntry) (page : SpagePage) (space : Int) :
    (spageSaveSpace thread page space).2.records = page.records := by
  rcases spageSaveSpace_same thread page space with ⟨saved, head, hrun, _⟩
  rw [hrun]
  rfl

section

variable {page page' : SpagePage} (hpage : Consistent page) (hvisible : page.Visible)
include hpage hvisible

variable {recdes : RecDes}

theorem Inserted.putsRecord {k : Nat} (h : Inserted page page' k recdes)
    (hleaves : LeavesVisible page k recdes.length) : PutsRecord page page' k recdes := by
  rcases h with ⟨⟨r, hr, heffect⟩, hafter⟩
  refine ⟨k, r, rfl, hr, ?_⟩
  rw [records_eq_contents heffect.accounts (hafter hleaves hvisible), heffect.contents,
    records_eq_contents hpage.accounts hvisible]

variable (thread : ThreadEntry)

theorem spageInsert_refines (hregular : (insert recdes).Regular page)
    (hkeeps : (insert recdes).KeepsVisible page) :
    (insert recdes).Refines thread page := by
  intro page' slotId hrun
  rcases spageInsert_spec thread hpage hregular.1 hregular.2 with ⟨status, after, k, hrun', hcases⟩
  rw [hrun] at hrun'
  cases hrun'
  rcases hcases with ⟨hfail, _⟩ | ⟨_, rfl, hinserted⟩
  · exact absurd rfl hfail
  · exact hinserted.putsRecord hpage hvisible (hkeeps.of_last _)

theorem spageInsertAt_refines {slotId : Int} (hregular : (insertAt slotId recdes).Regular page)
    (hkeeps : (insertAt slotId recdes).KeepsVisible page) :
    (insertAt slotId recdes).Refines thread page := by
  intro page' hrun
  rcases hregular with ⟨hslot, hfits⟩
  lift slotId to Nat using hslot
  rcases spageInsertAt_spec thread hpage slotId hfits with ⟨status, after, hrun', hcases⟩
  rw [hrun] at hrun'
  cases hrun'
  rcases hcases with ⟨hfail, _⟩ | ⟨_, _, _, hinserted⟩
  · exact absurd rfl hfail
  · exact hinserted.putsRecord hpage hvisible hkeeps

theorem spageInsertForRecovery_refines {slotId : Int}
    (hregular : (insertForRecovery slotId recdes).Regular page)
    (hkeeps : (insertForRecovery slotId recdes).KeepsVisible page) :
    (insertForRecovery slotId recdes).Refines thread page := by
  intro page' hrun
  rcases hregular with ⟨hslot, hempty, hfits⟩
  lift slotId to Nat using hslot
  rcases spageInsertForRecovery_spec thread hpage slotId
    (fun hanchor hlt => hempty hanchor (by exact_mod_cast hlt)) hfits with
    ⟨status, after, hrun', hcases⟩
  rw [hrun] at hrun'
  cases hrun'
  rcases hcases with ⟨hfail, _⟩ | ⟨_, _, _, hinserted⟩
  · exact absurd rfl hfail
  · exact hinserted.putsRecord hpage hvisible hkeeps

theorem spageDelete_refines (slotId : Int) : (delete slotId).Refines thread page := by
  intro deleted page' hrun hdeleted
  rcases spageDelete_spec thread hpage slotId with
    ⟨_, hnone⟩ | ⟨k, removed, rfl, hk, hocc, _, heffect, hsome⟩
  · rw [hrun] at hnone
    cases hnone
    exact absurd rfl hdeleted
  rcases records_getElem? hpage.accounts hvisible hk hocc with ⟨old, _, hold⟩
  have hremoved := heffect.visible_of_length (length_removedContents_le page k) hvisible
  have hrecords : removed.records = removedContents page k := by
    rw [records_eq_contents heffect.accounts hremoved, heffect.contents]
  have hpage' : page'.records = removed.records := by
    have hsaved := records_spageSaveSpace thread removed (deletedSpace page k)
    rw [hrun] at hsome
    split_ifs at hsome
    · rcases hsave : spageSaveSpace thread removed (deletedSpace page k) with ⟨saved, after⟩
      rw [hsave] at hsome hsaved
      cases saved with
      | true =>
        cases hsome
        exact hsaved
      | false =>
        cases hsome
        exact absurd rfl hdeleted
    · cases hsome
      rfl
  refine ⟨k, old, rfl, hold, ?_⟩
  rw [hpage', hrecords, removedContents, records_eq_contents hpage.accounts hvisible]

theorem spageUpdate_refines (slotId : Int) (recdes : RecDes) :
    (update slotId recdes).Refines thread page := by
  intro page' hrun
  rcases spageUpdate_spec thread hpage slotId recdes with
    ⟨status, _, hfail, hstatus, _⟩ | ⟨k, after, rfl, hk, hocc, _, heffect, hsome, _⟩
  · rw [hrun] at hfail
    cases hfail
    exact absurd rfl hstatus
  rcases records_getElem? hpage.accounts hvisible hk hocc with ⟨old, htype, hold⟩
  have hafter := heffect.visible_of_length (le_of_eq length_set) hvisible
  have hrecords : after.records =
      page.contents.set k (some (recdes.record (page.slot k).recordType)) := by
    rw [records_eq_contents heffect.accounts hafter, heffect.contents]
  have hpage' : page'.records = after.records := by
    have hsaved := records_spageSaveSpace thread after (after.totalFree - page.totalFree)
    rw [hrun] at hsome
    split_ifs at hsome
    · rcases hsave : spageSaveSpace thread after (after.totalFree - page.totalFree) with
        ⟨saved, page''⟩
      rw [hsave] at hsome hsaved
      cases saved with
      | true =>
        cases hsome
        exact hsaved
      | false => cases hsome
    · cases hsome
      rfl
  refine ⟨k, old, rfl, hold, ?_⟩
  rw [hpage', hrecords, records_eq_contents hpage.accounts hvisible, htype]

theorem spageCompact_refines : compact.Refines thread page := by
  rcases spageCompact_spec thread hpage.accounts with ⟨_, hrun⟩ | ⟨page', hrun, hcompacted⟩
  · rw [Refines, hrun]
  have heffect := MaybeCompacted.effect (.inr hcompacted) hpage.accounts
  have hafter := heffect.visible_of_length (le_refl _) hvisible
  rw [Refines, hrun]
  rw [records_eq_contents heffect.accounts hafter, heffect.contents,
    records_eq_contents hpage.accounts hvisible]

theorem SpageOp.refines {op : SpageOp} (hregular : op.Regular page) (hkeeps : op.KeepsVisible page) :
    op.Refines thread page := by
  cases op with
  | insert recdes => exact spageInsert_refines hpage hvisible thread hregular hkeeps
  | insertAt slotId recdes => exact spageInsertAt_refines hpage hvisible thread hregular hkeeps
  | insertForRecovery slotId recdes =>
    exact spageInsertForRecovery_refines hpage hvisible thread hregular hkeeps
  | delete slotId => exact spageDelete_refines hpage hvisible thread slotId
  | update slotId recdes => exact spageUpdate_refines hpage hvisible thread slotId recdes
  | compact => exact spageCompact_refines hpage hvisible thread

end

theorem reachable_visible {bytes : Memory} {slotType : AnchorType} {alignment : Alignment}
    {isSaving : Bool} (h : ((spageSystem bytes slotType alignment isSaving).guarded fun page call =>
      call.2.Regular page ∧ call.2.KeepsVisible page).Reachable page) :
    Consistent page ∧ page.Visible := by
  refine h.guarded_invariant (fun page => Consistent page ∧ page.Visible) ?_ ?_
  · rintro page rfl
    exact ⟨spageInitialize_consistent bytes slotType alignment isSaving,
      fun s hs => absurd hs not_mem_nil⟩
  · rintro page call page' ⟨hpage, hvisible⟩ ⟨hregular, hkeeps⟩ ⟨_, rfl⟩
    have hrun := run_inOrder hpage call.1 hregular
    exact ⟨hrun.1, hrun.2 hkeeps hvisible⟩

/-- A large record fills the page up to an empty one, and is deleted. -/
def emptyAtEnd : List (ThreadEntry × SpageOp) :=
  [(activeThread 1, .insert (zeroRecord 16328)), (activeThread 1, .insert (zeroRecord 0)),
    (activeThread 1, .delete 0)]

def emptyAtEndPage : SpagePage :=
  emptyAtEnd.foldl (fun page call => call.2.run call.1 page)
    (spageInitialize (fun _ => 0) .anchored .double false)

end Rye.Storage
