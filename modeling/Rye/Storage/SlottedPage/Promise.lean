import Rye.Storage.SlottedPage.Invariant

/-!
# The promise of free space

`spage_max_space_for_new_record` counts the space of a slot, whether or not a deleted slot can be
reused.  Only a page without anchors and with more slots than records is an exception, and regular
calls leave no such page.  So the space it reports is there for the next insertion, possibly after
a compaction.
-/

namespace Rye.Storage

open Foundation

theorem dbAlign_le_dbAlignBelow {n m : Int} {a : Alignment} (h : n <= dbAlignBelow m a) :
    dbAlign n a <= m := by
  cases a <;> simp only [dbAlign, dbAlignBelow, Alignment.size] at h ⊢ <;> omega

theorem Consistent.not_reused {page : SpagePage} (hpage : Consistent page) :
    ¬ (page.anchorType ≠ .anchored ∧ page.numSlots > page.numRecords) := by
  rintro ⟨hanchor, hlt⟩
  have hcount : page.numRecords = page.slots.countP SpageSlot.occupied := hpage.accounts.numRecords
  rw [List.countP_eq_length.mpr (hpage.full hanchor), page.length_slots] at hcount
  omega

theorem hasEnoughTotalSpace_of_promise {thread : ThreadEntry} {page : SpagePage} {n : Int}
    (hpage : Consistent page) (hpos : 0 < spageMaxSpaceForNewRecord thread page)
    (hn : n <= spageMaxSpaceForNewRecord thread page) :
    spageHasEnoughTotalSpace thread page (dbAlign n page.alignment + sizeofSpageSlot) = true := by
  unfold spageMaxSpaceForNewRecord at hpos hn
  dsimp only at hpos hn
  rw [if_neg hpage.not_reused] at hpos hn
  split_ifs at hpos hn with hfew
  · -- The space of one slot is left, which is reported as none.
    rw [dbAlignBelow, Int.zero_ediv, Int.zero_mul] at hpos
    exact absurd hpos (by decide)
  have hbelow := dbAlign_le_dbAlignBelow (hn.trans (max_eq_left (by omega)).le)
  have hsaved := hpage.totalSaved_nonneg thread
  unfold spageHasEnoughTotalSpace
  split_ifs with hspace hsaving hactive
  all_goals first | rfl | exact decide_eq_true (by omega)

def deleteFirst : List (ThreadEntry × SpageOp) :=
  [(activeThread 1, .insert (zeroRecord 8000)), (activeThread 1, .insert (zeroRecord 8000)),
    (activeThread 1, .delete 0)]

end Rye.Storage
