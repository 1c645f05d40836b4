import Rye.Storage.SlottedPage.Page

/-!
# Operations on slotted pages

Each routine takes the thread that runs it and the page, and returns its status
with the page that it leaves behind.  A pointer to a slot is the identifier of the
slot.  What a thread meets outside of the page is part of the thread: whether its
transaction is active, whether the system recovers from a crash, and whether
memory can be allocated.
-/

namespace Rye.Storage

open Foundation

structure QSort where
  sort : (Nat -> Nat) -> List Nat -> List Nat
  perm (key : Nat -> Nat) (l : List Nat) : (sort key l).Perm l
  sorted (key : Nat -> Nat) (l : List Nat) :
    (sort key l).Pairwise (fun i j => key i <= key j)

structure ThreadEntry where
  tranid : Tranid
  isActive : Bool
  inCrashRecovery : Bool
  callocSlots : Bool
  mallocHead : Bool
  mallocEntry : Bool
  qsort : QSort

/-!
## Savings
-/

def addSaved (tranid : Tranid) (space : Int) : List SpageSaveEntry -> List SpageSaveEntry
  | [] => []
  | entry :: entries =>
    if entry.tranid = tranid then { entry with saved := entry.saved + space } :: entries
    else entry :: addSaved tranid space entries

/-- The head with more space for a transaction that has an entry. -/
def SpageSaveHead.add (head : SpageSaveHead) (tranid : Tranid) (space : Int) : SpageSaveHead where
  totalSaved := head.totalSaved + space
  entries := addSaved tranid space head.entries

def SpageSaveHead.cons (head : SpageSaveHead) (tranid : Tranid) (space : Int) :
    SpageSaveHead where
  totalSaved := head.totalSaved + space
  entries := ⟨tranid, space⟩ :: head.entries

def SpageSaveHead.has (head : SpageSaveHead) (tranid : Tranid) : Bool :=
  head.entries.any (fun entry => entry.tranid = tranid)

/-- Save space for undoing; `false` when an allocation fails. -/
def spageSaveSpace (thread : ThreadEntry) (page : SpagePage) (space : Int) : Bool × SpagePage :=
  if space = 0 || thread.inCrashRecovery then (true, page)
  else if space < 0 || !thread.isActive then (true, page)
  else
    match page.saveHead with
    | none =>
      if thread.mallocHead && thread.mallocEntry then
        let head : SpageSaveHead := ⟨space, [⟨thread.tranid, space⟩]⟩
        (true, { page with saveHead := some head })
      else (false, page)
    | some head =>
      if head.has thread.tranid then
        (true, { page with saveHead := some (head.add thread.tranid space) })
      else if thread.mallocEntry then
        (true, { page with saveHead := some (head.cons thread.tranid space) })
      else (false, page)

/-- Release the entry of a transaction that has finished. -/
def spageFreeSavedSpaces (tranid : Tranid) (page : SpagePage) : SpagePage :=
  match page.saveHead with
  | none => page
  | some head =>
    match head.entries.find? (fun entry => entry.tranid = tranid) with
    | none => page
    | some entry =>
      let entries := head.entries.eraseP (fun entry => entry.tranid = tranid)
      let totalSaved :=
        if entry.saved > 0 then max (head.totalSaved - entry.saved) 0 else head.totalSaved
      if entries = [] then { page with saveHead := none }
      else { page with saveHead := some ⟨totalSaved, entries⟩ }

def spageGetTotalSavedSpaces (thread : ThreadEntry) (page : SpagePage) : Int :=
  if page.isSaving then
    if thread.inCrashRecovery then 0
    else
      match page.saveHead with
      | none => 0
      | some head => head.totalSaved
  else 0

def spageHasEnoughTotalSpace (thread : ThreadEntry) (page : SpagePage) (space : Int) : Bool :=
  if space <= 0 then true
  else if page.isSaving then
    let totalSaved := if thread.isActive then spageGetTotalSavedSpaces thread page else 0
    space <= page.totalFree - totalSaved
  else space <= page.totalFree

def dbAlignBelow (offset : Int) (alignment : Alignment) : Int :=
  offset / alignment.size * alignment.size

def spageMaxSpaceForNewRecord (thread : ThreadEntry) (page : SpagePage) : Int :=
  let totalFree := page.totalFree - spageGetTotalSavedSpaces thread page
  let totalFree :=
    if page.anchorType ≠ .anchored ∧ page.numSlots > page.numRecords then max totalFree 0
    else if totalFree - sizeofSpageSlot < sizeofSpageSlot then 0
    else totalFree - sizeofSpageSlot
  max (dbAlignBelow totalFree page.alignment) 0

def SpagePage.setOffset (page : SpagePage) (slotId offset : Int) : SpagePage :=
  page.setSlot slotId { page.slot slotId with offsetToRecord := bits14 offset }

/-- The loop over the sorted slots; an error leaves the page half compacted. -/
def compactLoop : List Nat -> SpagePage -> Int -> Except SpagePage (SpagePage × Int)
  | [], page, toOffset => .ok (page, toOffset)
  | i :: slotArray, page, toOffset =>
    let toOffset := dbAlign toOffset page.alignment
    let slot := page.slot i
    if toOffset = slot.offsetToRecord then
      compactLoop slotArray page (toOffset + slot.recordLength)
    else if toOffset + slot.recordLength > dbPagesize then .error page
    else
      let moved := { page with
        bytes := page.bytes.move toOffset slot.offsetToRecord slot.recordLength }
      let page := moved.setOffset i toOffset
      compactLoop slotArray page (toOffset + (page.slot i).recordLength)

def finishCompact (page : SpagePage) (toOffset : Int) : SpagePage :=
  let toOffset := dbAlign toOffset page.alignment
  let totalFree := dbPagesize - toOffset - page.numSlots * sizeofSpageSlot
  { page with totalFree := totalFree, contFree := totalFree, offsetToFreeArea := toOffset }

def SpageSlot.occupied (slot : SpageSlot) : Bool :=
  slot.offsetToRecord != spageEmptyOffset

/-- Compaction; `true` stands for `NO_ERROR`.  When the number of records is wrong the
process ends, and the page is as it was. -/
def spageCompact (thread : ThreadEntry) (page : SpagePage) : Bool × SpagePage :=
  if page.numRecords > 0 then
    if !thread.callocSlots then (false, page)
    else if (List.range page.numSlots).any (fun i : Nat =>
        (page.slot i).recordType.code > RecType.usedTypeMax.code) then (false, page)
    else
      let slotArray := (List.range page.numSlots).filter (fun i : Nat => (page.slot i).occupied)
      if page.numRecords ≠ slotArray.length then (false, page)
      else
        let sorted := thread.qsort.sort (fun i : Nat => (page.slot i).offsetToRecord) slotArray
        match compactLoop sorted page sizeofSpageHeader with
        | .error page => (false, page)
        | .ok (page, toOffset) => (true, finishCompact page toOffset)
  else (true, finishCompact page sizeofSpageHeader)

def spageHasEnoughContiguousSpace (thread : ThreadEntry) (page : SpagePage) (space : Int) :
    Bool × SpagePage :=
  if space <= page.contFree then (true, page) else spageCompact thread page

def spageCheckSpace (thread : ThreadEntry) (page : SpagePage) (space : Int) :
    SpStatus × SpagePage :=
  if spageHasEnoughTotalSpace thread page space then
    match spageHasEnoughContiguousSpace thread page space with
    | (true, page) => (.success, page)
    | (false, page) => (.error, page)
  else (.doesntFit, page)

/-!
## Insertion
-/

def spageFindFreeSlot (page : SpagePage) : Nat :=
  if page.numSlots = page.numRecords then page.numSlots
  else
    ((List.range page.numSlots).find? fun i : Nat =>
      (page.slot i).recordType = .deletedWillReuse).getD page.numSlots

/-- Separate an empty area for the record and adjust the header. -/
def separateArea (page : SpagePage) (slotId recordLength : Int) (recordType : RecType)
    (space : Int) : SpagePage :=
  let waste := dbWastedAlign recordLength page.alignment
  let page := spageSetSlot page slotId page.offsetToFreeArea recordLength recordType
  { page with
    numRecords := page.numRecords + 1
    totalFree := page.totalFree - space
    contFree := page.contFree - space
    offsetToFreeArea := page.offsetToFreeArea + (recordLength + waste) }

/-- A free area and a slot for a record; the slot is `nullSlotid` on failure. -/
def spageFindEmptySlot (thread : ThreadEntry) (page : SpagePage) (recordLength : Int)
    (recordType : RecType) : SpStatus × SpagePage × Int :=
  let waste := dbWastedAlign recordLength page.alignment
  let space := recordLength + waste
  if spageHasEnoughTotalSpace thread page space then
    let slotId := spageFindFreeSlot page
    if slotId = page.numSlots then
      let space := space + sizeofSpageSlot
      match spageCheckSpace thread page space with
      | (.success, page) =>
        let page := { page with numSlots := page.numSlots + 1 }
        (.success, separateArea page slotId recordLength recordType space, slotId)
      | (status, page) => (status, page, nullSlotid)
    else
      match spageHasEnoughContiguousSpace thread page space with
      | (true, page) => (.success, separateArea page slotId recordLength recordType space, slotId)
      | (false, page) => (.error, page, nullSlotid)
  else (.doesntFit, page, nullSlotid)

/-- The slots behind `slotId`, from the last one on, each take the one before. -/
def shiftSlotUpLoop (page : SpagePage) (lastSlot : Int) : Nat -> SpagePage
  | 0 => page
  | count + 1 =>
    shiftSlotUpLoop (page.setSlot lastSlot (page.slot (lastSlot - 1))) (lastSlot - 1) count

def spageShiftSlotUp (page : SpagePage) (slotId : Int) : SpagePage :=
  let page := shiftSlotUpLoop page page.numSlots (page.numSlots - slotId).toNat
  spageSetSlot page slotId spageEmptyOffset 0 .unknown

/-- The slots from `slotId` on each take the one behind. -/
def shiftSlotDownLoop (page : SpagePage) (slotId : Int) : Nat -> SpagePage
  | 0 => page
  | count + 1 => shiftSlotDownLoop (page.setSlot slotId (page.slot (slotId + 1))) (slotId + 1) count

def spageShiftSlotDown (page : SpagePage) (slotId : Int) : SpagePage :=
  let lastSlot : Int := page.numSlots - 1
  let page := shiftSlotDownLoop page slotId (lastSlot - slotId).toNat
  spageSetSlot page lastSlot spageEmptyOffset 0 .unknown

/-- Room for a new slot at the end; also the space with the slot. -/
def spageAddNewSlot (thread : ThreadEntry) (page : SpagePage) (space : Int) :
    SpStatus × SpagePage × Int :=
  let space := space + sizeofSpageSlot
  match spageCheckSpace thread page space with
  | (.success, page) =>
    let page := { page with numSlots := page.numSlots + 1 }
    (.success, spageSetSlot page (page.numSlots - 1) spageEmptyOffset 0 .unknown, space)
  | (status, page) => (status, page, space)

/-- Take a slot that may be reused, or shift the slots behind it. -/
def spageTakeSlotInUse (thread : ThreadEntry) (page : SpagePage) (slotId space : Int) :
    SpStatus × SpagePage × Int :=
  if (page.slot slotId).recordType = .deletedWillReuse then
    let (status, page) := spageCheckSpace thread page space
    (status, page, space)
  else if page.anchorType = .anchored then (.error, page, space)
  else
    let space := space + sizeofSpageSlot
    match spageCheckSpace thread page space with
    | (.success, page) =>
      let page := spageShiftSlotUp page slotId
      (.success, { page with numSlots := page.numSlots + 1 }, space)
    | (status, page) => (status, page, space)

def spageFindEmptySlotAt (thread : ThreadEntry) (page : SpagePage) (slotId recordLength : Int)
    (recordType : RecType) : SpStatus × SpagePage :=
  let waste := dbWastedAlign recordLength page.alignment
  let space := recordLength + waste
  if slotId > page.numSlots then (.error, page)
  else
    let found :=
      if slotId = page.numSlots then spageAddNewSlot thread page space
      else spageTakeSlotInUse thread page slotId space
    match found with
    | (.success, page, space) => (.success, separateArea page slotId recordLength recordType space)
    | (status, page, _) => (status, page)

/-- The check of the record with the type under which it is inserted. -/
def spageCheckRecordForInsert (recdes : RecDes) : SpStatus × RecDes :=
  if recdes.length > spageMaxRecordSize then (.doesntFit, recdes)
  else if recdes.type = .markdeleted ∨ recdes.type = .deletedWillReuse then
    (.success, { recdes with type := .home })
  else (.success, recdes)

def tranidBytes (tranid : Tranid) : Nat -> UInt8 :=
  fun k => UInt8.ofNat (tranid / 256 ^ k)

def spageInsertData (thread : ThreadEntry) (page : SpagePage) (recdes : RecDes) (slotId : Int) :
    SpStatus × SpagePage :=
  let offset := (page.slot slotId).offsetToRecord
  if recdes.length < 0 then (.error, page)
  else if recdes.type ≠ .assignAddress then
    if offset + recdes.length > dbPagesize then (.error, page)
    else
      (.success, { page with bytes := page.bytes.write offset recdes.length.toNat recdes.data })
  else if offset + sizeofTranid > dbPagesize then (.error, page)
  else
    (.success,
      { page with bytes := page.bytes.write offset sizeofTranid (tranidBytes thread.tranid) })

def spageFindSlotForInsert (thread : ThreadEntry) (page : SpagePage) (recdes : RecDes) :
    SpStatus × SpagePage × Int × RecDes :=
  match spageCheckRecordForInsert recdes with
  | (.success, recdes) =>
    let (status, page, slotId) := spageFindEmptySlot thread page recdes.length recdes.type
    (status, page, slotId, recdes)
  | (status, recdes) => (status, page, nullSlotid, recdes)

def spageInsert (thread : ThreadEntry) (page : SpagePage) (recdes : RecDes) :
    SpStatus × SpagePage × Int :=
  match spageFindSlotForInsert thread page recdes with
  | (.success, page, slotId, recdes) =>
    let (status, page) := spageInsertData thread page recdes slotId
    (status, page, slotId)
  | (status, page, slotId, _) => (status, page, slotId)

def spageInsertAt (thread : ThreadEntry) (page : SpagePage) (slotId : Int) (recdes : RecDes) :
    SpStatus × SpagePage :=
  if recdes.length < 0 then (.error, page)
  else
    match spageCheckRecordForInsert recdes with
    | (.success, recdes) =>
      if slotId > page.numSlots then (.error, page)
      else
        match spageFindEmptySlotAt thread page slotId recdes.length recdes.type with
        | (.success, page) => spageInsertData thread page recdes slotId
        | failure => failure
    | (status, _) => (status, page)

def SpagePage.setType (page : SpagePage) (slotId : Int) (type : RecType) : SpagePage :=
  page.setSlot slotId { page.slot slotId with recordType := type }

/-- An anchored slot is marked as reusable first; the identifier of the transaction is not
written for a new address. -/
def spageInsertForRecovery (thread : ThreadEntry) (page : SpagePage) (slotId : Int)
    (recdes : RecDes) : SpStatus × SpagePage :=
  if recdes.length < 0 then (.error, page)
  else if page.anchorType ≠ .anchored then spageInsertAt thread page slotId recdes
  else
    match spageCheckRecordForInsert recdes with
    | (.success, recdes) =>
      let page :=
        if slotId < page.numSlots then page.setType slotId .deletedWillReuse else page
      match spageFindEmptySlotAt thread page slotId recdes.length recdes.type with
      | (.success, page) =>
        let offset := (page.slot slotId).offsetToRecord
        if recdes.type ≠ .assignAddress then
          if offset + recdes.length > dbPagesize then (.error, page)
          else
            (.success,
              { page with bytes := page.bytes.write offset recdes.length.toNat recdes.data })
        else (.success, page)
      | failure => failure
    | (status, _) => (status, page)

def spageIsRecordLocatedAtEnd (page : SpagePage) (slot : SpageSlot) : Bool :=
  let waste := dbWastedAlign slot.recordLength page.alignment
  slot.offsetToRecord + slot.recordLength + waste = page.offsetToFreeArea

def spageReduceASlot (page : SpagePage) : SpagePage :=
  let page := spageSetSlot page (page.numSlots - 1) spageEmptyOffset 0 .unknown
  { page with
    numSlots := page.numSlots - 1
    totalFree := page.totalFree + sizeofSpageSlot
    contFree := page.contFree + sizeofSpageSlot }

def releaseArea (page : SpagePage) (slot : SpageSlot) : SpagePage :=
  let waste := dbWastedAlign slot.recordLength page.alignment
  let freeSpace := slot.recordLength + waste
  let released := { page with
    numRecords := page.numRecords - 1
    totalFree := page.totalFree + freeSpace }
  if spageIsRecordLocatedAtEnd page slot then
    { released with
      contFree := page.contFree + freeSpace
      offsetToFreeArea := page.offsetToFreeArea - freeSpace }
  else released

/-- Delete a record; the slot is the identifier or `nullSlotid`. -/
def spageDelete (thread : ThreadEntry) (page : SpagePage) (slotId : Int) : Int × SpagePage :=
  match spageFindSlot page slotId with
  | none => (nullSlotid, page)
  | some slot =>
    let freeSpace := slot.recordLength + dbWastedAlign slot.recordLength page.alignment
    let released := releaseArea page slot
    let (freeSpace, removed) :=
      match page.anchorType with
      | .anchored => (freeSpace, (released.setOffset slotId spageEmptyOffset).setType slotId
          .markdeleted)
      | .unanchoredKeepSequence | .unanchoredKeepSequenceBtree =>
        (freeSpace + sizeofSpageSlot, spageReduceASlot (spageShiftSlotDown released slotId))
    if page.isSaving then
      match spageSaveSpace thread removed freeSpace with
      | (true, page) => (slotId, page)
      | (false, page) => (nullSlotid, page)
    else (slotId, removed)

def spageDeleteForRecovery (thread : ThreadEntry) (page : SpagePage) (slotId : Int) :
    Int × SpagePage :=
  match spageDelete thread page slotId with
  | (deleted, page) => if deleted ≠ slotId then (nullSlotid, page) else (slotId, page)

/-!
## Update
-/

/-- The checks of an update; on success the slot with the space the update needs. -/
def spageCheckUpdatable (thread : ThreadEntry) (page : SpagePage) (slotId : Int)
    (recdes : RecDes) : Except SpStatus (SpageSlot × Int) :=
  if recdes.length < 0 then .error .error
  else if recdes.length > spageMaxRecordSize then .error .doesntFit
  else
    match spageFindSlot page slotId with
    | none => .error .error
    | some slot =>
      let oldWaste := dbWastedAlign slot.recordLength page.alignment
      let newWaste := dbWastedAlign recdes.length page.alignment
      let space := recdes.length + newWaste - slot.recordLength - oldWaste
      if spageHasEnoughTotalSpace thread page space then .ok (slot, space)
      else .error .doesntFit

def SpagePage.setLength (page : SpagePage) (slotId length : Int) : SpagePage :=
  page.setSlot slotId { page.slot slotId with recordLength := bits14 length }

def spageUpdateRecordInPlace (page : SpagePage) (slotId : Int) (recdes : RecDes)
    (space : Int) : SpStatus × SpagePage :=
  if recdes.length < 0 then (.error, page)
  else
    let isLocatedEnd := spageIsRecordLocatedAtEnd page (page.slot slotId)
    let page := page.setLength slotId recdes.length
    let offset := (page.slot slotId).offsetToRecord
    if offset + recdes.length > dbPagesize then (.error, page)
    else
      let page := { page with
        bytes := page.bytes.write offset recdes.length.toNat recdes.data
        totalFree := page.totalFree - space }
      (.success,
        if isLocatedEnd then
          { page with
            contFree := page.contFree - space
            offsetToFreeArea := page.offsetToFreeArea + space }
        else page)

def spageAddContiguousFreeSpace (page : SpagePage) (space : Int) : SpagePage :=
  { page with
    totalFree := page.totalFree + space
    contFree := page.contFree + space
    offsetToFreeArea := page.offsetToFreeArea - space }

/-- The page without the record, with its compaction; undone when that fails. -/
def compactWithout (thread : ThreadEntry) (page : SpagePage) (slotId oldWaste : Int) :
    Bool × SpagePage :=
  let oldSlot := page.slot slotId
  let oldSize := oldWaste + oldSlot.recordLength
  let hidden := page.setOffset slotId spageEmptyOffset
  let hidden := { hidden with
    totalFree := hidden.totalFree + oldSize
    numRecords := hidden.numRecords - 1 }
  match spageCompact thread hidden with
  | (true, page) => (true, { page with numRecords := page.numRecords + 1 })
  | (false, page) =>
    let page := page.setOffset slotId oldSlot.offsetToRecord
    (false, { page with
      totalFree := page.totalFree - oldSize
      numRecords := page.numRecords + 1 })

/-- Put the record at the free area; `space` is what it takes of the total. -/
def placeRecord (page : SpagePage) (slotId : Int) (recdes : RecDes) (space : Int) :
    SpStatus × SpagePage :=
  let newWaste := dbWastedAlign recdes.length page.alignment
  let page := spageSetSlot page slotId page.offsetToFreeArea recdes.length
    (page.slot slotId).recordType
  if page.offsetToFreeArea + recdes.length > dbPagesize then (.error, page)
  else
    (.success, { page with
      bytes := page.bytes.write page.offsetToFreeArea recdes.length.toNat recdes.data
      totalFree := page.totalFree - space
      contFree := page.contFree - (recdes.length + newWaste)
      offsetToFreeArea := page.offsetToFreeArea + (recdes.length + newWaste) })

def spageUpdateRecordAfterCompact (thread : ThreadEntry) (page : SpagePage) (slotId : Int)
    (recdes : RecDes) (space : Int) : SpStatus × SpagePage :=
  let slot := page.slot slotId
  let oldWaste := dbWastedAlign slot.recordLength page.alignment
  let newWaste := dbWastedAlign recdes.length page.alignment
  if recdes.length < 0 then (.error, page)
  else if spageIsRecordLocatedAtEnd page slot ∧ space <= page.contFree then
    let page := spageAddContiguousFreeSpace page (oldWaste + slot.recordLength)
    placeRecord page slotId recdes (recdes.length + newWaste)
  else if recdes.length + newWaste > page.contFree then
    match compactWithout thread page slotId oldWaste with
    | (true, page) => placeRecord page slotId recdes (recdes.length + newWaste)
    | (false, page) => (.error, page)
  else placeRecord page slotId recdes space

def spageUpdate (thread : ThreadEntry) (page : SpagePage) (slotId : Int) (recdes : RecDes) :
    SpStatus × SpagePage :=
  if recdes.length < 0 then (.error, page)
  else
    match spageCheckUpdatable thread page slotId recdes with
    | .error status => (status, page)
    | .ok (slot, space) =>
      let updated :=
        if recdes.length <= slot.recordLength then
          spageUpdateRecordInPlace page slotId recdes space
        else spageUpdateRecordAfterCompact thread page slotId recdes space
      match updated with
      | (.success, after) =>
        if page.isSaving then
          match spageSaveSpace thread after (after.totalFree - page.totalFree) with
          | (true, page) => (.success, page)
          | (false, page) => (.error, page)
        else (.success, after)
      | failure => failure

end Rye.Storage
