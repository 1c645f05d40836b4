import Rye.Foundation.Memory

/-!
# Slotted pages

A page starts with a header.  The records follow it and grow upward; the slots
grow downward from the end of the page.  A slot packs the offset, the length and
the type of its record into four bytes.

The slots are kept in the bytes of the page, as in the source, so that a record
that ran into them would destroy them.  The header fields and the savings for
the page are kept apart.  Assertions are the ones of a release build: they do
nothing.
-/

namespace Rye.Storage

open Foundation

def dbPagesize : Int := 16376
def sizeofSpageHeader : Int := 40
def sizeofSpageSlot : Int := 4
def sizeofTranid : Nat := 4
def spageEmptyOffset : Nat := 0
def nullSlotid : Int := -1

def spageMaxRecordSize : Int :=
  dbPagesize - sizeofSpageHeader - sizeofSpageSlot

inductive AnchorType where
  | anchored
  | unanchoredKeepSequence
  | unanchoredKeepSequenceBtree
deriving DecidableEq, Repr

inductive Alignment where
  | char
  | short
  | int
  | double
deriving DecidableEq, Repr

def Alignment.size : Alignment -> Int
  | .char => 1
  | .short => 2
  | .int => 4
  | .double => 8

/-- The macro clears the low bits; all alignments are powers of two. -/
def dbAlign (offset : Int) (align : Alignment) : Int :=
  (offset + align.size - 1) / align.size * align.size

def dbWastedAlign (offset : Int) (align : Alignment) : Int :=
  dbAlign offset align - offset

inductive RecType where
  | unknown
  | assignAddress
  | home
  | newhome
  | relocation
  | bigone
  | markdeleted
  | deletedWillReuse
  | reserved08
  | reserved09
  | reserved10
  | reserved11
  | reserved12
  | reserved13
  | reserved14
  | reserved15
deriving DecidableEq, Repr

namespace RecType

def code (type : RecType) : Nat :=
  type.ctorIdx

def ofCode : Nat -> RecType
  | 0 => .unknown
  | 1 => .assignAddress
  | 2 => .home
  | 3 => .newhome
  | 4 => .relocation
  | 5 => .bigone
  | 6 => .markdeleted
  | 7 => .deletedWillReuse
  | 8 => .reserved08
  | 9 => .reserved09
  | 10 => .reserved10
  | 11 => .reserved11
  | 12 => .reserved12
  | 13 => .reserved13
  | 14 => .reserved14
  | _ => .reserved15

def usedTypeMax : RecType := .deletedWillReuse

theorem ofCode_code (type : RecType) : ofCode type.code = type := by
  cases type <;> rfl

theorem code_lt (type : RecType) : type.code < 16 := by
  cases type <;> decide

end RecType

structure SpageSlot where
  offsetToRecord : Nat
  recordLength : Nat
  recordType : RecType
deriving DecidableEq, Repr

def bits14 (n : Int) : Nat :=
  (n % 16384).toNat

namespace SpageSlot

/-- The slot as a word: 14 bits of offset, 14 bits of length, 4 bits of type. -/
def encode (slot : SpageSlot) : Nat :=
  slot.offsetToRecord % 16384 + 16384 * (slot.recordLength % 16384) +
    268435456 * slot.recordType.code

def decode (word : Nat) : SpageSlot where
  offsetToRecord := word % 16384
  recordLength := word / 16384 % 16384
  recordType := RecType.ofCode (word / 268435456)

structure Fits (slot : SpageSlot) : Prop where
  offset : slot.offsetToRecord < 16384
  length : slot.recordLength < 16384

theorem encode_lt (slot : SpageSlot) : slot.encode < 2 ^ 32 := by
  have htype := slot.recordType.code_lt
  unfold encode
  omega

theorem decode_encode {slot : SpageSlot} (h : slot.Fits) : decode slot.encode = slot := by
  have hoffset := h.offset
  have hlength := h.length
  have hword : slot.encode / 268435456 = slot.recordType.code := by
    unfold encode
    omega
  unfold decode
  rw [hword, RecType.ofCode_code]
  unfold encode
  congr 1 <;> omega

end SpageSlot

/-!
## The page
-/

abbrev Tranid := Nat

structure SpageSaveEntry where
  tranid : Tranid
  saved : Int
deriving DecidableEq, Repr

structure SpageSaveHead where
  totalSaved : Int
  entries : List SpageSaveEntry
deriving DecidableEq, Repr

structure SpagePage where
  numSlots : Nat
  numRecords : Int
  anchorType : AnchorType
  alignment : Alignment
  totalFree : Int
  contFree : Int
  offsetToFreeArea : Int
  isSaving : Bool
  bytes : Memory
  saveHead : Option SpageSaveHead

structure RecDes where
  areaSize : Int
  length : Int
  type : RecType
  data : Nat -> UInt8

inductive SpStatus where
  | error
  | success
  | doesntFit
deriving DecidableEq, Repr

def slotAddress (slotId : Int) : Int :=
  dbPagesize - sizeofSpageSlot - sizeofSpageSlot * slotId

namespace SpagePage

def slot (page : SpagePage) (slotId : Int) : SpageSlot :=
  .decode (page.bytes.word (slotAddress slotId))

def setSlot (page : SpagePage) (slotId : Int) (slot : SpageSlot) : SpagePage :=
  { page with bytes := page.bytes.setWord (slotAddress slotId) slot.encode }

end SpagePage

def spageSetSlot (page : SpagePage) (slotId offset length : Int) (type : RecType) : SpagePage :=
  page.setSlot slotId
    { offsetToRecord := bits14 offset, recordLength := bits14 length, recordType := type }

def spageInitialize (bytes : Memory) (slotType : AnchorType) (alignment : Alignment)
    (isSaving : Bool) : SpagePage :=
  let totalFree := dbAlign (dbPagesize - sizeofSpageHeader) alignment
  { numSlots := 0
    numRecords := 0
    anchorType := slotType
    alignment := alignment
    totalFree := totalFree
    contFree := totalFree
    offsetToFreeArea := dbAlign sizeofSpageHeader alignment
    isSaving := isSaving
    bytes := bytes
    saveHead := none }

def spageIsUnknownSlot (slotId : Int) (page : SpagePage) : Bool :=
  let slot := page.slot slotId
  let maxOffset := dbPagesize - page.numSlots * sizeofSpageSlot
  slotId < 0 || page.numSlots <= slotId || slot.offsetToRecord = spageEmptyOffset ||
    slot.offsetToRecord < sizeofSpageHeader || slot.offsetToRecord > maxOffset

/-- The slot of a record; slots are referred to by their identifiers. -/
def spageFindSlot (page : SpagePage) (slotId : Int) : Option SpageSlot :=
  if spageIsUnknownSlot slotId page then none else some (page.slot slotId)

inductive ScanCode where
  | error
  | success
  | doesntFit
  | doesntExist
deriving DecidableEq, Repr

/-- The record in place, or a copy of it in the area of the descriptor. -/
def spageGetRecordData (page : SpagePage) (slot : SpageSlot) (recdes : RecDes)
    (isPeeking : Bool) : ScanCode × RecDes :=
  let onPage : Nat -> UInt8 := fun k => page.bytes (slot.offsetToRecord + k)
  let found := { recdes with length := slot.recordLength, type := slot.recordType }
  if isPeeking then (.success, { found with areaSize := -1, data := onPage })
  else if recdes.areaSize < 0 ∨ recdes.areaSize < slot.recordLength then
    (.doesntFit, { recdes with length := -slot.recordLength })
  else if slot.offsetToRecord + slot.recordLength > dbPagesize then (.error, recdes)
  else
    (.success,
      { found with data := fun k => if k < slot.recordLength then onPage k else recdes.data k })

def spageGetRecord (page : SpagePage) (slotId : Int) (recdes : RecDes) (isPeeking : Bool) :
    ScanCode × RecDes :=
  match spageFindSlot page slotId with
  | none => (.doesntExist, { recdes with length := 0 })
  | some slot => spageGetRecordData page slot recdes isPeeking

end Rye.Storage
