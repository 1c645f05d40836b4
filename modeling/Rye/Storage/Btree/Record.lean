import Rye.Object.OrBuf

/-!
# Records of a B-tree page

A record of a leaf is a key; a record of an inner page is the identifier of a
child page and a key.  A key is written as one bound bit for every column and
then the columns that are not null.  The last column is the identifier of the
object, which a separator may drop.

The columns are written and read by their types.  What the types promise is kept
with them: a column takes exactly its declared size and is read back from
whatever bytes follow it.
-/

namespace Rye.Storage

open Foundation Object

def btreeMaxKeylen : Nat := 900

/-- The types of columns, with their domains, and the values that they have. -/
structure IndexTypes (T V : Type) where
  typeOf : V -> T
  oid : T
  indexLengthval : V -> Nat
  indexWriteval : V -> List UInt8
  indexReadval : T -> List UInt8 -> Option (V × List UInt8)
  length_writeval (v : V) : (indexWriteval v).length = indexLengthval v
  readval_writeval (v : V) (rest : List UInt8) :
    indexReadval (typeOf v) (indexWriteval v ++ rest) = some (v, rest)

/-- The values of a key; null is `none`. -/
abbrev DbIdxkey (V : Type) := List (Option V)

structure OrIndex (T : Type) where
  atts : List T

structure Vpid where
  pageid : Int32
  volid : Int16
deriving DecidableEq, Repr

inductive NodeRec where
  | leaf
  | nonLeaf (pnt : Vpid)
deriving DecidableEq, Repr

inductive NodeType where
  | leaf
  | nonLeaf
deriving DecidableEq, Repr

def NodeRec.nodeType : NodeRec -> NodeType
  | .leaf => .leaf
  | .nonLeaf _ => .nonLeaf

def orMultiBoundBitBytes (count : Nat) : Nat :=
  (count + 7) / 8

def orMultiBoundBitMask (element : Nat) : Nat :=
  2 ^ (element % 8)

def orMultiAttIsBound (bits : List UInt8) (element : Nat) : Bool :=
  (bits.getD (element / 8) 0).toNat &&& orMultiBoundBitMask element != 0

/-- The bit is set in a buffer in which the bits start at `start`. -/
def orEnableBoundBit (start : Nat) (bytes : List UInt8) (element : Nat) : List UInt8 :=
  bytes.modify (start + element / 8) fun byte =>
    UInt8.ofNat (byte.toNat ||| orMultiBoundBitMask element)

variable {T V : Type}

def btreeGetKeyLength (types : IndexTypes T V) (key : DbIdxkey V) : Nat :=
  orMultiBoundBitBytes key.length + (key.map fun val => (val.map types.indexLengthval).getD 0).sum

def orIgnore (buf : OrBuf) (result : Option OrBuf) : OrBuf :=
  result.getD buf

def btreeWriteFixedPortionOfNonLeafRecord (buf : OrBuf) (pnt : Vpid) : OrBuf :=
  let buf := orIgnore buf (orPutInt buf pnt.pageid)
  orIgnore buf (orPutShort buf pnt.volid)

/-- The loop over the columns from column `i` on. -/
def writeColumns (types : IndexTypes T V) (boundBits : Nat) :
    Nat -> DbIdxkey V -> OrBuf -> Option OrBuf
  | _, [], buf => some buf
  | i, none :: vals, buf => writeColumns types boundBits (i + 1) vals buf
  | i, some val :: vals, buf =>
    match orPutData buf (types.indexWriteval val) with
    | none => none
    | some buf =>
      writeColumns types boundBits (i + 1) vals
        { buf with bytes := orEnableBoundBit boundBits buf.bytes i }

/-- The bytes of the record; `none` stands for a buffer overflow. -/
def btreeWriteRecord (types : IndexTypes T V) (nodeRec : NodeRec) (key : DbIdxkey V) :
    Option (List UInt8) :=
  let buf : OrBuf := { bytes := [], size := btreeMaxKeylen }
  let buf :=
    match nodeRec with
    | .leaf => buf
    | .nonLeaf pnt => btreeWriteFixedPortionOfNonLeafRecord buf pnt
  let boundBits := buf.bytes.length
  match orPutData buf (List.replicate (orMultiBoundBitBytes key.length) 0) with
  | none => none
  | some buf => (writeColumns types boundBits 0 key buf).map OrBuf.bytes

def btreeReadFixedPortionOfNonLeafRecord (rest : List UInt8) : Option (Vpid × List UInt8) := do
  let (pageid, rest) ← orGetInt rest
  let (volid, rest) ← orGetShort rest
  return (⟨pageid, volid⟩, rest)

def readColumn (types : IndexTypes T V) (boundBits : List UInt8) (i : Nat) (type : T)
    (rest : List UInt8) : Option (Option V × List UInt8) :=
  if orMultiAttIsBound boundBits i then
    (types.indexReadval type rest).map fun (val, rest) => (some val, rest)
  else some (none, rest)

/-- The loop over the columns from column `i` on. -/
def readColumns (types : IndexTypes T V) (boundBits : List UInt8) :
    Nat -> List T -> List UInt8 -> Option (DbIdxkey V × List UInt8)
  | _, [], rest => some ([], rest)
  | i, type :: atts, rest => do
      let (val, rest) ← readColumn types boundBits i type rest
      let (vals, rest) ← readColumns types boundBits (i + 1) atts rest
      return (val :: vals, rest)

def btreeReadKey (types : IndexTypes T V) (index : OrIndex T) (rest : List UInt8) :
    Option (DbIdxkey V) := do
  let size := index.atts.length + 1
  let (boundBits, rest) ← orGetData (orMultiBoundBitBytes size) rest
  let (vals, rest) ← readColumns types boundBits 0 index.atts rest
  let (oid, _) ← readColumn types boundBits index.atts.length types.oid rest
  return vals ++ [oid]

def btreeReadRecord (types : IndexTypes T V) (index : OrIndex T) (nodeType : NodeType)
    (record : List UInt8) : Option (DbIdxkey V × NodeRec) :=
  match nodeType with
  | .leaf => do
      let key ← btreeReadKey types index record
      return (key, .leaf)
  | .nonLeaf => do
      let (pnt, rest) ← btreeReadFixedPortionOfNonLeafRecord record
      let key ← btreeReadKey types index rest
      return (key, .nonLeaf pnt)

end Rye.Storage
