import Mathlib.Data.Nat.Bitwise
import Rye.Storage.Btree.Record

/-!
# Records are read back

The record that is written has the fixed portion, the bound bits and the columns
one after the other.  The bits say which columns are null, and every column is
read from where it was written.

The buffer for a record takes as many bytes as the longest key.  That leaves no
room for the fixed portion, so the longest keys cannot be written to an inner
page.
-/

namespace Rye.Storage

open Foundation Object List

/-!
## Bound bits
-/

theorem modify_append_left {A : Type} (f : A -> A) {l : List A} {k : Nat} (hk : k < l.length)
    (r : List A) : (l ++ r).modify k f = l.modify k f ++ r := by
  induction l generalizing k with
  | nil => exact absurd hk (Nat.not_lt_zero k)
  | cons a l ih =>
    cases k with
    | zero => rfl
    | succ k =>
      rw [cons_append, modify_succ_cons, modify_succ_cons, cons_append,
        ih (Nat.lt_of_succ_lt_succ hk)]

theorem modify_append_right {A : Type} (f : A -> A) (l r : List A) (k : Nat) :
    (l ++ r).modify (l.length + k) f = l ++ r.modify k f := by
  induction l with
  | nil =>
    rw [length_nil, Nat.zero_add]
    rfl
  | cons a l ih =>
    rw [length_cons, Nat.succ_add, cons_append, modify_succ_cons, ih]
    rfl

theorem orMultiAttIsBound_eq (bits : List UInt8) (j : Nat) :
    orMultiAttIsBound bits j = (bits.getD (j / 8) 0).toNat.testBit (j % 8) := by
  rw [orMultiAttIsBound, orMultiBoundBitMask, Nat.and_two_pow]
  cases (bits.getD (j / 8) 0).toNat.testBit (j % 8) with
  | false | true => simp

theorem orMultiAttIsBound_enable {bits : List UInt8} {i : Nat} (hi : i / 8 < bits.length)
    (j : Nat) :
    orMultiAttIsBound (orEnableBoundBit 0 bits i) j =
      (orMultiAttIsBound bits j || decide (i = j)) := by
  rw [orMultiAttIsBound_eq, orMultiAttIsBound_eq, orEnableBoundBit, Nat.zero_add]
  by_cases hbyte : i / 8 = j / 8
  · have hj : j / 8 < bits.length := hbyte ▸ hi
    have hlt : bits[j / 8].toNat ||| 2 ^ (i % 8) < 2 ^ 8 := by
      apply Nat.or_lt_two_pow
      · exact bits[j / 8].toNat_lt
      · exact Nat.pow_lt_pow_right (by decide) (Nat.mod_lt i (by decide))
    rw [hbyte, getD_eq_getElem _ _ (by rwa [length_modify]), getElem_modify_eq,
      getD_eq_getElem _ _ hj, orMultiBoundBitMask, UInt8.toNat_ofNat', Nat.mod_eq_of_lt hlt,
      Nat.testBit_or, Nat.testBit_two_pow]
    congr 1
    rw [decide_eq_decide]
    omega
  · have hne : i ≠ j := by
      intro heq
      exact hbyte (by rw [heq])
    rw [decide_eq_false hne, Bool.or_false, getD_eq_getElem?_getD,
      getElem?_modify_ne _ _ hbyte, ← getD_eq_getElem?_getD]

def enableColumns {V : Type} (start : Nat) : Nat -> DbIdxkey V -> List UInt8 -> List UInt8
  | _, [], bytes => bytes
  | i, none :: vals, bytes => enableColumns start (i + 1) vals bytes
  | i, some _ :: vals, bytes => enableColumns start (i + 1) vals (orEnableBoundBit start bytes i)

section

variable {T V : Type}

theorem length_enableColumns (start i : Nat) (vals : DbIdxkey V) (bytes : List UInt8) :
    (enableColumns start i vals bytes).length = bytes.length := by
  induction vals generalizing i bytes with
  | nil => rfl
  | cons val vals ih =>
    cases val with
    | none => exact ih (i + 1) bytes
    | some v => rw [enableColumns, ih, orEnableBoundBit, length_modify]

theorem enableColumns_append (header : List UInt8) (i : Nat) (vals : DbIdxkey V)
    (bits : List UInt8) :
    enableColumns header.length i vals (header ++ bits) =
      header ++ enableColumns 0 i vals bits := by
  induction vals generalizing i bits with
  | nil => rfl
  | cons val vals ih =>
    cases val with
    | none => exact ih (i + 1) bits
    | some v =>
      rw [enableColumns, orEnableBoundBit, modify_append_right, ih, enableColumns,
        orEnableBoundBit, Nat.zero_add]

variable {i : Nat} {vals : DbIdxkey V} {types : IndexTypes T V}

theorem enableColumns_append_left {start : Nat} {bytes : List UInt8}
    (hlen : i + vals.length <= 8 * (bytes.length - start)) (rest : List UInt8) :
    enableColumns start i vals (bytes ++ rest) = enableColumns start i vals bytes ++ rest := by
  induction vals generalizing i bytes with
  | nil => rfl
  | cons val vals ih =>
    rw [length_cons] at hlen
    cases val with
    | none => exact ih (by omega)
    | some v =>
      rw [enableColumns, orEnableBoundBit, modify_append_left _ (by omega), ih]
      · rfl
      · rw [length_modify]
        omega

variable {bits : List UInt8} {index : OrIndex T} {key : DbIdxkey V}

theorem orMultiAttIsBound_enableColumns (hlen : i + vals.length <= 8 * bits.length) (j : Nat) :
    orMultiAttIsBound (enableColumns 0 i vals bits) j =
      (orMultiAttIsBound bits j || (decide (i <= j) && (vals.getD (j - i) none).isSome)) := by
  induction vals generalizing i bits with
  | nil => simp [enableColumns]
  | cons val vals ih =>
    rw [length_cons] at hlen
    have hget : (decide (i <= j) && (((val :: vals).getD (j - i) none)).isSome) =
        ((decide (i = j) && val.isSome) ||
          (decide (i + 1 <= j) && (vals.getD (j - (i + 1)) none).isSome)) := by
      by_cases hij : i = j
      · rw [hij, Nat.sub_self, decide_eq_false (by omega : ¬ j + 1 <= j)]
        simp
      by_cases hle : i + 1 <= j
      · rw [decide_eq_true (by omega : i <= j), decide_eq_true hle, decide_eq_false hij,
          (by omega : j - i = j - (i + 1) + 1), getD_cons_succ]
        simp
      · rw [decide_eq_false (by omega : ¬ i <= j), decide_eq_false hle, decide_eq_false hij]
        rfl
    rw [hget]
    cases val with
    | none =>
      rw [enableColumns, ih (by omega)]
      simp
    | some v =>
      have hbyte : i / 8 < bits.length := by omega
      rw [enableColumns, ih (by rw [orEnableBoundBit, length_modify]; omega),
        orMultiAttIsBound_enable hbyte, Option.isSome_some, Bool.and_true, Bool.or_assoc]

/-!
## Writing
-/

def columnBytes (types : IndexTypes T V) (vals : DbIdxkey V) : List UInt8 :=
  vals.flatMap fun val => (val.map types.indexWriteval).getD []

theorem columnBytes_cons (types : IndexTypes T V) (val : Option V) (vals : DbIdxkey V) :
    columnBytes types (val :: vals) =
      (val.map types.indexWriteval).getD [] ++ columnBytes types vals :=
  rfl

theorem length_key (types : IndexTypes T V) (key : DbIdxkey V) :
    btreeGetKeyLength types key =
      orMultiBoundBitBytes key.length + (columnBytes types key).length := by
  rw [btreeGetKeyLength]
  congr 1
  induction key with
  | nil => rfl
  | cons val key ih =>
    rw [map_cons, sum_cons, ih, columnBytes_cons, length_append]
    cases val with
    | none => rfl
    | some v =>
      rw [Option.map_some, Option.map_some, Option.getD_some, Option.getD_some,
        types.length_writeval]

theorem writeColumns_eq (types : IndexTypes T V) {start : Nat} {buf : OrBuf}
    (hbits : i + vals.length <= 8 * (buf.bytes.length - start))
    (hsize : buf.bytes.length <= buf.size) :
    writeColumns types start i vals buf =
      if buf.bytes.length + (columnBytes types vals).length <= buf.size then
        some { buf with
          bytes := enableColumns start i vals buf.bytes ++ columnBytes types vals }
      else none := by
  induction vals generalizing i buf with
  | nil =>
    rw [if_pos (by simpa [columnBytes] using hsize), writeColumns]
    simp [enableColumns, columnBytes]
  | cons val vals ih =>
    rw [length_cons] at hbits
    cases val with
    | none => exact ih (by omega) hsize
    | some v =>
      have hlength : (columnBytes types (some v :: vals)).length =
          (types.indexWriteval v).length + (columnBytes types vals).length := by
        rw [columnBytes_cons, length_append]
        rfl
      rw [writeColumns, hlength]
      by_cases hfits : buf.bytes.length + (types.indexWriteval v).length <= buf.size
      · have henable : orEnableBoundBit start (buf.bytes ++ types.indexWriteval v) i =
            orEnableBoundBit start buf.bytes i ++ types.indexWriteval v :=
          modify_append_left _ (by omega) _
        have hlen : (orEnableBoundBit start buf.bytes i).length = buf.bytes.length :=
          length_modify ..
        rw [orPutData_eq_some hfits]
        change writeColumns types start (i + 1) vals
          ⟨orEnableBoundBit start (buf.bytes ++ types.indexWriteval v) i, buf.size⟩ = _
        rw [henable]
        refine (ih ?_ ?_).trans ?_
        · rw [length_append, hlen]
          omega
        · rw [length_append, hlen]
          exact hfits
        rw [length_append, hlen, Nat.add_assoc, enableColumns_append_left,
          columnBytes_cons, append_assoc]
        · rfl
        · rw [hlen]
          omega
      · rw [orPutData_eq_none (by omega), if_neg (by omega)]

def fixedPortion : NodeRec -> List UInt8
  | .leaf => []
  | .nonLeaf pnt => beBytes 4 pnt.pageid.toInt ++ beBytes 2 pnt.volid.toInt

def boundBits (key : DbIdxkey V) : List UInt8 :=
  enableColumns 0 0 key (replicate (orMultiBoundBitBytes key.length) 0)

theorem length_boundBits (key : DbIdxkey V) :
    (boundBits key).length = orMultiBoundBitBytes key.length := by
  rw [boundBits, length_enableColumns, length_replicate]

theorem isBound_boundBits (key : DbIdxkey V) (j : Nat) :
    orMultiAttIsBound (boundBits key) j = (key.getD j none).isSome := by
  rw [boundBits, orMultiAttIsBound_enableColumns, orMultiAttIsBound_eq]
  · simp
  · rw [length_replicate, orMultiBoundBitBytes]
    omega

theorem writeFixedPortion_eq (pnt : Vpid) :
    btreeWriteFixedPortionOfNonLeafRecord ⟨[], btreeMaxKeylen⟩ pnt =
      ⟨fixedPortion (.nonLeaf pnt), btreeMaxKeylen⟩ := by
  have hint : orPutInt ⟨[], btreeMaxKeylen⟩ pnt.pageid =
      some ⟨beBytes 4 pnt.pageid.toInt, btreeMaxKeylen⟩ := by
    apply orPutData_eq_some
    rw [length_beBytes]
    decide
  have hshort : orPutShort ⟨beBytes 4 pnt.pageid.toInt, btreeMaxKeylen⟩ pnt.volid =
      some ⟨fixedPortion (.nonLeaf pnt), btreeMaxKeylen⟩ := by
    apply orPutData_eq_some
    rw [length_beBytes, length_beBytes]
    change 4 + 2 <= btreeMaxKeylen
    decide
  rw [btreeWriteFixedPortionOfNonLeafRecord, hint]
  exact congrArg (orIgnore _) hshort

theorem btreeWriteRecord_eq (types : IndexTypes T V) (nodeRec : NodeRec) (key : DbIdxkey V) :
    btreeWriteRecord types nodeRec key =
      if (fixedPortion nodeRec).length + btreeGetKeyLength types key <= btreeMaxKeylen then
        some (fixedPortion nodeRec ++ boundBits key ++ columnBytes types key)
      else none := by
  have hstart : btreeWriteRecord types nodeRec key =
      (orPutData ⟨fixedPortion nodeRec, btreeMaxKeylen⟩
        (replicate (orMultiBoundBitBytes key.length) 0)).bind fun buf =>
          (writeColumns types (fixedPortion nodeRec).length 0 key buf).map OrBuf.bytes := by
    cases nodeRec with
    | leaf =>
      simp only [btreeWriteRecord, fixedPortion]
      cases orPutData _ _ with
      | none | some buf => rfl
    | nonLeaf pnt =>
      simp only [btreeWriteRecord, writeFixedPortion_eq]
      cases orPutData _ _ with
      | none | some buf => rfl
  rw [hstart, length_key]
  by_cases hbits : (fixedPortion nodeRec).length + orMultiBoundBitBytes key.length <= btreeMaxKeylen
  · rw [orPutData_eq_some (by rwa [length_replicate]), Option.bind_some]
    dsimp only
    rw [writeColumns_eq types _ (by rwa [length_append, length_replicate])]
    · rw [length_append, length_replicate, Nat.add_assoc, enableColumns_append]
      split
      · rfl
      · rfl
    · rw [length_append, length_replicate, orMultiBoundBitBytes]
      omega
  · have hover : btreeMaxKeylen < (fixedPortion nodeRec).length +
        (replicate (orMultiBoundBitBytes key.length) (0 : UInt8)).length := by
      rw [length_replicate]
      omega
    rw [orPutData_eq_none hover, if_neg (by omega), Option.bind_none]

/-!
## Reading
-/

/-- A column has the type of its value, unless it is null. -/
def IndexTypes.Matches (types : IndexTypes T V) (type : T) (val : Option V) : Prop :=
  forall v, val = some v -> types.typeOf v = type

/-- The key has the columns of the index and an object identifier. -/
def IsKeyOf (types : IndexTypes T V) (index : OrIndex T) (key : DbIdxkey V) : Prop :=
  exists vals oid, key = vals ++ [oid] ∧ Forall₂ types.Matches index.atts vals ∧
    types.Matches types.oid oid

theorem readColumn_eq {type : T} {val : Option V} (hbit : orMultiAttIsBound bits i = val.isSome)
    (htype : types.Matches type val) (rest : List UInt8) :
    readColumn types bits i type ((val.map types.indexWriteval).getD [] ++ rest) =
      some (val, rest) := by
  rw [readColumn, hbit]
  cases val with
  | none => rfl
  | some v =>
    have hread := types.readval_writeval v rest
    rw [htype v rfl] at hread
    rw [Option.map_some, Option.getD_some, hread]
    rfl

theorem readColumns_eq {atts : List T} (hbits : forall j, j < vals.length ->
      orMultiAttIsBound bits (i + j) = (vals.getD j none).isSome)
    (htypes : Forall₂ types.Matches atts vals) (rest : List UInt8) :
    readColumns types bits i atts (columnBytes types vals ++ rest) = some (vals, rest) := by
  induction htypes generalizing i with
  | nil => rfl
  | @cons type val atts vals hfirst hrest ih =>
    have hbit : orMultiAttIsBound bits i = val.isSome := hbits 0 (Nat.succ_pos _)
    have hlater : forall j, j < vals.length ->
        orMultiAttIsBound bits (i + 1 + j) = (vals.getD j none).isSome := by
      intro j hj
      rw [Nat.add_assoc, Nat.add_comm 1 j]
      exact hbits (j + 1) (Nat.succ_lt_succ hj)
    rw [readColumns, columnBytes_cons, append_assoc, readColumn_eq hbit hfirst]
    simp only [Option.bind_eq_bind, Option.bind_some]
    rw [ih hlater]
    rfl

theorem btreeReadKey_eq (hkey : IsKeyOf types index key) :
    btreeReadKey types index (boundBits key ++ columnBytes types key) = some key := by
  rcases hkey with ⟨vals, oid, rfl, hvals, hoid⟩
  have hlength : index.atts.length = vals.length := hvals.length_eq
  have hbits := orGetData_append (boundBits (vals ++ [oid])) (columnBytes types (vals ++ [oid]))
  rw [length_boundBits, length_append, length_singleton, ← hlength] at hbits
  have hcolumns : columnBytes types (vals ++ [oid]) =
      columnBytes types vals ++ ((oid.map types.indexWriteval).getD [] ++ []) := by
    rw [columnBytes, flatMap_append]
    rfl
  rw [btreeReadKey, hbits]
  simp only [Option.bind_eq_bind, Option.bind_some]
  rw [hcolumns, readColumns_eq _ hvals]
  · simp only [Option.bind_some]
    rw [readColumn_eq _ hoid]
    · rfl
    · rw [isBound_boundBits, hlength, getD_append_right _ _ _ _ (le_refl _), Nat.sub_self]
      rfl
  · intro j hj
    rw [isBound_boundBits, Nat.zero_add, getD_append _ _ _ _ hj]

theorem btreeReadRecord_eq (hkey : IsKeyOf types index key) (nodeRec : NodeRec) :
    btreeReadRecord types index nodeRec.nodeType
      (fixedPortion nodeRec ++ boundBits key ++ columnBytes types key) = some (key, nodeRec) := by
  rw [append_assoc]
  cases nodeRec with
  | leaf =>
    rw [fixedPortion, nil_append, NodeRec.nodeType, btreeReadRecord, btreeReadKey_eq hkey]
    rfl
  | nonLeaf pnt =>
    rw [fixedPortion, append_assoc, NodeRec.nodeType, btreeReadRecord,
      btreeReadFixedPortionOfNonLeafRecord, orGetInt_append]
    simp only [Option.bind_eq_bind, Option.bind_some]
    rw [orGetShort_append]
    simp only [Option.bind_some, Option.pure_def]
    rw [btreeReadKey_eq hkey]
    rfl

/-!
## Which keys can be stored
-/

/-- The key can be written as a record of every kind and is read back. -/
def Storable (types : IndexTypes T V) (index : OrIndex T) (key : DbIdxkey V) : Prop :=
  forall nodeRec : NodeRec, exists record,
    btreeWriteRecord types nodeRec key = some record ∧
      btreeReadRecord types index nodeRec.nodeType record = some (key, nodeRec)

theorem length_fixedPortion (nodeRec : NodeRec) : (fixedPortion nodeRec).length <= 6 := by
  cases nodeRec with
  | leaf => exact Nat.zero_le _
  | nonLeaf pnt => rw [fixedPortion, length_append, length_beBytes, length_beBytes]

/-- A key can be stored at every level exactly if it leaves room for the fixed portion. -/
theorem btreeRecord_storable_iff (types : IndexTypes T V) (index : OrIndex T) (key : DbIdxkey V)
    (hkey : IsKeyOf types index key) :
    Storable types index key <-> btreeGetKeyLength types key + 6 <= btreeMaxKeylen := by
  constructor
  · intro h
    rcases h (.nonLeaf ⟨0, 0⟩) with ⟨record, hwrite, _⟩
    rw [btreeWriteRecord_eq] at hwrite
    by_cases hfits : (fixedPortion (.nonLeaf ⟨0, 0⟩)).length + btreeGetKeyLength types key <=
        btreeMaxKeylen
    · rw [fixedPortion, length_append, length_beBytes, length_beBytes] at hfits
      omega
    · rw [if_neg hfits] at hwrite
      cases hwrite
  · intro hlen nodeRec
    have hfixed := length_fixedPortion nodeRec
    refine ⟨fixedPortion nodeRec ++ boundBits key ++ columnBytes types key, ?_, ?_⟩
    · rw [btreeWriteRecord_eq, if_pos (by omega)]
    · exact btreeReadRecord_eq hkey nodeRec

theorem leafRecord_storable (hkey : IsKeyOf types index key)
    (hmax : btreeGetKeyLength types key <= btreeMaxKeylen) :
    exists record, btreeWriteRecord types .leaf key = some record ∧
      btreeReadRecord types index .leaf record = some (key, .leaf) := by
  refine ⟨fixedPortion .leaf ++ boundBits key ++ columnBytes types key, ?_, ?_⟩
  · rw [btreeWriteRecord_eq, if_pos]
    exact (Nat.zero_add _).symm ▸ hmax
  · exact btreeReadRecord_eq hkey .leaf

end

/-- Strings of a fixed number of bytes, which is their type. -/
def rawTypes (oidSize : Nat) : IndexTypes Nat (List UInt8) where
  typeOf := length
  oid := oidSize
  indexLengthval := length
  indexWriteval := id
  indexReadval := orGetData
  length_writeval _ := rfl
  readval_writeval := orGetData_append

theorem btreeRecord_storable_short :
    Storable (rawTypes 12) ⟨[4, 8]⟩ [some [1, 2, 3, 4], none, some (replicate 12 0)] :=
  (btreeRecord_storable_iff (rawTypes 12) ⟨[4, 8]⟩ _
    ⟨[some [1, 2, 3, 4], none], some (replicate 12 0), rfl,
      .cons (by rintro v ⟨⟩; rfl) (.cons (by rintro v ⟨⟩) .nil), by rintro v ⟨⟩; rfl⟩).mpr
    (by decide)

theorem leafRecord_storable_short :
    exists record, btreeWriteRecord (rawTypes 12) .leaf [none, some (replicate 12 0)] =
        some record ∧
      btreeReadRecord (rawTypes 12) ⟨[4]⟩ .leaf record = some ([none, some (replicate 12 0)], .leaf) :=
  leafRecord_storable ⟨[none], some (replicate 12 0), rfl, .cons (by rintro v ⟨⟩) .nil,
    by rintro v ⟨⟩; rfl⟩ (by decide)

theorem length_rawPair (oidSize : Nat) (column oid : List UInt8) :
    btreeGetKeyLength (rawTypes oidSize) [some column, some oid] =
      1 + (column.length + oid.length) := by
  simp [btreeGetKeyLength, rawTypes, orMultiBoundBitBytes]

/-- A column of 882 bytes and an object identifier make a key of 895 bytes. -/
theorem longKey_not_storable :
    IsKeyOf (rawTypes 12) ⟨[882]⟩ [some (replicate 882 0), some (replicate 12 0)] ∧
    btreeGetKeyLength (rawTypes 12) [some (replicate 882 0), some (replicate 12 0)] <=
      btreeMaxKeylen ∧
    ¬ Storable (rawTypes 12) ⟨[882]⟩ [some (replicate 882 0), some (replicate 12 0)] := by
  have hlength : btreeGetKeyLength (rawTypes 12)
      [some (replicate 882 0), some (replicate 12 0)] = 895 := by
    rw [length_rawPair, length_replicate, length_replicate]
  refine ⟨⟨[some (replicate 882 0)], some (replicate 12 0), rfl, ?_, ?_⟩, ?_, ?_⟩
  · refine .cons ?_ .nil
    rintro v ⟨⟩
    exact length_replicate
  · rintro v ⟨⟩
    rfl
  · rw [hlength]
    decide
  intro h
  rcases h (.nonLeaf ⟨0, 0⟩) with ⟨record, hwrite, _⟩
  rw [btreeWriteRecord_eq, hlength, if_neg (by decide)] at hwrite
  cases hwrite

end Rye.Storage
