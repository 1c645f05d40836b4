import Rye.Foundation.Bytes

/-!
# Translation buffers

A buffer that is written holds the bytes before its pointer and the number of
bytes that it may take.  A buffer that is read is the rest of its bytes.  Numbers
are kept in network order.  An operation that does not fit fails.
-/

namespace Rye.Object

open Foundation

structure OrBuf where
  bytes : List UInt8
  size : Nat

def orPutData (buf : OrBuf) (data : List UInt8) : Option OrBuf :=
  if buf.bytes.length + data.length > buf.size then none
  else some { buf with bytes := buf.bytes ++ data }

def orPutInt (buf : OrBuf) (num : Int32) : Option OrBuf :=
  orPutData buf (beBytes 4 num.toInt)

def orPutShort (buf : OrBuf) (num : Int16) : Option OrBuf :=
  orPutData buf (beBytes 2 num.toInt)

def orGetData (length : Nat) (rest : List UInt8) : Option (List UInt8 × List UInt8) :=
  if length > rest.length then none else some (rest.take length, rest.drop length)

def orGetInt (rest : List UInt8) : Option (Int32 × List UInt8) :=
  (orGetData 4 rest).map fun (data, rest) => (.ofInt (beInt data), rest)

def orGetShort (rest : List UInt8) : Option (Int16 × List UInt8) :=
  (orGetData 2 rest).map fun (data, rest) => (.ofInt (beInt data), rest)

theorem orPutData_eq_some {buf : OrBuf} {data : List UInt8}
    (h : buf.bytes.length + data.length <= buf.size) :
    orPutData buf data = some { buf with bytes := buf.bytes ++ data } :=
  if_neg (by omega)

theorem orPutData_eq_none {buf : OrBuf} {data : List UInt8}
    (h : buf.size < buf.bytes.length + data.length) : orPutData buf data = none :=
  if_pos h

theorem orGetData_append (data rest : List UInt8) :
    orGetData data.length (data ++ rest) = some (data, rest) := by
  rw [orGetData, if_neg (by rw [List.length_append]; omega), List.take_left, List.drop_left]

theorem orGetInt_append (num : Int32) (rest : List UInt8) :
    orGetInt (beBytes 4 num.toInt ++ rest) = some (num, rest) := by
  have hlow := num.le_toInt
  have hhigh := num.toInt_lt
  have hget := orGetData_append (beBytes 4 num.toInt) rest
  rw [length_beBytes] at hget
  rw [orGetInt, hget, Option.map_some]
  change some (Int32.ofInt (beInt (beBytes 4 num.toInt)), rest) = _
  rw [beInt_beBytes, Int32.ofInt_toInt]
  · omega
  · omega

theorem orGetShort_append (num : Int16) (rest : List UInt8) :
    orGetShort (beBytes 2 num.toInt ++ rest) = some (num, rest) := by
  have hlow := num.le_toInt
  have hhigh := num.toInt_lt
  have hget := orGetData_append (beBytes 2 num.toInt) rest
  rw [length_beBytes] at hget
  rw [orGetShort, hget, Option.map_some]
  change some (Int16.ofInt (beInt (beBytes 2 num.toInt)), rest) = _
  rw [beInt_beBytes, Int16.ofInt_toInt]
  · omega
  · omega

end Rye.Object
