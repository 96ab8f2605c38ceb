import PqAsync.WireCore

/-!
Executable model of the array code: `new_parameter_gen`, its specialisation for
`std::string`, and `pgval_to_array`. A `md::jagged_vector` is its dimension sizes and its
flat values.
-/

namespace PqAsync

structure JaggedVector (α : Type) where
  dimSizes : List Nat
  values : List α
  deriving DecidableEq, Repr

/-- `vec.insert(it, buf, buf + len)`; a negative distance is the `length_error` of
`std::vector`. -/
def vecAppend (vec buf : List UInt8) (len : Int) : Except WireError (List UInt8) :=
  if len < 0 then .error .lengthError
  else if len ≤ buf.length then .ok (vec ++ buf.take len.toNat)
  else .error .outOfBounds

def int32Bytes (x : BitVec 32) : List UInt8 := inMemory 4 (swap4 x true)

def arrayHeader (dimSizes : List Nat) (eleOid : Nat) : List UInt8 :=
  let dimCount := toInt dimSizes.length
  int32Bytes (BitVec.ofInt 32 dimCount) ++ (int32Bytes 0 ++ (int32Bytes (BitVec.ofNat 32 eleOid) ++
    (dimSizes.take dimCount.toNat).flatMap fun size =>
      int32Bytes (BitVec.ofNat 32 size) ++ int32Bytes 1))

/-- The loop over the elements. `cut` is what an encoder takes off the length of an element's
own parameter. -/
def appendElements {α : Type} (newParameter : α → Except WireError Parameter) (cut : Int) :
    List UInt8 → List α → Except WireError (List UInt8)
  | membuf, [] => .ok membuf
  | membuf, value :: rest => do
      let param ← newParameter value
      let len := param.length - cut
      let membuf ← vecAppend membuf (int32Bytes (BitVec.ofInt 32 len)) 4
      let membuf ← vecAppend membuf (param.value.getD []) len
      appendElements newParameter cut membuf rest

/-- The copy of the vector into the buffer of the parameter, whose size is an `int`. -/
def arrayParameter (arrEleOid : Nat) (membuf : List UInt8) : Except WireError Parameter := do
  let size := toInt membuf.length
  newBuffer size
  return { oid := arrEleOid, value := some (membuf.take size.toNat), length := size, format := 1 }

def newParameterGen {α : Type} (newParameter : α → Except WireError Parameter)
    (value : JaggedVector α) (eleOid arrEleOid : Nat) : Except WireError Parameter := do
  let membuf ← appendElements newParameter 0 (arrayHeader value.dimSizes eleOid) value.values
  arrayParameter arrEleOid membuf

/-- The specialisation for `std::string`, which leaves the terminator of each element out. -/
def newParameterGenString (newParameter : List UInt8 → Except WireError Parameter)
    (value : JaggedVector (List UInt8)) (eleOid arrEleOid : Nat) : Except WireError Parameter := do
  let membuf ← appendElements newParameter 1 (arrayHeader value.dimSizes eleOid) value.values
  arrayParameter arrEleOid membuf

/-- `ele_count *= dim_val`; a signed overflow is undefined. -/
def mulInt (x y : Int) : Except WireError Int :=
  if -2 ^ 31 ≤ x * y ∧ x * y < 2 ^ 31 then .ok (x * y) else .error .overflow

def readDims (buffer : List UInt8) : Nat → Int → Int → Except WireError (List Nat × Int × Int)
  | 0, eleCount, val => .ok ([], eleCount, val)
  | remaining + 1, eleCount, val => do
      let dimVal ← readInt32 buffer val
      let eleCount ← mulInt eleCount dimVal.toInt
      let (dimSizes, eleCount, val) ← readDims buffer remaining eleCount (val + 4 + 4)
      return ((dimVal.signExtend 64).toNat :: dimSizes, eleCount, val)

def readElements {α : Type} (valFromPgparam : Reader α) (buffer : List UInt8) :
    Nat → Int → Except WireError (List α × Int)
  | 0, val => .ok ([], val)
  | remaining + 1, val => do
      let valLen ← readInt32 buffer val
      let val := val + 4
      let value ← valFromPgparam buffer val valLen.toInt
      let (values, val) ← readElements valFromPgparam buffer remaining (val + valLen.toInt)
      return (value :: values, val)

/-- `pgval_to_array` on the value at the start of the buffer, with the place that its cursor
has reached. `valFromPgparam` is given the element oid of the header. -/
def pgvalToArrayFrom {α : Type} (valFromPgparam : Int → Reader α) (buffer : List UInt8)
    (fmt : Int) : Except WireError (JaggedVector α × Int) := do
  if fmt = 0 then throw (.exception "Text format is not supported!")
  let svrDimCount ← readInt32 buffer 0
  if svrDimCount.toInt < 0 then throw .lengthError
  let eleOid ← readInt32 buffer 8
  let eleCount : Int := if svrDimCount.toInt > 0 then 1 else 0
  let (dimSizes, eleCount, val) ← readDims buffer svrDimCount.toInt.toNat eleCount 12
  let (values, val) ← readElements (valFromPgparam eleOid.toInt) buffer eleCount.toNat val
  return ({ dimSizes, values }, val)

def pgvalToArray {α : Type} (valFromPgparam : Int → Reader α) (buffer : List UInt8)
    (fmt : Int) : Except WireError (JaggedVector α) := do
  let (array, _) ← pgvalToArrayFrom valFromPgparam buffer fmt
  return array

end PqAsync
