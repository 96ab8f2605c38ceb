import PqAsync.WireCore

/-!
Executable model of the codecs of single values: `new_parameter` and the readers of the
binary format for text, integers, oids, hardware addresses, geometric values and ranges.
-/

namespace PqAsync

def textOid : Nat := 25
def int2Oid : Nat := 21
def int4Oid : Nat := 23
def int8Oid : Nat := 20
def oidOid : Nat := 26
def macaddrOid : Nat := 829
def pointOid : Nat := 600
def pathOid : Nat := 602
def polygonOid : Nat := 604
def int4rangeOid : Nat := 3904
def int8rangeOid : Nat := 3926

structure Macaddr where
  a : UInt8 := 0
  b : UInt8 := 0
  c : UInt8 := 0
  d : UInt8 := 0
  e : UInt8 := 0
  f : UInt8 := 0
  deriving DecidableEq, Repr

structure Point where
  x : BitVec 64 := 0
  y : BitVec 64 := 0
  deriving DecidableEq, Repr

structure Box where
  high : Point := {}
  low : Point := {}
  deriving DecidableEq, Repr

structure Path where
  closed : Bool := false
  points : List Point := []
  deriving DecidableEq, Repr

structure Polygon where
  boundBox : Box := {}
  points : List Point := []
  deriving DecidableEq, Repr

structure Range (w : Nat) where
  flags : BitVec 32 := 0
  lb : BitVec w := 0
  ub : BitVec w := 0
  deriving DecidableEq, Repr

namespace Range

/-- Neither empty, nor with a null or an infinite lower bound. -/
def hasLbound {w : Nat} (value : Range w) : Bool := value.flags &&& 0x29 == 0

def hasUbound {w : Nat} (value : Range w) : Bool := value.flags &&& 0x51 == 0

end Range

def newParameterString (value : List UInt8) : Except WireError Parameter :=
  .ok (.text textOid value)

def newParameterInt16 (value : BitVec 16) : Except WireError Parameter :=
  .ok (.binary int2Oid (inMemory 2 (swap2 value true)))

def newParameterInt32 (value : BitVec 32) : Except WireError Parameter :=
  .ok (.binary int4Oid (inMemory 4 (swap4 value true)))

def newParameterInt64 (value : BitVec 64) : Except WireError Parameter :=
  .ok (.binary int8Oid (inMemory 8 (swap8 value true)))

def newParameterOid (value : BitVec 32) : Except WireError Parameter :=
  .ok (.binary oidOid (inMemory 4 (swap4 value true)))

def newParameterMacaddr (value : Macaddr) : Except WireError Parameter :=
  .ok (.binary macaddrOid [value.a, value.b, value.c, value.d, value.e, value.f])

def pointMemory (value : Point) : List UInt8 :=
  inMemory 8 (swap8 value.x true) ++ inMemory 8 (swap8 value.y true)

def newParameterPoint (value : Point) : Except WireError Parameter :=
  .ok (.binary pointOid (pointMemory value))

/-- A buffer of `len` bytes that is sent after the given bytes were written to it. Bytes
past its end and bytes that were never written are errors. -/
def fillBuffer (oid : Nat) (len : Int) (bytes : List UInt8) : Except WireError Parameter := do
  newBuffer len
  if bytes.length = len then return { oid, value := some bytes, length := len, format := 1 }
  else .error .outOfBounds

def newParameterPath (value : Path) : Except WireError Parameter :=
  let nb := toInt value.points.length
  let len := toInt (5 + value.points.length * 16)
  fillBuffer pathOid len ((if value.closed then 1 else 0) ::
    (inMemory 4 (swap4 (BitVec.ofInt 32 nb) true) ++
      (value.points.take nb.toNat).flatMap pointMemory))

def newParameterPolygon (value : Polygon) : Except WireError Parameter :=
  let nb := toInt value.points.length
  let len := toInt (4 + value.points.length * 16)
  fillBuffer polygonOid len (inMemory 4 (swap4 (BitVec.ofInt 32 nb) true) ++
    (value.points.take nb.toNat).flatMap pointMemory)

def boundMemory {w : Nat} (vl : Nat) (toNetwork : BitVec w → BitVec w) (bound : BitVec w) :
    List UInt8 :=
  inMemory 4 (swap4 (BitVec.ofNat 32 vl) true) ++ inMemory vl (toNetwork bound)

/-- `new_parameter` of a range whose bounds take `vl` bytes. -/
def newParameterRange {w : Nat} (oid vl : Nat) (toNetwork : BitVec w → BitVec w)
    (value : Range w) : Except WireError Parameter :=
  .ok (.binary oid (.ofBitVec (value.flags.setWidth 8) ::
    ((if value.hasLbound then boundMemory vl toNetwork value.lb else []) ++
      (if value.hasUbound then boundMemory vl toNetwork value.ub else []))))

def newParameterInt4range (value : Range 32) : Except WireError Parameter :=
  newParameterRange int4rangeOid 4 (swap4 · true) value

def newParameterInt8range (value : Range 64) : Except WireError Parameter :=
  newParameterRange int8rangeOid 8 (swap8 · true) value

def pgvalToString : Reader (List UInt8) := fun buffer val len =>
  if len = -1 then .ok []
  else if len < 0 then .error .lengthError
  else readBytes buffer val len.toNat

def pgvalToInt16 : Reader (BitVec 16) := fun buffer val len =>
  if len = -1 then .ok 0 else readInt16 buffer val

def pgvalToInt32 : Reader (BitVec 32) := fun buffer val len =>
  if len = -1 then .ok 0 else readInt32 buffer val

def pgvalToInt64 : Reader (BitVec 64) := fun buffer val len =>
  if len = -1 then .ok 0 else readInt64 buffer val

def pgvalToDouble : Reader (BitVec 64) := fun buffer val len =>
  if len = -1 then .ok 0 else readInt64 buffer val

def pgvalToOid : Reader (BitVec 32) := fun buffer val len =>
  if len = -1 then .ok 0 else readInt32 buffer val

def readByte (buffer : List UInt8) (val : Int) : Except WireError UInt8 := do
  let bytes ← readBytes buffer val 1
  return bytes.headD 0

def pgvalToMacaddr : Reader Macaddr := fun buffer val len =>
  if len = -1 then .ok {}
  else do
    let a ← readByte buffer val
    let b ← readByte buffer (val + 1)
    let c ← readByte buffer (val + 2)
    let d ← readByte buffer (val + 3)
    let e ← readByte buffer (val + 4)
    let f ← readByte buffer (val + 5)
    return { a, b, c, d, e, f }

def pgvalToPoint : Reader Point := fun buffer val len =>
  if len = -1 then .ok {}
  else do
    let x ← pgvalToDouble buffer val 8
    let y ← pgvalToDouble buffer (val + 8) 8
    return { x, y }

def readPoints (buffer : List UInt8) : Nat → Int → Except WireError (List Point)
  | 0, _ => .ok []
  | remaining + 1, val => do
      let point ← pgvalToPoint buffer val 16
      let points ← readPoints buffer remaining (val + 16)
      return point :: points

def pgvalToPath : Reader Path := fun buffer val len =>
  if len = -1 then .ok {}
  else do
    let closed ← readByte buffer val
    let nb ← pgvalToInt32 buffer (val + 1) 4
    let points ← readPoints buffer nb.toInt.toNat (val + 5)
    return { closed := closed = 1, points }

def pgvalToPolygon : Reader Polygon := fun buffer val len =>
  if len = -1 then .ok {}
  else do
    let nb ← pgvalToInt32 buffer val 4
    let points ← readPoints buffer nb.toInt.toNat (val + 4)
    return { points }

def readBound {w : Nat} (pgvalToBound : Reader (BitVec w)) (buffer : List UInt8) (present : Bool)
    (out : Int) : Except WireError (BitVec w × Int) :=
  if present then do
    let l ← pgvalToInt32 buffer out 4
    let bound ← pgvalToBound buffer (out + 4) l.toInt
    return (bound, out + 4 + l.toInt)
  else .ok (0, out)

/-- `pgval_to_range`: the length is not looked at, and the flags are a signed byte. -/
def pgvalToRange {w : Nat} (pgvalToBound : Reader (BitVec w)) : Reader (Range w) :=
  fun buffer val _ => do
    let byte ← readByte buffer val
    let value : Range w := { flags := byte.toBitVec.signExtend 32 }
    let (lb, out) ← readBound pgvalToBound buffer value.hasLbound (val + 1)
    let (ub, _) ← readBound pgvalToBound buffer value.hasUbound out
    return { value with lb, ub }

def pgvalToInt4range : Reader (Range 32) := pgvalToRange pgvalToInt32

def pgvalToInt8range : Reader (Range 64) := pgvalToRange pgvalToInt64

end PqAsync
