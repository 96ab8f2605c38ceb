import PqAsync.DateReaders
import PqAsync.NumericWireCore

/-!
Executable model of ranges over any type of bounds: the flags, the encoders with the length
that they compute before they write, and the readers with the place that their cursor reaches.
-/

namespace PqAsync

def numrangeOid : Nat := 3906
def tsrangeOid : Nat := 3908
def tstzrangeOid : Nat := 3910
def daterangeOid : Nat := 3912

inductive RangeInclusion
  | inclusive
  | exclusive
  deriving DecidableEq, Repr

structure BoundRange (α : Type) where
  flags : BitVec 32
  lb : α
  ub : α
  deriving DecidableEq, Repr

namespace BoundRange

variable {α : Type}

def hasLbound (value : BoundRange α) : Bool := value.flags &&& 0x29 == 0

def hasUbound (value : BoundRange α) : Bool := value.flags &&& 0x51 == 0

def isEmpty (value : BoundRange α) : Bool := value.flags &&& 0x01 != 0

def isOrContainsEmpty (value : BoundRange α) : Bool := value.flags &&& 0x81 != 0

def lboundInclusion (value : BoundRange α) : RangeInclusion :=
  if value.flags &&& 0x02 != 0 then .inclusive else .exclusive

def uboundInclusion (value : BoundRange α) : RangeInclusion :=
  if value.flags &&& 0x04 != 0 then .inclusive else .exclusive

end BoundRange

/-- What the encoder of a range does with a bound: the length that it computes, and the bytes
that it writes after that length. -/
structure BoundEncoder (α : Type) where
  length : α → Except WireError Int
  memory : α → Except WireError (List UInt8)

section

variable {α : Type} (encoder : BoundEncoder α)

def addBound (present : Bool) (bound : α) (len : Int) : Except WireError Int :=
  if present then do
    let vl ← encoder.length bound
    let field ← addInt 4 vl
    addInt len field
  else .ok len

def writeBound (present : Bool) (bound : α) : Except WireError (List UInt8) :=
  if present then do
    let vl ← encoder.length bound
    let bytes ← encoder.memory bound
    return inMemory 4 (swap4 (BitVec.ofInt 32 vl) true) ++ bytes
  else .ok []

def newParameterBounds (oid : Nat) (value : BoundRange α) : Except WireError Parameter := do
  let len ← addBound encoder value.hasLbound value.lb 1
  let len ← addBound encoder value.hasUbound value.ub len
  newBuffer len
  let lower ← writeBound encoder value.hasLbound value.lb
  let upper ← writeBound encoder value.hasUbound value.ub
  fillBuffer oid len (.ofBitVec (value.flags.setWidth 8) :: (lower ++ upper))

end

def readBoundOr {α : Type} (absent : α) (pgvalToBound : Reader α) (buffer : List UInt8)
    (present : Bool) (out : Int) : Except WireError (α × Int) :=
  if present then do
    let l ← pgvalToInt32 buffer out 4
    let bound ← pgvalToBound buffer (out + 4) l.toInt
    return (bound, out + 4 + l.toInt)
  else .ok (absent, out)

/-- `pgval_to_range`, with the place that its cursor reaches. -/
def pgvalToBoundsFrom {α : Type} (absent : α) (pgvalToBound : Reader α) :
    Reader (BoundRange α × Int) := fun buffer val _ => do
  let byte ← readByte buffer val
  let value : BoundRange α := { flags := byte.toBitVec.signExtend 32, lb := absent, ub := absent }
  let (lb, out) ← readBoundOr absent pgvalToBound buffer value.hasLbound (val + 1)
  let (ub, out) ← readBoundOr absent pgvalToBound buffer value.hasUbound out
  return ({ value with lb, ub }, out)

def pgvalToBounds {α : Type} (absent : α) (pgvalToBound : Reader α) : Reader (BoundRange α) :=
  fun buffer val len => do
    let (value, _) ← pgvalToBoundsFrom absent pgvalToBound buffer val len
    return value

/-- `numeric()`. -/
def Numeric.unset : Numeric :=
  { spare := 0, digits := [], weight := 0, sign := numericPos, dscale := 0 }

def intEncoder (vl : Nat) {w : Nat} (toNetwork : BitVec w → BitVec w) : BoundEncoder (BitVec w) where
  length _ := .ok vl
  memory bound := .ok (inMemory vl (toNetwork bound))

def numericEncoder : BoundEncoder Numeric where
  length := numericLength
  memory bound := .ok (numericMemory bound)

section

variable (calendar : Calendar) (clock : BitVec 64)

def timestampEncoder : BoundEncoder Timestamp where
  length _ := .ok 8
  memory bound := do
    let ticks ← bound.pgticks calendar
    let val ← checkedInt 64 (ticks - postgresEpochUsec)
    return inMemory 8 (swap8 val true)

def timestampTzEncoder : BoundEncoder TimestampTz where
  length _ := .ok 8
  memory bound := do
    let ticks ← bound.pgticks calendar
    let val ← checkedInt 64 (ticks - postgresEpochUsec)
    return inMemory 8 (swap8 val true)

def dateEncoder : BoundEncoder Date where
  length _ := .ok 4
  memory bound := do
    let ticks ← bound.pgticks calendar
    let val ← checkedInt 32 (ticks - postgresEpochJdate)
    return inMemory 4 (swap4 val true)

def newParameterNumrange (value : BoundRange Numeric) : Except WireError Parameter :=
  newParameterBounds numericEncoder numrangeOid value

def newParameterTsrange (value : BoundRange Timestamp) : Except WireError Parameter :=
  newParameterBounds (timestampEncoder calendar) tsrangeOid value

def newParameterTstzrange (value : BoundRange TimestampTz) : Except WireError Parameter :=
  newParameterBounds (timestampTzEncoder calendar) tstzrangeOid value

def newParameterDaterange (value : BoundRange Date) : Except WireError Parameter :=
  newParameterBounds (dateEncoder calendar) daterangeOid value

def pgvalToNumrange : Reader (BoundRange Numeric) := pgvalToBounds Numeric.unset pgvalToNumeric

def pgvalToTsrange : Reader (BoundRange Timestamp) :=
  pgvalToBounds (Timestamp.now clock) (pgvalToTimestamp calendar clock)

def pgvalToTstzrange : Reader (BoundRange TimestampTz) :=
  pgvalToBounds (TimestampTz.now clock) (pgvalToTimestampTz calendar clock)

def pgvalToDaterange : Reader (BoundRange Date) :=
  pgvalToBounds (Date.now calendar clock) (pgvalToDate calendar clock)

end

end PqAsync
