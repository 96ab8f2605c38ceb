import PqAsync.Library.Bytes
import Mathlib.Data.List.Basic

/-!
Executable model of the wire code for single values: byte swapping on a little-endian host,
parameters, and reads from the buffer of a result. A pointer into a buffer is an offset, and
a read outside the buffer is an error.
-/

namespace PqAsync

inductive WireError
  | outOfBounds
  | badAlloc
  | lengthError
  | overflow
  | exception (message : String)
  deriving DecidableEq, Repr

def inMemory (size : Nat) {w : Nat} (x : BitVec w) : List UInt8 :=
  Bytes.littleEndian size x.toNat

def fromMemory (w : Nat) (bytes : List UInt8) : BitVec w := BitVec.ofNat w (Bytes.value bytes)

def htons (x : BitVec 16) : BitVec 16 := fromMemory 16 (inMemory 2 x).reverse

def ntohs (x : BitVec 16) : BitVec 16 := fromMemory 16 (inMemory 2 x).reverse

def htonl (x : BitVec 32) : BitVec 32 := fromMemory 32 (inMemory 4 x).reverse

def ntohl (x : BitVec 32) : BitVec 32 := fromMemory 32 (inMemory 4 x).reverse

def swap2 (x : BitVec 16) (toNetwork : Bool) : BitVec 16 :=
  if toNetwork then htons x else ntohs x

def swap4 (x : BitVec 32) (toNetwork : Bool) : BitVec 32 :=
  if toNetwork then htonl x else ntohl x

def swap8 (x : BitVec 64) (toNetwork : Bool) : BitVec 64 :=
  let in0 : BitVec 32 := x.setWidth 32
  let in1 : BitVec 32 := (x >>> 32).setWidth 32
  let out0 := if toNetwork then htonl in1 else ntohl in1
  let out1 := if toNetwork then htonl in0 else ntohl in0
  out1 ++ out0

def toInt (size : Nat) : Int := (BitVec.ofNat 32 size).toInt

/-- A `parameter` that has an oid; a null one has no value. -/
structure Parameter where
  oid : Nat
  value : Option (List UInt8)
  length : Int
  format : Int
  deriving DecidableEq, Repr

def newNullParameter (oid : Nat) : Parameter := { oid, value := none, length := 0, format := 1 }

def Parameter.binary (oid : Nat) (bytes : List UInt8) : Parameter :=
  { oid, value := some bytes, length := toInt bytes.length, format := 1 }

/-- A parameter in text format: the length counts the terminator. -/
def Parameter.text (oid : Nat) (text : List UInt8) : Parameter :=
  { oid, value := some (text ++ [0]), length := toInt (text.length + 1), format := 0 }

def newBuffer (len : Int) : Except WireError Unit :=
  if len < 0 then .error .badAlloc else .ok ()

def readBytes (buffer : List UInt8) (offset : Int) (size : Nat) :
    Except WireError (List UInt8) :=
  if 0 ≤ offset ∧ offset + size ≤ buffer.length then
    .ok ((buffer.drop offset.toNat).take size)
  else .error .outOfBounds

def readInt16 (buffer : List UInt8) (offset : Int) : Except WireError (BitVec 16) := do
  let bytes ← readBytes buffer offset 2
  return swap2 (fromMemory 16 bytes) false

def readInt32 (buffer : List UInt8) (offset : Int) : Except WireError (BitVec 32) := do
  let bytes ← readBytes buffer offset 4
  return swap4 (fromMemory 32 bytes) false

def readInt64 (buffer : List UInt8) (offset : Int) : Except WireError (BitVec 64) := do
  let bytes ← readBytes buffer offset 8
  return swap8 (fromMemory 64 bytes) false

/-- A function that reads a value of the given length at an offset of a buffer. -/
abbrev Reader (α : Type) := List UInt8 → Int → Int → Except WireError α

end PqAsync
