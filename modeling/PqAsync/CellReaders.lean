import PqAsync.MoneyCore
import PqAsync.ValueCore

/-!
Executable model of the readers of booleans, amounts of money, network addresses and geometric
values.
-/

namespace PqAsync

def pgvalToBool : Reader Bool := fun buffer val len =>
  if len = -1 then .ok false
  else do
    let byte ← readByte buffer val
    return byte != 0

def pgvalToMoney (fracDigits : Nat) : Reader Money := fun buffer val len =>
  if len = -1 then .ok { val := 0, fracDigits }
  else do
    let val ← readInt64 buffer val
    return { val, fracDigits }

def pgvalToFloat : Reader (BitVec 32) := fun buffer val len =>
  if len = -1 then .ok 0 else readInt32 buffer val

inductive NetFamily
  | none
  | inet
  | inet6
  deriving DecidableEq, Repr

/-- A `cidr` or an `inet`, with the 16 bytes of its address field. -/
structure NetAddress where
  family : NetFamily := .none
  bits : UInt8 := 0
  ipaddr : List UInt8 := List.replicate 16 0
  deriving DecidableEq, Repr

/-- The copy of `nb` bytes to an address field that has room for the first of them; the others
are written outside of it. -/
def readAddress (buffer : List UInt8) : Nat → Nat → Int → Except WireError (List UInt8)
  | room, 0, _ => .ok (List.replicate room 0)
  | 0, _ + 1, _ => .error .outOfBounds
  | room + 1, nb + 1, val => do
      let byte ← readByte buffer val
      let bytes ← readAddress buffer room nb (val + 1)
      return byte :: bytes

/-- The size of an address is a signed byte that is made a `size_t`. -/
def pgvalToAddress : Reader NetAddress := fun buffer val len =>
  if len = -1 then .ok {}
  else do
    let f ← readByte buffer val
    if f ≠ 2 ∧ f ≠ 3 then throw (.exception "Unsupported family type!")
    let bits ← readByte buffer (val + 1)
    let nb ← readByte buffer (val + 3)
    let ipaddr ← readAddress buffer 16 (nb.toBitVec.signExtend 64).toNat (val + 4)
    return { family := if f = 2 then .inet else .inet6, bits, ipaddr }

def pgvalToCidr : Reader NetAddress := pgvalToAddress

def pgvalToInet : Reader NetAddress := pgvalToAddress

structure Macaddr8 where
  a : UInt8 := 0
  b : UInt8 := 0
  c : UInt8 := 0
  d : UInt8 := 0
  e : UInt8 := 0
  f : UInt8 := 0
  g : UInt8 := 0
  h : UInt8 := 0
  deriving DecidableEq, Repr

def pgvalToMacaddr8 : Reader Macaddr8 := fun buffer val len =>
  if len = -1 then .ok {}
  else do
    let a ← readByte buffer val
    let b ← readByte buffer (val + 1)
    let c ← readByte buffer (val + 2)
    let d ← readByte buffer (val + 3)
    let e ← readByte buffer (val + 4)
    let f ← readByte buffer (val + 5)
    let g ← readByte buffer (val + 6)
    let h ← readByte buffer (val + 7)
    return { a, b, c, d, e, f, g, h }

structure Line where
  a : BitVec 64 := 0
  b : BitVec 64 := 0
  c : BitVec 64 := 0
  deriving DecidableEq, Repr

structure Lseg where
  a : Point := {}
  b : Point := {}
  deriving DecidableEq, Repr

structure Circle where
  center : Point := {}
  radius : BitVec 64 := 0
  deriving DecidableEq, Repr

def pgvalToLine : Reader Line := fun buffer val len =>
  if len = -1 then .ok {}
  else do
    let a ← pgvalToDouble buffer val 8
    let b ← pgvalToDouble buffer (val + 8) 8
    let c ← pgvalToDouble buffer (val + 16) 8
    return { a, b, c }

def pgvalToLseg : Reader Lseg := fun buffer val len =>
  if len = -1 then .ok {}
  else do
    let a ← pgvalToPoint buffer val 16
    let b ← pgvalToPoint buffer (val + 16) 16
    return { a, b }

def pgvalToBox : Reader Box := fun buffer val len =>
  if len = -1 then .ok {}
  else do
    let high ← pgvalToPoint buffer val 16
    let low ← pgvalToPoint buffer (val + 16) 16
    return { high, low }

def pgvalToCircle : Reader Circle := fun buffer val len =>
  if len = -1 then .ok {}
  else do
    let center ← pgvalToPoint buffer val 16
    let radius ← pgvalToDouble buffer (val + 16) 8
    return { center, radius }

end PqAsync
