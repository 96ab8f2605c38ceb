import PqAsync.DateCore
import Mathlib.Data.Rat.Defs

/-!
Executable model of `money`: comparisons, sums, differences, products and quotients of amounts
that may have different numbers of fractional digits.
-/

namespace PqAsync

structure Money where
  val : BitVec 64
  fracDigits : Nat
  deriving DecidableEq, Repr

namespace Money

/-- `std::pow` as an `int64_t`; a power that does not fit is undefined. -/
def getPow (fracDigits : Nat) : Except WireError (BitVec 64) := checkedInt 64 (10 ^ fracDigits)

def toFracDigits (this : Money) (fracDigits : Nat) : Except WireError Money :=
  if fracDigits = this.fracDigits then .ok this
  else if fracDigits > this.fracDigits then do
    let m ← getPow (fracDigits - this.fracDigits)
    let val ← checkedInt 64 (this.val.toInt * m.toInt)
    return { val, fracDigits }
  else do
    let m ← getPow (this.fracDigits - fracDigits)
    let val ← checkedInt 64 (this.val.toInt.tdiv m.toInt)
    return { val, fracDigits }

/-- `std::abs`, which the least value does not have. -/
def absVal (this : Money) : Except WireError (BitVec 64) := checkedInt 64 this.val.toInt.natAbs

def decimalPartsTo (this : Money) : Except WireError (Int × Int) := do
  let m ← getPow this.fracDigits
  let a := this.val.toInt.tdiv m.toInt
  let abs ← this.absVal
  let b := abs.toInt.tmod m.toInt
  return (a, if this.val.toInt < 0 then -b else b)

def equal (this b : Money) : Except WireError Bool := do
  let tm ← this.toFracDigits b.fracDigits
  return tm.val == b.val

def notEqual (this b : Money) : Except WireError Bool := do
  let tm ← this.toFracDigits b.fracDigits
  return tm.val != b.val

def compareBy (relation : Int → Int → Bool) (this b : Money) : Except WireError Bool :=
  if this.fracDigits = b.fracDigits then .ok (relation this.val.toInt b.val.toInt)
  else do
    let (aw, ad) ← this.decimalPartsTo
    let (bw, bd) ← b.decimalPartsTo
    return if aw = bw then relation ad bd else relation aw bw

def less (this b : Money) : Except WireError Bool := compareBy (· < ·) this b

def greater (this b : Money) : Except WireError Bool := compareBy (· > ·) this b

def lessEqual (this b : Money) : Except WireError Bool := compareBy (· ≤ ·) this b

def greaterEqual (this b : Money) : Except WireError Bool := compareBy (· ≥ ·) this b

def add (this b : Money) : Except WireError Money := do
  let r ← this.toFracDigits b.fracDigits
  let val ← checkedInt 64 (r.val.toInt + b.val.toInt)
  return { r with val }

def sub (this b : Money) : Except WireError Money := do
  let r ← this.toFracDigits b.fracDigits
  let val ← checkedInt 64 (r.val.toInt - b.val.toInt)
  return { r with val }

def addAssign (this b : Money) : Except WireError Money := do
  let tfd := this.fracDigits
  let this ← this.toFracDigits b.fracDigits
  let val ← checkedInt 64 (this.val.toInt + b.val.toInt)
  toFracDigits { this with val } tfd

def subAssign (this b : Money) : Except WireError Money := do
  let tfd := this.fracDigits
  let this ← this.toFracDigits b.fracDigits
  let val ← checkedInt 64 (this.val.toInt - b.val.toInt)
  toFracDigits { this with val } tfd

def quotient (x y : BitVec 64) : Except WireError (BitVec 64) :=
  if y = 0 then .error .overflow else checkedInt 64 (x.toInt.tdiv y.toInt)

def mul (this b : Money) : Except WireError Money := do
  let r ← this.toFracDigits b.fracDigits
  let product ← checkedInt 64 (r.val.toInt * b.val.toInt)
  let pow ← getPow r.fracDigits
  let val ← quotient product pow
  return { r with val }

/-- The quotient of the raw values is taken before it is scaled. -/
def div (this b : Money) : Except WireError Money := do
  let r ← this.toFracDigits b.fracDigits
  let whole ← quotient r.val b.val
  let pow ← getPow r.fracDigits
  let val ← checkedInt 64 (whole.toInt * pow.toInt)
  return { r with val }

def mulAssign (this b : Money) : Except WireError Money := do
  let tfd := this.fracDigits
  let this ← this.toFracDigits b.fracDigits
  let product ← checkedInt 64 (this.val.toInt * b.val.toInt)
  let pow ← getPow this.fracDigits
  let val ← quotient product pow
  toFracDigits { this with val } tfd

def divAssign (this b : Money) : Except WireError Money := do
  let tfd := this.fracDigits
  let this ← this.toFracDigits b.fracDigits
  let whole ← quotient this.val b.val
  let pow ← getPow this.fracDigits
  let val ← checkedInt 64 (whole.toInt * pow.toInt)
  toFracDigits { this with val } tfd

end Money

end PqAsync
