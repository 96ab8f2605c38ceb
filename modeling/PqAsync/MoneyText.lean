import PqAsync.CheckedInt
import PqAsync.MoneyCore
import PqAsync.NumericText

/-!
Executable model of the texts of money: `to_string`, the conversions from and to numerics that
go through it, and the parts of an amount as texts. The functions that print and read numbers
are those of another library, and are parameters.
-/

namespace PqAsync

def notInt64 : WireError := .exception "Unable to convert to int64!"

def int64OrThrow (x : Int) : Except WireError Int :=
  if FitsInt64 x then .ok x else .error notInt64

def accumulate : List Int → Nat → Int → Except WireError Int
  | _, 0, val => .ok val
  | [], remaining + 1, val => do
      let val ← int64OrThrow (val * nbase)
      accumulate [] remaining val
  | digit :: digits, remaining + 1, val => do
      let val ← int64OrThrow (val * nbase)
      let val ← int64OrThrow (val - digit)
      accumulate digits remaining val

/-- `numericvar_to_int64`: a number is rounded, and its negative is built up. -/
def Numeric.toInt64 (var : Numeric) : Except WireError Int :=
  match checkedRoundVar { var with spare := 1 } 0 with
  | .error .overflow => .error .overflow
  | .error _ => .error .outOfBounds
  | .ok rounded =>
      let rounded := stripVar rounded
      match rounded.digits with
      | [] => .ok 0
      | digit :: digits => do
          if ¬(0 ≤ rounded.weight ∧ rounded.ndigits ≤ rounded.weight + 1) then
            throw (.exception "Assertion failed")
          let val ← accumulate digits rounded.weight.toNat (-digit)
          if rounded.sign = numericNeg then return val else int64OrThrow (-val)

namespace Money

section

variable (numToStr : Int → List Char)

/-- `to_string`: the remainder is that of the raw value before the change of its digits. -/
def toText (this : Money) (fracDigits : Nat) : Except WireError (List Char) := do
  let tm ← this.toFracDigits fracDigits
  let m ← getPow fracDigits
  let n := tm.val.toInt.tdiv m.toInt
  let d := (this.val.toInt.tmod m.toInt).natAbs
  let ds := numToStr d
  let ds := List.replicate (fracDigits - ds.length) '0' ++ ds
  return numToStr n ++ '.' :: ds

def toNumeric (this : Money) : Except WireError Numeric := do
  let str ← this.toText numToStr this.fracDigits
  return .ofText str

/-- `decimal_parts_to` with texts: whether the amount is positive, and the two parts. -/
def decimalTexts (this : Money) : Except WireError (Bool × List Char × List Char) := do
  let m ← getPow this.fracDigits
  let abs ← this.absVal
  return (decide (0 ≤ this.val.toInt), numToStr (abs.toInt.tdiv m.toInt),
    numToStr (abs.toInt.tmod m.toInt))

end

variable (strToNum : List Char → Except WireError Int)

def fitFraction (fracDigits : Nat) (dbs : List Char) : List Char :=
  if dbs.length > fracDigits then dbs.take fracDigits
  else dbs ++ List.replicate (fracDigits - dbs.length) '0'

def fromNumeric (b : Numeric) (fracDigits : Nat) : Except WireError Money := do
  let m ← getPow fracDigits
  let bs := b.text
  if bs.contains '.' then
    let nbs := bs.takeWhile (· ≠ '.')
    let dbs := fitFraction fracDigits ((bs.dropWhile (· ≠ '.')).drop 1)
    let whole ← strToNum nbs
    let val ← checkedInt 64 (whole * m.toInt)
    let fraction ← strToNum dbs
    let val ← checkedInt 64 (val.toInt + fraction)
    return { val, fracDigits }
  else
    let whole ← b.toInt64
    let val ← checkedInt 64 (whole * m.toInt)
    return { val, fracDigits }

end Money

end PqAsync
