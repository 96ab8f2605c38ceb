import PqAsync.NumericText
import PqAsync.ArrayCore
import PqAsync.ValueCore

/-!
Executable model of the binary format of numerics: the encoder, which narrows each field to 16
bits, and the reader, which extends their signs. An `int` of a length is checked for overflow.
-/

namespace PqAsync

def numericOid : Nat := 1700

def addInt (x y : Int) : Except WireError Int :=
  if -2 ^ 31 ≤ x + y ∧ x + y < 2 ^ 31 then .ok (x + y) else .error .overflow

/-- `(int)sizeof(int16_t) * (4 + value.ndigits)`. -/
def numericLength (value : Numeric) : Except WireError Int := do
  let words ← addInt 4 value.ndigits
  mulInt 2 words

def int16Memory (x : Int) : List UInt8 := inMemory 2 (htons (BitVec.ofInt 16 x))

def numericMemory (value : Numeric) : List UInt8 :=
  int16Memory value.ndigits ++ (int16Memory value.weight ++ (int16Memory value.sign ++
    (int16Memory value.dscale ++ value.digits.flatMap int16Memory)))

def newParameterNumeric (value : Numeric) : Except WireError Parameter := do
  let numlen ← numericLength value
  fillBuffer numericOid numlen (numericMemory value)

def readDigits (buffer : List UInt8) : Nat → Int → Except WireError (List Int)
  | 0, _ => .ok []
  | remaining + 1, s => do
      let dval ← readInt16 buffer s
      let digits ← readDigits buffer remaining (s + 2)
      return dval.toInt :: digits

/-- `new int16_t[result.ndigits +1]`, and the spare digit that is stored at its start. -/
def newDigits (ndigits : Int) : Except WireError Unit :=
  if ndigits + 1 < 0 then .error .badAlloc
  else if ndigits + 1 = 0 then .error .outOfBounds
  else .ok ()

def pgvalToNumeric : Reader Numeric := fun buffer val len =>
  if len = -1 then .ok (.ofText ['0'])
  else do
    let ndigits ← readInt16 buffer val
    let weight ← readInt16 buffer (val + 2)
    let sign ← readInt16 buffer (val + 4)
    let dscale ← readInt16 buffer (val + 6)
    newDigits ndigits.toInt
    let digits ← readDigits buffer ndigits.toInt.toNat (val + 8)
    return { spare := 1, digits, weight := weight.toInt, sign := sign.toInt,
             dscale := dscale.toInt }

end PqAsync
