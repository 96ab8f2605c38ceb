import PqAsync.Library.Radix
import Mathlib.Data.List.DropRight

/-!
Executable model of the numeric arithmetic: addition, subtraction, multiplication, division
and remainder with the loops they run on base-10000 digits. The `int` arithmetic on weights
and scales is that of integers; that on the digits of products and quotients is checked for
overflow.
-/

namespace PqAsync

inductive NumericError
  | divisionByZero
  | overflow
  | assertFailed
  | outOfBounds
  deriving DecidableEq, Repr

/-- `spare` counts the zero digits that the buffer has in front of `digits`. -/
structure Numeric where
  spare : Nat
  digits : List Int
  weight : Int
  sign : Int
  dscale : Int
  deriving DecidableEq, Repr

def nbase : Int := 10000
def halfNbase : Int := 5000
def decDigits : Int := 4
def mulGuardDigits : Int := 2
def numericPos : Int := 0x0000
def numericNeg : Int := 0x4000
def intMax : Int := 2147483647

def roundPowers (di : Int) : Int := [0, 1000, 100, 10].getD di.toNat 0

def Numeric.ndigits (var : Numeric) : Int := var.digits.length

def int32 (x : Int) : Except NumericError Int :=
  if -2 ^ 31 ≤ x ∧ x < 2 ^ 31 then .ok x else .error .overflow

def assertThat (condition : Bool) : Except NumericError Unit :=
  if condition then .ok () else .error .assertFailed

/-- `zero_var`, and the scale that its callers set after it. -/
def zeroVar (dscale : Int) : Numeric :=
  { spare := 0, digits := [], weight := 0, sign := numericPos, dscale }

def stripLeading : List Int → Int → Nat → List Int × Int × Nat
  | [], weight, spare => ([], weight, spare)
  | digit :: digits, weight, spare =>
      if digit = 0 then stripLeading digits (weight - 1) (spare + 1)
      else (digit :: digits, weight, spare)

def stripVar (var : Numeric) : Numeric :=
  let (digits, weight, spare) := stripLeading var.digits var.weight var.spare
  let digits := digits.rdropWhile (· = 0)
  if digits = [] then { var with spare, digits, weight := 0, sign := numericPos }
  else { var with spare, digits, weight }

/-- The loop over the digits in front of the first common one; `none` when one of them is not
zero. -/
def skipLeading (other : Int) : List Int → Int → Option (List Int × Int)
  | [], weight => some ([], weight)
  | digit :: digits, weight =>
      if weight > other then
        if digit ≠ 0 then none else skipLeading other digits (weight - 1)
      else some (digit :: digits, weight)

def compareRest (digits1 digits2 : List Int) : Int :=
  if digits1.any (· ≠ 0) then 1 else if digits2.any (· ≠ 0) then -1 else 0

def compareDigits : List Int → List Int → Int
  | digit1 :: digits1, digit2 :: digits2 =>
      let stat := digit1 - digit2
      if stat ≠ 0 then (if stat > 0 then 1 else -1) else compareDigits digits1 digits2
  | digits1, digits2 => compareRest digits1 digits2

def cmpAbsCommon (digits1 : List Int) (weight1 : Int) (digits2 : List Int) (weight2 : Int) : Int :=
  match skipLeading weight2 digits1 weight1 with
  | none => 1
  | some (digits1, weight1) =>
      match skipLeading weight1 digits2 weight2 with
      | none => -1
      | some (digits2, weight2) =>
          if weight1 = weight2 then compareDigits digits1 digits2
          else compareRest digits1 digits2

def cmpAbs (var1 var2 : Numeric) : Int :=
  cmpAbsCommon var1.digits var1.weight var2.digits var2.weight

/-- The loop of `add_abs`, from the last result digit to the first. -/
def addDigits (digits1 digits2 : List Int) : Nat → Int → Int → Int → List Int → List Int × Int
  | 0, _, _, carry, resDigits => (resDigits, carry)
  | i + 1, i1, i2, carry, resDigits =>
      let carry := carry + Radix.digitAt digits1 (i1 - 1) + Radix.digitAt digits2 (i2 - 1)
      if carry ≥ nbase then
        addDigits digits1 digits2 i (i1 - 1) (i2 - 1) 1 ((carry - nbase) :: resDigits)
      else addDigits digits1 digits2 i (i1 - 1) (i2 - 1) 0 (carry :: resDigits)

def addAbs (var1 var2 : Numeric) : Except NumericError Numeric := do
  let resWeight := max var1.weight var2.weight + 1
  let resDscale := max var1.dscale var2.dscale
  let rscale1 := var1.ndigits - var1.weight - 1
  let rscale2 := var2.ndigits - var2.weight - 1
  let resRscale := max rscale1 rscale2
  let resNdigits := resRscale + resWeight + 1
  let resNdigits := if resNdigits ≤ 0 then 1 else resNdigits
  let i1 := resRscale + var1.weight + 1
  let i2 := resRscale + var2.weight + 1
  let (resDigits, carry) := addDigits var1.digits var2.digits resNdigits.toNat i1 i2 0 []
  assertThat (carry = 0)
  return stripVar { spare := 1, digits := resDigits, weight := resWeight, sign := numericPos,
                    dscale := resDscale }

def subDigits (digits1 digits2 : List Int) : Nat → Int → Int → Int → List Int → List Int × Int
  | 0, _, _, borrow, resDigits => (resDigits, borrow)
  | i + 1, i1, i2, borrow, resDigits =>
      let borrow := borrow + Radix.digitAt digits1 (i1 - 1) - Radix.digitAt digits2 (i2 - 1)
      if borrow < 0 then
        subDigits digits1 digits2 i (i1 - 1) (i2 - 1) (-1) ((borrow + nbase) :: resDigits)
      else subDigits digits1 digits2 i (i1 - 1) (i2 - 1) 0 (borrow :: resDigits)

def subAbs (var1 var2 : Numeric) : Except NumericError Numeric := do
  let resWeight := var1.weight
  let resDscale := max var1.dscale var2.dscale
  let rscale1 := var1.ndigits - var1.weight - 1
  let rscale2 := var2.ndigits - var2.weight - 1
  let resRscale := max rscale1 rscale2
  let resNdigits := resRscale + resWeight + 1
  let resNdigits := if resNdigits ≤ 0 then 1 else resNdigits
  let i1 := resRscale + var1.weight + 1
  let i2 := resRscale + var2.weight + 1
  let (resDigits, borrow) := subDigits var1.digits var2.digits resNdigits.toNat i1 i2 0 []
  assertThat (borrow = 0)
  return stripVar { spare := 1, digits := resDigits, weight := resWeight, sign := numericPos,
                    dscale := resDscale }

/-- `sub_abs` of the larger magnitude, with the sign of the result. -/
def subBySize (var1 var2 : Numeric) (signGreater signLess : Int) : Except NumericError Numeric :=
  let stat := cmpAbs var1 var2
  if stat = 0 then .ok (zeroVar (max var1.dscale var2.dscale))
  else if stat = 1 then do
    let result ← subAbs var1 var2
    return { result with sign := signGreater }
  else do
    let result ← subAbs var2 var1
    return { result with sign := signLess }

def addVar (var1 var2 : Numeric) : Except NumericError Numeric :=
  if var1.sign = numericPos then
    if var2.sign = numericPos then do
      let result ← addAbs var1 var2
      return { result with sign := numericPos }
    else subBySize var1 var2 numericPos numericNeg
  else if var2.sign = numericPos then subBySize var1 var2 numericNeg numericPos
  else do
    let result ← addAbs var1 var2
    return { result with sign := numericNeg }

def subVar (var1 var2 : Numeric) : Except NumericError Numeric :=
  if var1.sign = numericPos then
    if var2.sign = numericNeg then do
      let result ← addAbs var1 var2
      return { result with sign := numericPos }
    else subBySize var1 var2 numericPos numericNeg
  else if var2.sign = numericNeg then subBySize var1 var2 numericNeg numericPos
  else do
    let result ← addAbs var1 var2
    return { result with sign := numericNeg }

/-- The carry of a rounding, on the digits in front of it from right to left. The second result
tells whether it reached the spare digit. -/
def propagateCarry (spare : Nat) : List Int → Except NumericError (List Int × Bool)
  | [] => if spare = 0 then .error .outOfBounds else .ok ([1], true)
  | digit :: digits =>
      let carry := 1 + digit
      if carry ≥ nbase then do
        let (digits, intoSpare) ← propagateCarry spare digits
        return ((carry - nbase) :: digits, intoSpare)
      else .ok (carry :: digits, false)

def carryInto (var : Numeric) (front rounded : List Int) : Except NumericError Numeric := do
  let (front, intoSpare) ← propagateCarry var.spare front.reverse
  let digits := front.reverse ++ rounded
  if intoSpare then
    return { var with spare := var.spare - 1, digits, weight := var.weight + 1 }
  else return { var with digits }

def roundVar (var : Numeric) (rscale : Int) : Except NumericError Numeric :=
  let var := { var with dscale := rscale }
  let di := (var.weight + 1) * decDigits + rscale
  if di < 0 then .ok { var with digits := [], weight := 0, sign := numericPos }
  else
    let ndigits := (di + decDigits - 1).tdiv decDigits
    let di := di.tmod decDigits
    if ndigits < var.ndigits ∨ (ndigits = var.ndigits ∧ di > 0) then
      let kept := var.digits.take ndigits.toNat
      if di = 0 then
        if Radix.digitAt var.digits ndigits ≥ halfNbase then carryInto var kept []
        else .ok { var with digits := kept }
      else
        match kept.getLast? with
        | none => .error .outOfBounds
        | some last =>
            let pow10 := roundPowers di
            let extra := last.tmod pow10
            let last := last - extra
            if extra ≥ pow10.tdiv 2 then
              let pow10 := pow10 + last
              if pow10 ≥ nbase then carryInto var kept.dropLast [pow10 - nbase]
              else .ok { var with digits := kept.dropLast ++ [pow10] }
            else .ok { var with digits := kept.dropLast ++ [last] }
    else .ok var

/-- `(var->weight + 1) * DEC_DIGITS + rscale` -/
def decimalDigits (weight rscale : Int) : Except NumericError Int := do
  let places ← int32 (weight + 1)
  let places ← int32 (places * decDigits)
  int32 (places + rscale)

/-- `(di + DEC_DIGITS - 1) / DEC_DIGITS` -/
def nbaseDigits (di : Int) : Except NumericError Nat := do
  let di ← int32 (di + decDigits)
  return ((di - 1).tdiv decDigits).toNat

/-- `round_var` with the `int` values of its places checked. -/
def checkedRoundVar (var : Numeric) (rscale : Int) : Except NumericError Numeric := do
  let di ← decimalDigits var.weight rscale
  if 0 ≤ di then
    let _ ← nbaseDigits di
    roundVar var rscale
  else roundVar var rscale

def truncVar (var : Numeric) (rscale : Int) : Except NumericError Numeric :=
  let var := { var with dscale := rscale }
  let di := (var.weight + 1) * decDigits + rscale
  if di ≤ 0 then .ok { var with digits := [], weight := 0, sign := numericPos }
  else
    let ndigits := (di + decDigits - 1).tdiv decDigits
    if ndigits ≤ var.ndigits then
      let kept := var.digits.take ndigits.toNat
      let di := di.tmod decDigits
      if di > 0 then
        match kept.getLast? with
        | none => .error .outOfBounds
        | some last =>
            let extra := last.tmod (roundPowers di)
            .ok { var with digits := kept.dropLast ++ [last - extra] }
      else .ok { var with digits := kept }
    else .ok var

def addProducts (var1digit : Int) : List Int → List Int → Except NumericError (List Int)
  | digit :: digits, entry :: dig => do
      let product ← int32 (var1digit * digit)
      let entry ← int32 (entry + product)
      let dig ← addProducts var1digit digits dig
      return entry :: dig
  | _, dig => .ok dig

def normalize : List Int → Except NumericError (List Int × Int)
  | [] => .ok ([], 0)
  | entry :: dig => do
      let (dig, carry) ← normalize dig
      let newdig ← int32 (entry + carry)
      if newdig ≥ nbase then
        let carry := newdig.tdiv nbase
        return ((newdig - carry * nbase) :: dig, carry)
      else return (newdig :: dig, 0)

/-- What `maxdig` may reach before the accumulator has to be normalized. -/
def maxdigLimit : Int := (intMax - intMax.tdiv nbase).tdiv (nbase - 1)

def makeRoom (var1digit maxdig : Int) (dig : List Int) :
    Except NumericError (Int × List Int) := do
  let maxdig ← int32 (maxdig + var1digit)
  if maxdig > maxdigLimit then
    let (dig, carry) ← normalize dig
    assertThat (carry = 0)
    return (1 + var1digit, dig)
  else return (maxdig, dig)

def mulDigits (digits1 digits2 : List Int) : Nat → Int → List Int →
    Except NumericError (List Int)
  | 0, _, dig => .ok dig
  | i1 + 1, maxdig, dig => do
      let var1digit := digits1.getD i1 0
      if var1digit = 0 then mulDigits digits1 digits2 i1 maxdig dig
      else
        let (maxdig, dig) ← makeRoom var1digit maxdig dig
        let added ← addProducts var1digit digits2 (dig.drop (i1 + 2))
        mulDigits digits1 digits2 i1 maxdig (dig.take (i1 + 2) ++ added)

/-- `mul_var` once the first operand is the shorter one. -/
def mulOrdered (var1 var2 : Numeric) (rscale : Int) : Except NumericError Numeric :=
  if var1.ndigits = 0 ∨ var2.ndigits = 0 then .ok (zeroVar rscale)
  else
    let resSign := if var1.sign = var2.sign then numericPos else numericNeg
    let resWeight := var1.weight + var2.weight + 2
    let maxdigits := resWeight + 1 + (rscale + decDigits - 1).tdiv decDigits + mulGuardDigits
    let resNdigits := min (var1.ndigits + var2.ndigits + 1) maxdigits
    if resNdigits < 3 then .ok (zeroVar rscale)
    else do
      let i1 := min (var1.ndigits - 1) (resNdigits - 3)
      let dig ← mulDigits var1.digits var2.digits (i1 + 1).toNat 0
        (List.replicate resNdigits.toNat 0)
      let (resDigits, carry) ← normalize dig
      assertThat (carry = 0)
      let result ← roundVar { spare := 1, digits := resDigits, weight := resWeight,
                              sign := resSign, dscale := 0 } rscale
      return stripVar result

def mulVar (var1 var2 : Numeric) (rscale : Int) : Except NumericError Numeric :=
  if var1.ndigits > var2.ndigits then mulOrdered var2 var1 rscale
  else mulOrdered var1 var2 rscale

def shortDivision (divisor1 : Int) : List Int → Int → Except NumericError (List Int)
  | [], _ => .ok []
  | digit :: dividend, carry => do
      let product ← int32 (carry * nbase)
      let carry ← int32 (product + digit)
      let resDigits ← shortDivision divisor1 dividend (carry.tmod divisor1)
      return carry.tdiv divisor1 :: resDigits

/-- The multiplication of the working digits by `d`. -/
def scaleDigits (d : Int) : List Int → Except NumericError (List Int × Int)
  | [] => .ok ([], 0)
  | digit :: digits => do
      let (digits, carry) ← scaleDigits d digits
      let product ← int32 (digit * d)
      let carry ← int32 (carry + product)
      return (carry.tmod nbase :: digits, carry.tdiv nbase)

def qhatTooLarge (divisor1 divisor2 next2digits third qhat : Int) :
    Except NumericError Bool := do
  let left ← int32 (divisor2 * qhat)
  let product ← int32 (qhat * divisor1)
  let remainder ← int32 (next2digits - product)
  let shifted ← int32 (remainder * nbase)
  let right ← int32 (shifted + third)
  return left > right

def adjustQhat (divisor1 divisor2 next2digits third : Int) : Nat → Except NumericError Nat
  | 0 => do
      let tooLarge ← qhatTooLarge divisor1 divisor2 next2digits third 0
      if tooLarge then .error .overflow else .ok 0
  | qhat + 1 => do
      let tooLarge ← qhatTooLarge divisor1 divisor2 next2digits third (qhat + 1 : Nat)
      if tooLarge then adjustQhat divisor1 divisor2 next2digits third qhat else .ok (qhat + 1)

/-- The working dividend less the divisor times `qhat`, with the last carry and borrow. -/
def multiplySubtract (qhat : Int) : List Int → List Int →
    Except NumericError (List Int × Int × Int)
  | [], dividend => .ok (dividend, 0, 0)
  | _ :: _, [] => .error .outOfBounds
  | divisorDigit :: divisor, digit :: dividend => do
      let (dividend, carry, borrow) ← multiplySubtract qhat divisor dividend
      let product ← int32 (divisorDigit * qhat)
      let carry ← int32 (carry + product)
      let borrow ← int32 (borrow - carry.tmod nbase)
      let borrow ← int32 (borrow + digit)
      if borrow < 0 then return ((borrow + nbase) :: dividend, carry.tdiv nbase, -1)
      else return (borrow :: dividend, carry.tdiv nbase, 0)

def addBack : List Int → List Int → Except NumericError (List Int × Int)
  | [], dividend => .ok (dividend, 0)
  | _ :: _, [] => .error .outOfBounds
  | divisorDigit :: divisor, digit :: dividend => do
      let (dividend, carry) ← addBack divisor dividend
      let carry ← int32 (carry + (digit + divisorDigit))
      if carry ≥ nbase then return ((carry - nbase) :: dividend, 1)
      else return (carry :: dividend, 0)

/-- The quotient digit and the working dividend without the product; one divisor is added back
when the estimate was too large. -/
def subtractProduct (qhat : Nat) (divisor dividend : List Int) :
    Except NumericError (Int × List Int) :=
  if qhat > 0 then do
    let (dividend, carry, borrow) ← multiplySubtract qhat divisor dividend
    assertThat (carry = 0)
    if borrow ≠ 0 then
      let (dividend, carry) ← addBack divisor dividend
      assertThat (carry = 1)
      return ((qhat : Int) - 1, dividend)
    else return ((qhat : Int), dividend)
  else .ok (qhat, dividend)

/-- One turn of the main loop, on the working dividend from position `j` on. -/
def quotientDigit (divisor dividend : List Int) : Except NumericError (Int × List Int) :=
  match divisor, dividend with
  | _ :: divisor1 :: divisor2 :: _, digit0 :: digit1 :: digit2 :: _ => do
      let shifted ← int32 (digit0 * nbase)
      let next2digits ← int32 (shifted + digit1)
      if next2digits = 0 then return (0, dividend)
      else
        let estimate := if digit0 = divisor1 then nbase - 1 else next2digits.tdiv divisor1
        let qhat ← adjustQhat divisor1 divisor2 next2digits digit2 estimate.toNat
        subtractProduct qhat divisor dividend
  | _, _ => .error .outOfBounds

def quotientDigits (divisor : List Int) : Nat → List Int → Except NumericError (List Int)
  | 0, _ => .ok []
  | remaining + 1, dividend => do
      let (resDigit, dividend) ← quotientDigit divisor dividend
      let resDigits ← quotientDigits divisor remaining dividend.tail
      return resDigit :: resDigits

/-- The divisor and the working dividend, scaled so that the first divisor digit is at least
half the base. Only the first `var1ndigits + 1` digits of the dividend can be nonzero. -/
def scaleOperands (var1ndigits : Nat) (divisor dividend : List Int) :
    Except NumericError (List Int × List Int) :=
  let divisor1 := divisor.headD 0
  if divisor1 < halfNbase then do
    let d := nbase.tdiv (divisor1 + 1)
    let (divisor, carry) ← scaleDigits d divisor
    assertThat (carry = 0)
    let (scaled, carry) ← scaleDigits d (dividend.take (var1ndigits + 1))
    assertThat (carry = 0)
    assertThat (divisor.headD 0 ≥ halfNbase)
    return (0 :: divisor, scaled ++ dividend.drop (var1ndigits + 1))
  else .ok (0 :: divisor, dividend)

/-- The quotient digits of the digit strings of `div_var`. -/
def divDigits (digits1 digits2 : List Int) (resNdigits : Int) : Except NumericError (List Int) :=
  let divNdigits := max (resNdigits + digits2.length) digits1.length
  let dividend := 0 :: (digits1 ++ List.replicate (divNdigits - digits1.length).toNat 0)
  match digits2 with
  | [divisor1] => shortDivision divisor1 (dividend.tail.take resNdigits.toNat) 0
  | _ => do
      let (divisor, dividend) ← scaleOperands digits1.length digits2 dividend
      quotientDigits divisor resNdigits.toNat dividend

def divVar (var1 var2 : Numeric) (rscale : Int) (round : Bool) : Except NumericError Numeric :=
  if var2.digits = [] ∨ var2.digits.headD 0 = 0 then .error .divisionByZero
  else if var1.ndigits = 0 then .ok (zeroVar rscale)
  else do
    let resSign := if var1.sign = var2.sign then numericPos else numericNeg
    let resWeight := var1.weight - var2.weight
    let resNdigits := resWeight + 1 + (rscale + decDigits - 1).tdiv decDigits
    let resNdigits := max resNdigits 1
    let resNdigits := if round then resNdigits + 1 else resNdigits
    let resDigits ← divDigits var1.digits var2.digits resNdigits
    let result : Numeric := { spare := 1, digits := resDigits, weight := resWeight,
                              sign := resSign, dscale := 0 }
    let result ← if round then roundVar result rscale else truncVar result rscale
    return stripVar result

def modVar (var1 var2 : Numeric) : Except NumericError Numeric := do
  let tmp ← divVar var1 var2 0 false
  let tmp ← mulVar var2 tmp var2.dscale
  subVar var1 tmp

namespace Numeric

def add (this b : Numeric) : Except NumericError Numeric := addVar this b

def sub (this b : Numeric) : Except NumericError Numeric := subVar this b

def mul (this b : Numeric) : Except NumericError Numeric :=
  mulVar this b (max this.dscale b.dscale)

def div (this b : Numeric) : Except NumericError Numeric :=
  divVar this b (max this.dscale b.dscale) false

def mod (this b : Numeric) : Except NumericError Numeric := modVar this b

end Numeric

end PqAsync
