import PqAsync.NumericCore
import PqAsync.SplitCore

/-!
Executable model of the text of numerics: the constructor that reads it, `set_var_from_str`,
`get_str_from_var` and the comparison of two numerics.
-/

namespace PqAsync

def numericNan : Int := 0xC000

namespace Numeric

def isNan (this : Numeric) : Bool := this.sign == numericNan

/-- `numeric::nan()`: no digits, and no buffer for them. -/
def nan : Numeric := { spare := 0, digits := [], weight := 0, sign := numericNan, dscale := 0 }

end Numeric

def scanSign : List Char → Int × List Char
  | '+' :: cp => (numericPos, cp)
  | '-' :: cp => (numericNeg, cp)
  | cp => (numericPos, cp)

def scanPoint : List Char → Bool × List Char
  | '.' :: cp => (true, cp)
  | cp => (false, cp)

def digitOf (c : Char) : Int := (c.toNat - '0'.toNat : Nat)

/-- The loop over digits and the point: the digits, the weight and scale that they add to, and
what follows them. `none` is the exception for a second point. -/
def scanDigits : List Char → Bool → Int → Int → Option (List Int × Int × Int × List Char)
  | [], _, dweight, dscale => some ([], dweight, dscale, [])
  | c :: cp, haveDp, dweight, dscale =>
      if c.isDigit then do
        let (decdigits, dweight, dscale, rest) ←
          if haveDp then scanDigits cp haveDp dweight (dscale + 1)
          else scanDigits cp haveDp (dweight + 1) dscale
        return (digitOf c :: decdigits, dweight, dscale, rest)
      else if c = '.' then
        if haveDp then none else scanDigits cp true dweight dscale
      else some ([], dweight, dscale, c :: cp)

/-- `strtol`, without its cut at the limits of a `long`. `none` when there is no digit. -/
def strtol (cp : List Char) : Option (Int × List Char) :=
  let (sign, cp) := scanSign (cp.dropWhile isSpace)
  let digits := cp.takeWhile Char.isDigit
  if digits = [] then none
  else
    let value : Int := Nat.ofDigitChars 10 digits 0
    some (if sign = numericNeg then -value else value, cp.dropWhile Char.isDigit)

def scanExponent (dweight dscale : Int) : List Char → Option (Int × Int × List Char)
  | [] => some (dweight, dscale, [])
  | c :: cp =>
      if c = 'e' ∨ c = 'E' then do
        let (exponent, cp) ← strtol cp
        if exponent ≥ intMax.tdiv 2 ∨ exponent ≤ -intMax.tdiv 2 then none
        else return (dweight + exponent, max (dscale - exponent) 0, cp)
      else some (dweight, dscale, c :: cp)

def packDigits : Nat → List Int → List Int
  | 0, _ => []
  | ndigits + 1, decdigits =>
      (((decdigits.getD 0 0 * 10 + decdigits.getD 1 0) * 10 + decdigits.getD 2 0) * 10 +
          decdigits.getD 3 0) ::
        packDigits ndigits (decdigits.drop 4)

def weightOf (dweight : Int) : Int :=
  if dweight ≥ 0 then (dweight + 1 + decDigits - 1).tdiv decDigits - 1
  else -((-dweight - 1).tdiv decDigits + 1)

/-- `set_var_from_str`, with what follows the number; `none` is its exception. -/
def setVarFromStr (cp : List Char) : Option (Numeric × List Char) := do
  let (sign, cp) := scanSign cp
  let (haveDp, cp) := scanPoint cp
  if !(cp.headD '\x00').isDigit then none
  else
    let (decdigits, dweight, dscale, cp) ← scanDigits cp haveDp (-1) 0
    let (dweight, dscale, cp) ← scanExponent dweight dscale cp
    let weight := weightOf dweight
    let offset := (weight + 1) * decDigits - (dweight + 1)
    let ndigits := ((decdigits.length : Int) + offset + decDigits - 1).tdiv decDigits
    let digits := packDigits ndigits.toNat (List.replicate offset.toNat 0 ++ decdigits)
    return (stripVar { spare := 1, digits, weight, sign, dscale }, cp)

def cString (s : List Char) : List Char := s.takeWhile (· ≠ '\x00')

def startsNan (cp : List Char) : Bool := (cp.take 3).map Char.toLower = ['n', 'a', 'n']

/-- `numeric::numeric(const char*)`: the exceptions of the scan are caught before anything of
the number is stored; trailing characters are looked at after that. -/
def Numeric.ofText (s : List Char) : Numeric :=
  let cp := (cString s).dropWhile isSpace
  if startsNan cp then .nan
  else
    match setVarFromStr cp with
    | none => .nan
    | some (value, cp) => if cp.all isSpace then value else { value with sign := numericNan }

def digitChar (d : Int) : Char := Char.ofNat (d.toNat + '0'.toNat)

def fourDigits (dig : Int) : List Char :=
  let d1 := dig.tdiv 1000
  let dig := dig - d1 * 1000
  let d2 := dig.tdiv 100
  let dig := dig - d2 * 100
  let d3 := dig.tdiv 10
  [digitChar d1, digitChar d2, digitChar d3, digitChar (dig - d3 * 10)]

def firstDigits (dig : Int) : List Char :=
  (fourDigits dig).take 3 |>.dropWhile (· = '0') |>.append ((fourDigits dig).drop 3)

def wholeText (digits : List Int) (weight : Int) : List Char :=
  if weight < 0 then ['0']
  else firstDigits (Radix.digitAt digits 0) ++
    (List.range weight.toNat).flatMap fun d : Nat => fourDigits (Radix.digitAt digits (d + 1))

def fractionText (digits : List Int) (weight : Int) (dscale : Nat) : List Char :=
  ((List.range ((dscale + 3) / 4)).flatMap fun i : Nat =>
    fourDigits (Radix.digitAt digits (weight + 1 + i))).take dscale

/-- `get_str_from_var`, for a number that is well formed. -/
def Numeric.text (var : Numeric) : List Char :=
  (if var.sign = numericNeg then ['-'] else []) ++ (wholeText var.digits var.weight ++
    if var.dscale > 0 then '.' :: fractionText var.digits var.weight var.dscale.toNat else [])

def Numeric.cmp (var1 var2 : Numeric) : Int :=
  if var1.ndigits = 0 then
    if var2.ndigits = 0 then 0
    else if var2.sign = numericNeg then 1 else -1
  else if var2.ndigits = 0 then
    if var1.sign = numericPos then 1 else -1
  else if var1.sign = numericPos then
    if var2.sign = numericNeg then 1 else cmpAbs var1 var2
  else if var2.sign = numericPos then -1
  else cmpAbs var2 var1

namespace Numeric

def equal (this b : Numeric) : Bool := this.cmp b == 0

def notEqual (this b : Numeric) : Bool := this.cmp b != 0

end Numeric

end PqAsync
