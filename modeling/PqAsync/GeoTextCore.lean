import PqAsync.SplitCore
import PqAsync.WireCore

/-!
Executable model of the texts of the geometric types. The conversions between coordinates and
texts are parameters.
-/

namespace PqAsync

variable {D : Type}

structure PointOf (D : Type) where
  x : D
  y : D
  deriving DecidableEq, Repr

structure LineOf (D : Type) where
  a : D
  b : D
  c : D
  deriving DecidableEq, Repr

structure LsegOf (D : Type) where
  a : PointOf D
  b : PointOf D
  deriving DecidableEq, Repr

structure BoxOf (D : Type) where
  high : PointOf D
  low : PointOf D
  deriving DecidableEq, Repr

structure PathOf (D : Type) where
  closed : Bool
  points : List (PointOf D)
  deriving DecidableEq, Repr

structure CircleOf (D : Type) where
  center : PointOf D
  radius : D
  deriving DecidableEq, Repr

section Printers

variable (numToStr : D → List Char)

def PointOf.text (value : PointOf D) : List Char :=
  '(' :: (numToStr value.x ++ ',' :: (numToStr value.y ++ [')']))

def LineOf.text (value : LineOf D) : List Char :=
  '{' :: (numToStr value.a ++ ',' :: (numToStr value.b ++ ',' :: (numToStr value.c ++ ['}'])))

def LsegOf.text (value : LsegOf D) : List Char :=
  '[' :: (PointOf.text numToStr value.a ++ ',' :: (PointOf.text numToStr value.b ++ [']']))

def BoxOf.text (value : BoxOf D) : List Char :=
  PointOf.text numToStr value.high ++ ',' :: PointOf.text numToStr value.low

def pointsText : List (PointOf D) → List Char
  | [] => []
  | [point] => PointOf.text numToStr point
  | point :: next :: points => PointOf.text numToStr point ++ ',' :: pointsText (next :: points)

def PathOf.text (value : PathOf D) : List Char :=
  (if value.closed then '(' else '[') ::
    (pointsText numToStr value.points ++ [if value.closed then ')' else ']'])

def polygonText (points : List (PointOf D)) : List Char :=
  '(' :: (pointsText numToStr points ++ [')'])

def CircleOf.text (value : CircleOf D) : List Char :=
  '<' :: (PointOf.text numToStr value.center ++ ',' :: (numToStr value.radius ++ ['>']))

end Printers

section Parsers

def isNumberChar (c : Char) : Bool := c.isDigit ∨ c = '.' ∨ c = '-'

/-- What the loops over a text collect while `idx`, the number of commas so far, is `wanted`. -/
def numberChars (wanted : Nat) : Nat → List Char → List Char
  | _, [] => []
  | idx, c :: s =>
      if isNumberChar c then
        if idx = wanted then c :: numberChars wanted idx s else numberChars wanted idx s
      else if c = ',' then numberChars wanted (idx + 1) s
      else numberChars wanted idx s

/-- `s.find(',', pos)`. -/
def findComma (s : List Char) (pos : Nat) : Option Nat :=
  ((s.drop pos).findIdx? (· = ',')).map (pos + ·)

def secondComma (s : List Char) : Option Nat :=
  (findComma s 0).bind fun cp => findComma s (cp + 1)

def invalidGeometry (type : String) : WireError :=
  .exception ("Invalid input for type " ++ type)

-- `md::str_to_num`, which throws where there is no number
variable (strToNum : List Char → Except WireError D)

def PointOf.ofText (str : List Char) : Except WireError (PointOf D) := do
  let s := trim str
  let sx := numberChars 0 0 s
  let sy := numberChars 1 0 s
  if sx.length = 0 ∨ sy.length = 0 then throw (invalidGeometry "point")
  else return { x := ← strToNum sx, y := ← strToNum sy }

/-- The points on both sides of the second comma. What is cut off for the first one has the length
of the text behind that comma. -/
def cutPoints (s : List Char) : Except WireError (PointOf D × PointOf D) :=
  match secondComma s with
  | none => throw .outOfBounds
  | some cp => do
      let first ← PointOf.ofText strToNum (s.take (s.length - cp))
      let second ← PointOf.ofText strToNum (s.drop (cp + 1))
      return (first, second)

def twoPoints (type : String) (str : List Char) : Except WireError (PointOf D × PointOf D) :=
  let s := trim str
  if s.count ',' ≠ 3 then throw (invalidGeometry type) else cutPoints strToNum s

def LsegOf.ofText (str : List Char) : Except WireError (LsegOf D) := do
  let (a, b) ← twoPoints strToNum "lseg" str
  return { a, b }

def BoxOf.ofText (str : List Char) : Except WireError (BoxOf D) := do
  let (high, low) ← twoPoints strToNum "box" str
  return { high, low }

/-- With three commas the text is that of two points, of which `through` makes the line. -/
def LineOf.ofText (through : PointOf D → PointOf D → LineOf D) (str : List Char) :
    Except WireError (LineOf D) := do
  let s := trim str
  if s.count ',' ≠ 1 ∧ s.count ',' ≠ 3 then throw (invalidGeometry "line")
  else if s.count ',' = 3 then do
    let (a, b) ← cutPoints strToNum s
    return through a b
  else
    let sa := numberChars 0 0 s
    let sb := numberChars 1 0 s
    let sc := numberChars 2 0 s
    if sa.length = 0 ∨ sb.length = 0 ∨ sc.length = 0 then throw (invalidGeometry "line")
    else return { a := ← strToNum sa, b := ← strToNum sb, c := ← strToNum sc }

def CircleOf.ofText (str : List Char) : Except WireError (CircleOf D) := do
  let s := trim str
  if s.count ',' ≠ 2 then throw (invalidGeometry "circle")
  else match secondComma s with
    | none => throw .outOfBounds
    | some cp =>
        let center ← PointOf.ofText strToNum (s.take (s.length - cp))
        let sr := (s.drop (cp + 1)).filter isNumberChar
        if sr.length = 0 then throw (invalidGeometry "circle")
        else return { center, radius := ← strToNum sr }

/-- The loop of `path` and `polygon`, in which `finish` is the position of the last comma that was
passed; without fuel there is no result. -/
def pointsLoop (s : List Char) : Nat → Nat → List (PointOf D) →
    Option (Except WireError (List (PointOf D)))
  | 0, _, _ => none
  | fuel + 1, finish, points =>
      let start := finish + 1
      match findComma s start with
      | none => some (.ok points)
      | some comma =>
          let finish := (findComma s (comma + 1)).getD s.length
          match PointOf.ofText strToNum ((s.drop start).take (finish - start)) with
          | .error invalid => some (.error invalid)
          | .ok point =>
              if finish = s.length then some (.ok (points ++ [point]))
              else pointsLoop s fuel finish (points ++ [point])

def PathOf.ofText (fuel : Nat) (str : List Char) : Option (Except WireError (PathOf D)) :=
  let s := trim str
  let closed := s.head? = some '('
  if s.count ',' % 2 = 0 then some (.error (invalidGeometry "path"))
  else (pointsLoop strToNum s fuel 0 []).map fun points =>
    points.map fun points => { closed, points }

/-- The points of a polygon; its text does not have the bounding box. -/
def polygonOfText (fuel : Nat) (str : List Char) : Option (Except WireError (List (PointOf D))) :=
  let s := trim str
  if s.count ',' % 2 = 0 then some (.error (invalidGeometry "polygon"))
  else pointsLoop strToNum (' ' :: s) fuel 0 []

end Parsers

end PqAsync
