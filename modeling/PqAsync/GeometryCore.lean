import Mathlib.Data.Rat.Defs
import Mathlib.Algebra.Order.Ring.Unbundled.Rat
import PqAsync.GeoTextCore
import PqAsync.Library.ThreeWay

/-!
Executable model of the arithmetic of points, lines and segments, with exact coordinates.
-/

namespace PqAsync

open ThreeWay

/-- A quotient by zero is infinite or not a number, which is `none`. -/
def quotient (n d : ℚ) : Option ℚ := if d = 0 then none else some (n / d)

/-- No comparison with what is not a number holds, and what is infinite is not below one or
not above zero. -/
def inUnit : Option ℚ → Bool
  | some value => 0 ≤ value && value ≤ 1
  | none => false

namespace PointOf

def sub (this b : PointOf ℚ) : PointOf ℚ := { x := this.x - b.x, y := this.y - b.y }

def cross (a b : PointOf ℚ) : ℚ := a.x * b.x - a.y * b.y

def cmp (a b : PointOf ℚ) : Int :=
  if a.x = b.x ∧ a.y = b.y then 0
  else
    let av := a.x * a.x + a.y * a.y
    let bv := b.x * b.x + b.y * b.y
    if av = bv then 0 else if av < bv then -1 else 1

def operators : Operators (PointOf ℚ) := .ofCmp cmp

end PointOf

def LsegOf.intersect (a b : LsegOf ℚ) : Bool :=
  let p := a.a
  let r := a.b.sub a.a
  let q := b.a
  let s := b.b.sub b.a
  let t := quotient ((q.sub p).cross s) (r.cross s)
  let u := quotient ((q.sub p).cross r) (r.cross s)
  inUnit t && inUnit u

namespace LineOf

def unsigned (value : Option ℚ) : Option ℚ := if value = some (-0) then some 0 else value

def ofPoints (p q : PointOf ℚ) : LineOf (Option ℚ) :=
  let x1 := p.x
  let y1 := p.y
  let x2 := q.x
  let y2 := q.y
  let m := quotient (y2 - y1) (x2 - x1)
  let i := m.map fun m => y1 - m * x1
  let a := m
  let c := i
  let b := do quotient ((← m) * x1 + (← c)) (-y1)
  { a := unsigned a, b := unsigned b, c := unsigned c }

def pointFromX (this : LineOf (Option ℚ)) (x : ℚ) : PointOf (Option ℚ) :=
  if this.a = some 0 ∧ this.b = some (-1) then { x := some x, y := this.c }
  else
    let y := do quotient (-((← this.a) * x) - (← this.c)) (← this.b)
    { x := some x, y }

def pointFromY (this : LineOf (Option ℚ)) (y : ℚ) : PointOf (Option ℚ) :=
  if this.a = some (-1) ∧ this.b = some 0 then { x := this.c, y := some y }
  else
    let x := do quotient (-((← this.b) * y) - (← this.c)) (← this.a)
    { x, y := some y }

end LineOf

end PqAsync
