import PqAsync.RangeCore

/-!
Executable model of what a range does in memory: the edits of its bounds, and its iterators.
-/

namespace PqAsync

structure BoundFlags where
  inc : BitVec 32
  inf : BitVec 32
  null : BitVec 32

def lowerFlags : BoundFlags := { inc := 0x02, inf := 0x08, null := 0x20 }

def upperFlags : BoundFlags := { inc := 0x04, inf := 0x10, null := 0x40 }

namespace BoundFlags

variable (own other : BoundFlags) (flags : BitVec 32)

def has : Bool := flags &&& (0x01 ||| own.null ||| own.inf) == 0

def inclusion (ri : RangeInclusion) : BitVec 32 :=
  let flags := flags &&& ~~~own.inc
  if ri = .inclusive then flags ||| own.inc else flags

def clear : BitVec 32 :=
  if !own.has flags then flags
  else
    let flags := flags &&& ~~~(own.inc ||| own.null ||| 0x01 ||| 0x80)
    let flags := flags ||| own.inf
    if !other.has flags then flags ||| 0x01 else flags ||| 0x80

/-- The inclusion is looked at only for a bound that is not there. -/
def bound (ri : RangeInclusion) : BitVec 32 :=
  if !own.has flags then
    let flags := flags &&& ~~~(own.inf ||| own.null ||| 0x01 ||| 0x80)
    let flags := if ri = .inclusive then flags ||| own.inc else flags
    if !other.has flags then flags ||| 0x80 else flags
  else flags

end BoundFlags

abbrev Int4range := BoundRange (BitVec 32)

abbrev Int8range := BoundRange (BitVec 64)

namespace BoundRange

section

variable {α : Type}

def ofBounds (lb ub : α) : BoundRange α := { flags := 0x02, lb, ub }

def lbound (this : BoundRange α) : Except WireError α :=
  if !this.hasLbound then .error (.exception "lbound is unbounded") else .ok this.lb

def ubound (this : BoundRange α) : Except WireError α :=
  if !this.hasUbound then .error (.exception "ubound is unbounded") else .ok this.ub

def setLboundInclusion (this : BoundRange α) (ri : RangeInclusion) : BoundRange α :=
  { this with flags := lowerFlags.inclusion this.flags ri }

def setUboundInclusion (this : BoundRange α) (ri : RangeInclusion) : BoundRange α :=
  { this with flags := upperFlags.inclusion this.flags ri }

def clearLbound (this : BoundRange α) : BoundRange α :=
  { this with flags := lowerFlags.clear upperFlags this.flags }

def clearUbound (this : BoundRange α) : BoundRange α :=
  { this with flags := upperFlags.clear lowerFlags this.flags }

def setLbound (this : BoundRange α) (val : α) (ri : RangeInclusion := .inclusive) : BoundRange α :=
  { this with flags := lowerFlags.bound upperFlags this.flags ri, lb := val }

def setUbound (this : BoundRange α) (val : α) (ri : RangeInclusion := .exclusive) : BoundRange α :=
  { this with flags := upperFlags.bound lowerFlags this.flags ri, ub := val }

end

section

variable {w : Nat}

def lboundAbs (this : BoundRange (BitVec w)) : Except WireError (BitVec w) :=
  if !this.hasLbound then .error (.exception "lbound is unbounded")
  else if this.lboundInclusion = .inclusive then .ok this.lb
  else checkedInt w (this.lb.toInt + 1)

def uboundAbs (this : BoundRange (BitVec w)) : Except WireError (BitVec w) :=
  if !this.hasUbound then .error (.exception "ubound is unbounded")
  else if this.uboundInclusion = .inclusive then .ok this.ub
  else checkedInt w (this.ub.toInt - 1)

def beginValue (this : BoundRange (BitVec w)) : Except WireError (BitVec w) := this.lboundAbs

def endValue (this : BoundRange (BitVec w)) : Except WireError (BitVec w) := do
  let last ← this.uboundAbs
  checkedInt w (last.toInt + 1)

/-- `operator++` of an iterator of the range. -/
def increment (this : BoundRange (BitVec w)) (v : BitVec w) : Except WireError (BitVec w) := do
  if this.hasUbound then
    let stop ← this.endValue
    if v = stop then throw (.exception "Out of bounds iterator increment!")
  checkedInt w (v.toInt + 1)

/-- A loop from the iterator at `v` to the one at `stop`, with the values that it visits; `none`
when the loop has not ended within the number of rounds. -/
def visitFrom (this : BoundRange (BitVec w)) (stop : BitVec w) :
    Nat → BitVec w → Option (Except WireError (List (BitVec w)))
  | 0, _ => none
  | rounds + 1, v =>
      if v = stop then some (.ok [])
      else
        match this.increment v with
        | .error failure => some (.error failure)
        | .ok next => (visitFrom this stop rounds next).map fun visited => visited.map (v :: ·)

/-- `for (auto v : range)`. -/
def visit (this : BoundRange (BitVec w)) (rounds : Nat) :
    Option (Except WireError (List (BitVec w))) :=
  match this.beginValue, this.endValue with
  | .ok first, .ok stop => this.visitFrom stop rounds first
  | .error failure, _ => some (.error failure)
  | _, .error failure => some (.error failure)

end

end BoundRange

end PqAsync
