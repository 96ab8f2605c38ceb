import PqAsync.WireCore

/-!
Executable model of `parameters_t`: the parameters that it owns, and the four arrays for libpq that
are built from them when one is asked for. The arrays of all objects are blocks of one heap, in
which a freed block keeps its place.
-/

namespace PqAsync

inductive Slot
  | null
  | live (param : Parameter)
  | deleted
  deriving DecidableEq, Repr

structure Arrays where
  types : List Nat
  values : List (Option (List UInt8))
  lengths : List Int
  formats : List Int
  freed : Bool
  deriving DecidableEq, Repr

def Arrays.ofParams (params : List Parameter) : Arrays :=
  { types := params.map fun param => param.oid
    values := params.map fun param => param.value
    lengths := params.map fun param => param.length
    formats := params.map fun param => param.format
    freed := false }

/-- An object: its list, and the block that `_p_types` and the other three pointers point to. -/
structure ParametersT where
  p : List Slot := []
  arrays : Option Nat := none
  deriving DecidableEq, Repr

structure Heap where
  blocks : List Arrays := []
  objects : List ParametersT := []
  faulted : Bool := false
  deriving DecidableEq, Repr

def liveParams : List Slot → Option (List Parameter)
  | [] => some []
  | .live param :: slots => (liveParams slots).map (param :: ·)
  | _ :: _ => none

inductive Arg
  | value (param : Except WireError Parameter)
  | nullptr
  deriving DecidableEq, Repr

/-- `new_parameter` of the argument, which may throw. -/
def Arg.newParameter : Arg → Except WireError Parameter
  | value param => param
  | nullptr => .ok (newNullParameter 0)

inductive Accessor
  | types
  | values
  | lengths
  | formats
  deriving DecidableEq, Repr

inductive ParametersEvent
  | construct (args : List Arg)
  | pushBackPointer (this : Nat) (p : Option Parameter)
  | pushBack (this : Nat) (args : List Arg)
  | replace (this pos : Nat) (value : Except WireError Parameter)
  | removeAt (this pos : Nat)
  | moveConstruct (b : Nat)
  | access (this : Nat) (accessor : Accessor)
  deriving DecidableEq, Repr

namespace Heap

def fault (heap : Heap) : Heap := { heap with faulted := true }

def place (heap : Heap) (i : Nat) (this : ParametersT) : Heap :=
  { heap with objects := heap.objects.set i this }

def free (heap : Heap) (block : Nat) : Heap :=
  match heap.blocks[block]? with
  | some arrays =>
      if arrays.freed then heap.fault
      else { heap with blocks := heap.blocks.set block { arrays with freed := true } }
  | none => heap.fault

/-- `cleanup`: the arrays are freed, and the pointers to them keep their values. -/
def cleanup (heap : Heap) (this : ParametersT) : Heap :=
  match this.arrays with
  | some block => heap.free block
  | none => heap

/-- `init`: the number of parameters is an `int`, and a failed allocation throws. -/
def init (heap : Heap) (i : Nat) (this : ParametersT) : Heap :=
  match this.arrays with
  | some _ => heap
  | none =>
      let np := toInt this.p.length
      if np < 0 then heap
      else
        match liveParams this.p with
        | some params =>
            if np = this.p.length then
              { heap.place i { this with arrays := some heap.blocks.length } with
                blocks := heap.blocks ++ [.ofParams params] }
            else heap.fault
        | none => heap.fault

def block (heap : Heap) (this : ParametersT) : Option Arrays := do
  let block ← this.arrays
  let arrays ← heap.blocks[block]?
  if arrays.freed then none else some arrays

/-- The arrays that the accessors of an object return, if they return and the arrays are there. -/
def returned (heap : Heap) (i : Nat) : Option Arrays := do
  let this ← heap.objects[i]?
  let heap := heap.init i this
  let this ← heap.objects[i]?
  if heap.faulted then none else heap.block this

def types (heap : Heap) (i : Nat) : Option (List Nat) := (heap.returned i).map fun a => a.types

def values (heap : Heap) (i : Nat) : Option (List (Option (List UInt8))) :=
  (heap.returned i).map fun a => a.values

def lengths (heap : Heap) (i : Nat) : Option (List Int) := (heap.returned i).map fun a => a.lengths

def formats (heap : Heap) (i : Nat) : Option (List Int) := (heap.returned i).map fun a => a.formats

/-- `push_back<SIZE>`: one argument after the other; what was pushed before a throw stays. -/
def pushArgs : List Arg → Heap → ParametersT → Heap × ParametersT × Bool
  | [], heap, this => (heap, this, true)
  | arg :: args, heap, this =>
      match arg.newParameter with
      | .error _ => (heap.cleanup this, this, false)
      | .ok param =>
          pushArgs args (heap.cleanup this) { this with p := this.p ++ [.live param] }

def construct (heap : Heap) (args : List Arg) : Heap :=
  let (heap, this, completed) := pushArgs args heap {}
  if completed then { heap with objects := heap.objects ++ [this] } else heap

def pushBackPointer (heap : Heap) (i : Nat) (this : ParametersT) (p : Option Parameter) : Heap :=
  (heap.cleanup this).place i { this with p := this.p ++ [p.elim .null .live] }

def pushBack (heap : Heap) (i : Nat) (this : ParametersT) (args : List Arg) : Heap :=
  let (heap, this, _) := pushArgs args heap this
  heap.place i this

def replace (heap : Heap) (i : Nat) (this : ParametersT) (pos : Nat)
    (value : Except WireError Parameter) : Heap :=
  if pos ≥ this.p.length then heap
  else
    let heap := heap.cleanup this
    if this.p[pos]? = some .deleted then heap.fault
    else
      let slot := match value with
        | .ok param => .live param
        | .error _ => .deleted
      heap.place i { this with p := this.p.set pos slot }

def removeAt (heap : Heap) (i : Nat) (this : ParametersT) (pos : Nat) : Heap :=
  if pos ≥ this.p.length then heap else heap.place i { this with p := this.p.eraseIdx pos }

def moveConstruct (heap : Heap) (i : Nat) (b : ParametersT) : Heap :=
  let heap := heap.place i { b with p := [] }
  { heap with objects := heap.objects ++ [b] }

def on (heap : Heap) (i : Nat) (call : ParametersT → Heap) : Heap :=
  match heap.objects[i]? with
  | some this => call this
  | none => heap

def apply (heap : Heap) : ParametersEvent → Heap
  | .construct args => heap.construct args
  | .pushBackPointer i p => heap.on i fun this => heap.pushBackPointer i this p
  | .pushBack i args => heap.on i fun this => heap.pushBack i this args
  | .replace i pos value => heap.on i fun this => heap.replace i this pos value
  | .removeAt i pos => heap.on i fun this => heap.removeAt i this pos
  | .moveConstruct i => heap.on i fun b => heap.moveConstruct i b
  | .access i _ => heap.on i fun this => heap.init i this

end Heap

end PqAsync
