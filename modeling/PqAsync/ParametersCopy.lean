import PqAsync.Library.Runs
import PqAsync.ParametersCore
import Mathlib.Tactic.FinCases

/-!
Copies and assignments of parameters over runs: exactly which assignments leave the list of the
right side in the left one.
-/

namespace PqAsync

/-- The length that a parameter was made with is the one of its value. -/
def Parameter.Sized (param : Parameter) : Prop :=
  ∀ bytes ∈ param.value, param.length = bytes.length

/-- The parameter that `copy_from` makes; a length that the value does not have is read beyond it. -/
def Parameter.copied (param : Parameter) : Option Parameter :=
  match param.value with
  | none => some param
  | some bytes =>
      if 0 ≤ param.length ∧ param.length ≤ bytes.length then
        some { param with value := some (bytes.take param.length.toNat) }
      else none

inductive CopyEvent
  | construct (b : Nat)
  | assign (a b : Nat)
  deriving DecidableEq, Repr

namespace Heap

def pushSlots (heap : Heap) (i : Nat) (slots : List Slot) : Heap :=
  { heap with objects := heap.objects.modify i fun this => { this with p := this.p ++ slots } }

def slotAt (heap : Heap) (i pos : Nat) : Option Slot :=
  heap.objects[i]?.bind fun this => this.p[pos]?

/-- `copy_from`, from position `pos` on; the size of `b` is asked for in every iteration. -/
def copyFrom (a b : Nat) : Nat → Nat → Heap → Option Heap
  | 0, _, _ => none
  | fuel + 1, pos, heap =>
      match heap.slotAt b pos with
      | none => some heap
      | some (.live param) =>
          match param.copied with
          | some copy => copyFrom a b fuel (pos + 1) (heap.pushSlots a [.live copy])
          | none => some heap.fault
      | some _ => some heap.fault

/-- The copy constructor and the copy assignment of objects that there are. -/
def copy (fuel : Nat) (heap : Heap) : CopyEvent → Option Heap
  | .construct b =>
      if b < heap.objects.length then
        copyFrom heap.objects.length b fuel 0 { heap with objects := heap.objects ++ [{}] }
      else some heap
  | .assign a b =>
      if a < heap.objects.length ∧ b < heap.objects.length then copyFrom a b fuel 0 heap
      else some heap

def Returns (heap : Heap) (event : CopyEvent) (next : Heap) : Prop :=
  ∃ fuel, heap.copy fuel event = some next

/-- No memory was misused, and the objects have these lists. -/
structure Holds (heap : Heap) (lists : List (List Parameter)) : Prop where
  sane : heap.faulted = false
  objects : heap.objects.map (fun this => this.p) = lists.map fun list => list.map .live

end Heap

/-- What a copy has to do: the new object, or the left one, has the list of the right one. -/
def copyLists (lists : List (List Parameter)) : CopyEvent → List (List Parameter)
  | .construct b => lists ++ lists[b]?.toList
  | .assign a b => lists[b]?.elim lists (lists.set a)

/-- Each call of the run returns, and leaves the lists that it has to. -/
def Heap.Replaces : Heap → List (List Parameter) → List CopyEvent → Prop
  | heap, lists, [] => heap.Holds lists
  | heap, lists, event :: events =>
      heap.Holds lists ∧
        ∃ next, heap.Returns event next ∧ next.Replaces (copyLists lists event) events

/-- An assignment between objects that there are is to one without parameters. -/
def TargetEmpty (lists : List (List Parameter)) : CopyEvent → Prop
  | .construct _ => True
  | .assign a b => b < lists.length → lists[a]?.getD [] = []

instance (lists : List (List Parameter)) : DecidablePred (TargetEmpty lists)
  | .construct _ => inferInstanceAs (Decidable True)
  | .assign a b => inferInstanceAs (Decidable (b < lists.length → lists[a]?.getD [] = []))

theorem Parameter.copied_sized {param : Parameter} (sized : param.Sized) :
    param.copied = some param := by
  obtain ⟨oid, value, length, format⟩ := param
  cases value with
  | none => rfl
  | some bytes =>
      have same : length = bytes.length := sized bytes rfl
      subst same
      rw [copied]
      dsimp only
      rw [if_pos ⟨by omega, le_rfl⟩, Int.toNat_natCast, List.take_length]

namespace Heap

variable {heap next : Heap} {a b : Nat} {lists : List (List Parameter)}

@[simp] theorem pushSlots_faulted (i : Nat) (slots : List Slot) :
    (heap.pushSlots i slots).faulted = heap.faulted := rfl

@[simp] theorem pushSlots_length (i : Nat) (slots : List Slot) :
    (heap.pushSlots i slots).objects.length = heap.objects.length :=
  List.length_modify ..

theorem pushSlots_nil (i : Nat) : heap.pushSlots i [] = heap := by
  have same : (fun this : ParametersT => { this with p := this.p ++ [] }) = id := by
    funext this
    rw [List.append_nil]
    rfl
  rw [pushSlots, same, List.modify_id]

theorem pushSlots_append (i : Nat) (front back : List Slot) :
    (heap.pushSlots i front).pushSlots i back = heap.pushSlots i (front ++ back) := by
  simp only [pushSlots, List.modify_modify_eq, Function.comp_def, List.append_assoc]

theorem slotAt_eq {this : ParametersT} {params : List Parameter} {pos : Nat}
    (here : heap.objects[b]? = some this) (list : this.p = params.map .live) :
    heap.slotAt b pos = params[pos]?.map .live := by
  rw [slotAt, here, Option.bind_some, list, List.getElem?_map]

theorem copyFrom_other {this : ParametersT} {front rest : List Parameter} (apart : a ≠ b)
    (here : heap.objects[b]? = some this) (list : this.p = (front ++ rest).map .live)
    (sized : ∀ param ∈ rest, param.Sized) (fuel : Nat) :
    copyFrom a b fuel front.length heap =
      if rest.length < fuel then some (heap.pushSlots a (rest.map .live)) else none := by
  induction fuel generalizing heap front rest with
  | zero => rfl
  | succ fuel ih =>
      rw [copyFrom, slotAt_eq here list]
      cases rest with
      | nil =>
          rw [List.append_nil, List.getElem?_length, Option.map_none, if_pos (by simp),
            List.map_nil, pushSlots_nil]
      | cons param rest =>
          have kept : (heap.pushSlots a [.live param]).objects[b]? = some this := by
            exact (List.getElem?_modify_ne _ _ apart).trans here
          have moved : this.p = ((front ++ [param]) ++ rest).map .live := by
            rw [list, List.append_assoc]
            rfl
          have later := ih kept moved fun other member => sized other (.tail _ member)
          rw [List.length_append, List.length_singleton] at later
          rw [List.getElem?_append_right le_rfl, Nat.sub_self, List.getElem?_cons_zero]
          dsimp only [Option.map_some]
          rw [Parameter.copied_sized (sized param (.head _))]
          dsimp only
          rw [later, pushSlots_append, List.length_cons]
          simp only [Nat.add_lt_add_iff_right]
          rfl

theorem copyFrom_start {this : ParametersT} {params : List Parameter} (apart : a ≠ b)
    (here : heap.objects[b]? = some this) (list : this.p = params.map .live)
    (sized : ∀ param ∈ params, param.Sized) (fuel : Nat) :
    copyFrom a b fuel 0 heap =
      if params.length < fuel then some (heap.pushSlots a (params.map .live)) else none :=
  @copyFrom_other heap a b this [] params apart here list sized fuel

theorem copyFrom_self {this : ParametersT} {params : List Parameter}
    (here : heap.objects[b]? = some this) (list : this.p = params.map .live)
    (sized : ∀ param ∈ params, param.Sized) {pos : Nat} (more : pos < params.length) (fuel : Nat) :
    copyFrom b b fuel pos heap = none := by
  induction fuel generalizing heap this params pos with
  | zero => rfl
  | succ fuel ih =>
      rw [copyFrom, slotAt_eq here list, List.getElem?_eq_getElem more]
      dsimp only [Option.map_some]
      have own := sized _ (List.getElem_mem more)
      rw [Parameter.copied_sized own]
      refine @ih _ { this with p := this.p ++ [.live params[pos]] } (params ++ [params[pos]])
        ?_ ?_ ?_ _ ?_
      · rw [pushSlots, List.getElem?_modify_eq, here]
        rfl
      · rw [list, List.map_append]
        rfl
      · intro param member
        rcases List.mem_append.mp member with old | new
        · exact sized param old
        · rw [List.mem_singleton.mp new]
          exact own
      · rw [List.length_append, List.length_singleton]
        omega

theorem Replaces.holds {events : List CopyEvent} (replaces : heap.Replaces lists events) :
    heap.Holds lists := by
  cases events with
  | nil => exact replaces
  | cons event events => exact replaces.1

theorem sized_copyLists (sized : ∀ list ∈ lists, ∀ param ∈ list, param.Sized) (event : CopyEvent) :
    ∀ list ∈ copyLists lists event, ∀ param ∈ list, param.Sized := by
  intro list member
  cases event with
  | construct b =>
      rcases List.mem_append.mp member with old | new
      · exact sized list old
      · exact sized list (List.mem_of_getElem? (Option.mem_toList.mp new))
  | assign a b =>
      rw [copyLists] at member
      cases right : lists[b]? with
      | none =>
          rw [right] at member
          exact sized list member
      | some source =>
          rw [right] at member
          rcases List.mem_or_eq_of_mem_set member with old | rfl
          · exact sized list old
          · exact sized list (List.mem_of_getElem? right)

theorem Holds.unique {others : List (List Parameter)} (holds : heap.Holds lists)
    (also : heap.Holds others) : lists = others := by
  have live : Function.Injective Slot.live := fun _ _ same => Slot.live.inj same
  exact List.map_injective_iff.mpr (List.map_injective_iff.mpr live)
    (holds.objects.symm.trans also.objects)

theorem set_eq_self {list : List Parameter} (here : lists[b]? = some list) :
    lists.set b list = lists := by
  obtain ⟨inside, rfl⟩ := List.getElem?_eq_some_iff.mp here
  exact List.set_getElem_self inside

namespace Holds

variable (holds : heap.Holds lists)

include holds

theorem length : heap.objects.length = lists.length := by
  have lengths := congrArg List.length holds.objects
  rwa [List.length_map, List.length_map] at lengths

theorem object {list : List Parameter} (here : lists[b]? = some list) :
    ∃ this, heap.objects[b]? = some this ∧ this.p = list.map .live := by
  have mapped := congrArg (fun slots => slots[b]?) holds.objects
  rw [List.getElem?_map, List.getElem?_map, here] at mapped
  exact Option.map_eq_some_iff.mp mapped

theorem pushSlots {target : List Parameter} (here : lists[a]? = some target) (list : List Parameter) :
    (heap.pushSlots a (list.map .live)).Holds (lists.set a (target ++ list)) := by
  refine ⟨holds.sane, ?_⟩
  have inside : a < lists.length := (List.getElem?_eq_some_iff.mp here).1
  rw [Heap.pushSlots, List.map_set, List.map_append]
  apply List.ext_getElem?
  intro pos
  have old := congrArg (fun slots => slots[pos]?) holds.objects
  rw [List.getElem?_map, List.getElem?_map] at old
  rw [List.getElem?_map, List.getElem?_modify, List.getElem?_set, List.length_map]
  by_cases same : a = pos
  · subst same
    rw [if_pos rfl, if_pos inside]
    rw [here] at old
    obtain ⟨this, found, list⟩ := Option.map_eq_some_iff.mp old
    simp only [found, Option.map_eq_map, Option.map_some, if_true, list]
  · simp only [same, if_false, List.getElem?_map, Option.map_eq_map, Option.map_id', old]

theorem construct : ({ heap with objects := heap.objects ++ [{}] } : Heap).Holds (lists ++ [[]]) := by
  refine ⟨holds.sane, ?_⟩
  rw [List.map_append, List.map_append, holds.objects]
  rfl

theorem returns_construct (sized : ∀ list ∈ lists, ∀ param ∈ list, param.Sized) :
    ∃ next, heap.Returns (.construct b) next ∧ next.Holds (copyLists lists (.construct b)) := by
  have length := holds.length
  cases here : lists[b]? with
  | none =>
      have outside := List.getElem?_eq_none_iff.mp here
      refine ⟨heap, ⟨0, if_neg (by omega)⟩, ?_⟩
      rw [copyLists, here, Option.toList_none, List.append_nil]
      exact holds
  | some list =>
      have inside := (List.getElem?_eq_some_iff.mp here).1
      obtain ⟨this, found, slots⟩ := holds.object here
      have kept : ({ heap with objects := heap.objects ++ [{}] } : Heap).objects[b]? = some this :=
        (List.getElem?_append_left (by omega)).trans found
      have copied := copyFrom_start (show heap.objects.length ≠ b by omega) kept slots
        (sized _ (List.mem_of_getElem? here)) (list.length + 1)
      rw [if_pos (Nat.lt_succ_self _)] at copied
      have made : (lists ++ [[]])[heap.objects.length]? = some [] := by
        rw [length, List.getElem?_concat_length]
      have result := holds.construct.pushSlots made list
      rw [List.nil_append, List.set_append_right _ _ length.ge, length, Nat.sub_self] at result
      refine ⟨_, ⟨_, (if_pos (by omega)).trans copied⟩, ?_⟩
      rw [copyLists, here, length]
      exact result

theorem returns_assign_iff (sized : ∀ list ∈ lists, ∀ param ∈ list, param.Sized)
    {target list : List Parameter} (left : lists[a]? = some target) (right : lists[b]? = some list) :
    (∃ next, heap.Returns (.assign a b) next ∧ next.Holds (lists.set a list)) ↔ target = [] := by
  have length := holds.length
  have insideA := (List.getElem?_eq_some_iff.mp left).1
  have insideB := (List.getElem?_eq_some_iff.mp right).1
  have called (fuel : Nat) : heap.copy fuel (.assign a b) = copyFrom a b fuel 0 heap :=
    if_pos ⟨length ▸ insideA, length ▸ insideB⟩
  obtain ⟨this, found, slots⟩ := holds.object right
  have all := sized _ (List.mem_of_getElem? right)
  by_cases apart : a = b
  · subst apart
    rw [left] at right
    cases right
    constructor
    · rintro ⟨next, ⟨fuel, returned⟩, _⟩
      by_contra some
      rw [called, copyFrom_self found slots all (List.length_pos_iff.mpr some)] at returned
      contradiction
    · rintro rfl
      refine ⟨heap, ⟨1, ?_⟩, ?_⟩
      · rw [called, copyFrom, slotAt_eq found slots]
        rfl
      · rw [set_eq_self left]
        exact holds
  · have copied (fuel : Nat) : heap.copy fuel (.assign a b) = _ :=
      (called fuel).trans (copyFrom_start apart found slots all fuel)
    have result := holds.pushSlots left list
    constructor
    · rintro ⟨next, ⟨fuel, returned⟩, after⟩
      rw [copied] at returned
      split at returned
      · cases returned
        have same := congrArg (fun lists => lists[a]?) (after.unique result)
        rw [List.getElem?_set_self insideA, List.getElem?_set_self insideA] at same
        exact List.self_eq_append_left.mp (Option.some.inj same)
      · contradiction
    · rintro rfl
      refine ⟨_, ⟨list.length + 1, ?_⟩, result⟩
      rw [copied, if_pos (Nat.lt_succ_self _)]

theorem returns_iff (sized : ∀ list ∈ lists, ∀ param ∈ list, param.Sized) (event : CopyEvent) :
    (∃ next, heap.Returns event next ∧ next.Holds (copyLists lists event)) ↔
      TargetEmpty lists event := by
  cases event with
  | construct b => exact iff_of_true (holds.returns_construct sized) trivial
  | assign a b =>
      have length := holds.length
      have absent (outside : ¬(a < heap.objects.length ∧ b < heap.objects.length))
          (same : copyLists lists (.assign a b) = lists) :
          ∃ next, heap.Returns (.assign a b) next ∧
            next.Holds (copyLists lists (.assign a b)) :=
        ⟨heap, ⟨0, if_neg outside⟩, same.symm ▸ holds⟩
      cases right : lists[b]? with
      | none =>
          have outside := List.getElem?_eq_none_iff.mp right
          refine iff_of_true (absent (by omega) ?_) fun inside => ?_
          · rw [copyLists, right]
            rfl
          · omega
      | some list =>
          have inside := (List.getElem?_eq_some_iff.mp right).1
          cases left : lists[a]? with
          | none =>
              have outside := List.getElem?_eq_none_iff.mp left
              refine iff_of_true (absent (by omega) ?_) fun _ => ?_
              · rw [copyLists, right]
                exact List.set_eq_of_length_le outside
              · rw [left]
                rfl
          | some target =>
              have exactly := holds.returns_assign_iff sized left right
              rw [copyLists, right, TargetEmpty, left, forall_prop_of_true inside]
              exact exactly

end Holds

/-- A run of copies and assignments leaves the lists that it has to, call after call, exactly if
every assignment is to an object without parameters. -/
theorem replaces_iff (holds : heap.Holds lists)
    (sized : ∀ list ∈ lists, ∀ param ∈ list, param.Sized) (events : List CopyEvent) :
    heap.Replaces lists events ↔ Runs.Meets copyLists TargetEmpty lists events := by
  induction events generalizing heap lists with
  | nil => exact iff_of_true holds trivial
  | cons event events ih =>
      rw [Replaces, Runs.Meets_cons, ← holds.returns_iff sized event]
      have later := sized_copyLists sized event
      constructor
      · rintro ⟨_, next, returned, replaces⟩
        have after := replaces.holds
        exact ⟨⟨next, returned, after⟩, (ih after later).mp replaces⟩
      · rintro ⟨⟨next, returned, after⟩, meets⟩
        exact ⟨holds, next, returned, (ih after later).mpr meets⟩

/-- Two objects with one parameter each, and one without parameters. -/
def int4Lists : List (List Parameter) :=
  [[.binary 23 [0, 0, 0, 1]], [.binary 23 [0, 0, 0, 2]], []]

def int4Objects : Heap := { objects := int4Lists.map fun list => { p := list.map .live } }

theorem int4Objects_holds : int4Objects.Holds int4Lists := ⟨rfl, rfl⟩

theorem int4Lists_sized : ∀ list ∈ int4Lists, ∀ param ∈ list, param.Sized := by
  intro list inLists param inList bytes value
  fin_cases inLists
  · rw [List.mem_singleton.mp inList] at value ⊢
    cases value
    rfl
  · rw [List.mem_singleton.mp inList] at value ⊢
    cases value
    rfl
  · exact absurd inList List.not_mem_nil

theorem replaces_into_empty : int4Objects.Replaces int4Lists [.assign 2 0, .construct 2] :=
  (replaces_iff int4Objects_holds int4Lists_sized _).mpr (by decide)

theorem replaces_fails :
    ¬int4Objects.Replaces int4Lists [.assign 0 1] ∧
      ¬int4Objects.Replaces int4Lists [.assign 0 0] := by
  constructor
  · rintro ⟨holds, next, returned, after⟩
    exact absurd ((holds.returns_iff int4Lists_sized _).mp ⟨next, returned, after⟩) (by decide)
  · rintro ⟨holds, next, returned, after⟩
    exact absurd ((holds.returns_iff int4Lists_sized _).mp ⟨next, returned, after⟩) (by decide)

end Heap

end PqAsync
