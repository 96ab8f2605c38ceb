import PqAsync.Library.Runs
import PqAsync.RangeOps

/-!
Edits of the bounds of a range, against the sides that the last edits on each of them describe.
-/

namespace PqAsync

section

variable {α : Type}

inductive SideEdit (α : Type)
  | bound (val : α) (ri : RangeInclusion)
  | inclusion (ri : RangeInclusion)
  | clear
  deriving DecidableEq, Repr

inductive RangeEdit (α : Type)
  | lower (edit : SideEdit α)
  | upper (edit : SideEdit α)
  deriving DecidableEq, Repr

structure Side (α : Type) where
  bound : Option α
  inclusion : RangeInclusion
  deriving DecidableEq, Repr

def Side.edit (side : Side α) : SideEdit α → Side α
  | .bound val ri => { bound := some val, inclusion := ri }
  | .inclusion ri => { side with inclusion := ri }
  | .clear => { bound := none, inclusion := .exclusive }

structure Sides (α : Type) where
  lower : Side α
  upper : Side α
  deriving DecidableEq, Repr

namespace Sides

def ofBounds (lb ub : α) : Sides α :=
  { lower := { bound := some lb, inclusion := .inclusive }
    upper := { bound := some ub, inclusion := .exclusive } }

def edit (sides : Sides α) : RangeEdit α → Sides α
  | .lower change => { sides with lower := sides.lower.edit change }
  | .upper change => { sides with upper := sides.upper.edit change }

end Sides

namespace BoundRange

def edit (value : BoundRange α) : RangeEdit α → BoundRange α
  | .lower (.bound val ri) => value.setLbound val ri
  | .lower (.inclusion ri) => value.setLboundInclusion ri
  | .lower .clear => value.clearLbound
  | .upper (.bound val ri) => value.setUbound val ri
  | .upper (.inclusion ri) => value.setUboundInclusion ri
  | .upper .clear => value.clearUbound

structure Denotes (value : BoundRange α) (sides : Sides α) : Prop where
  nonempty : value.isEmpty = false
  hasLbound : value.hasLbound = sides.lower.bound.isSome
  hasUbound : value.hasUbound = sides.upper.bound.isSome
  lbound : ∀ lb, sides.lower.bound = some lb → value.lbound = .ok lb
  ubound : ∀ ub, sides.upper.bound = some ub → value.ubound = .ok ub
  lboundInclusion : value.lboundInclusion = sides.lower.inclusion
  uboundInclusion : value.uboundInclusion = sides.upper.inclusion

/-- An edit of one bound, whose presence and inclusion and the presence of the other bound
are those before it. -/
def SideKeeps (own other : Bool) (current : RangeInclusion) : SideEdit α → Prop
  | .bound _ ri => ri = current ∨ own = false ∧ ri = .inclusive
  | .inclusion _ => True
  | .clear => if own then other = true else current = .exclusive

def EditKeeps (value : BoundRange α) : RangeEdit α → Prop
  | .lower change => SideKeeps value.hasLbound value.hasUbound value.lboundInclusion change
  | .upper change => SideKeeps value.hasUbound value.hasLbound value.uboundInclusion change

end BoundRange

end

namespace BoundFlags

def packed (own other : BoundFlags) (present : Bool) (inclusion : RangeInclusion)
    (otherPresent : Bool) (otherInclusion : RangeInclusion) (mark : Bool) : BitVec 32 :=
  ((if inclusion = .inclusive then own.inc else 0) |||
      (if otherInclusion = .inclusive then other.inc else 0)) |||
    (((if present then 0 else own.inf) ||| (if otherPresent then 0 else other.inf)) |||
      if mark then 0x80 else 0)

inductive Mirrored : BoundFlags → BoundFlags → Prop
  | lower : Mirrored lowerFlags upperFlags
  | upper : Mirrored upperFlags lowerFlags

def inclusionOf (own : BoundFlags) (flags : BitVec 32) : RangeInclusion :=
  if flags &&& own.inc != 0 then .inclusive else .exclusive

def edit {α : Type} (own other : BoundFlags) (flags : BitVec 32) : SideEdit α → BitVec 32
  | .bound _ ri => own.bound other flags ri
  | .inclusion ri => own.inclusion flags ri
  | .clear => own.clear other flags

theorem packed_comm (own other : BoundFlags) (present : Bool) (inclusion : RangeInclusion)
    (otherPresent : Bool) (otherInclusion : RangeInclusion) (mark : Bool) :
    packed own other present inclusion otherPresent otherInclusion mark =
      packed other own otherPresent otherInclusion present inclusion mark := by
  rw [packed, packed, BitVec.or_comm (if inclusion = .inclusive then own.inc else 0),
    BitVec.or_comm (if present then 0 else own.inf)]

section

variable {own other : BoundFlags} (mirrored : Mirrored own other) {present : Bool}
  {inclusion : RangeInclusion} {otherPresent : Bool} {otherInclusion : RangeInclusion} {mark : Bool}

include mirrored

theorem has_packed :
    own.has (packed own other present inclusion otherPresent otherInclusion mark) = present := by
  cases mirrored
  all_goals
    cases present <;> cases inclusion <;> cases otherPresent <;> cases otherInclusion <;>
      cases mark <;> rfl

theorem inclusionOf_packed :
    own.inclusionOf (packed own other present inclusion otherPresent otherInclusion mark) =
      inclusion := by
  cases mirrored
  all_goals
    cases present <;> cases inclusion <;> cases otherPresent <;> cases otherInclusion <;>
      cases mark <;> rfl

theorem nonempty_packed :
    (packed own other present inclusion otherPresent otherInclusion mark &&& 0x01 != 0) = false := by
  cases mirrored
  all_goals
    cases present <;> cases inclusion <;> cases otherPresent <;> cases otherInclusion <;>
      cases mark <;> rfl

theorem bound_packed (ri : RangeInclusion) :
    own.bound other (packed own other present inclusion otherPresent otherInclusion mark) ri =
      packed own other true
        (if present then inclusion else if ri = .inclusive then .inclusive else inclusion)
        otherPresent otherInclusion (if present then mark else !otherPresent) := by
  cases mirrored
  all_goals
    cases present <;> cases inclusion <;> cases otherPresent <;> cases otherInclusion <;>
      cases mark <;> cases ri <;> rfl

theorem inclusion_packed (ri : RangeInclusion) :
    own.inclusion (packed own other present inclusion otherPresent otherInclusion mark) ri =
      packed own other present ri otherPresent otherInclusion mark := by
  cases mirrored
  all_goals
    cases present <;> cases inclusion <;> cases otherPresent <;> cases otherInclusion <;>
      cases mark <;> cases ri <;> rfl

theorem clear_packed :
    own.clear other (packed own other true inclusion true otherInclusion mark) =
      packed own other false .exclusive true otherInclusion true := by
  cases mirrored
  all_goals cases inclusion <;> cases otherInclusion <;> cases mark <;> rfl

theorem clear_absent :
    own.clear other (packed own other false inclusion otherPresent otherInclusion mark) =
      packed own other false inclusion otherPresent otherInclusion mark := by
  cases mirrored
  all_goals
    cases inclusion <;> cases otherPresent <;> cases otherInclusion <;> cases mark <;> rfl

theorem clear_last :
    (own.clear other (packed own other true inclusion false otherInclusion mark) &&& 0x01 != 0) =
      true := by
  cases mirrored
  all_goals cases inclusion <;> cases otherInclusion <;> cases mark <;> rfl

theorem edit_packed {α : Type} {change : SideEdit α} {side : Side α}
    (same : side.bound.isSome = present)
    (keeps : BoundRange.SideKeeps present otherPresent side.inclusion change) :
    ∃ next, own.edit other
        (packed own other present side.inclusion otherPresent otherInclusion mark) change =
      packed own other (side.edit change).bound.isSome (side.edit change).inclusion otherPresent
        otherInclusion next := by
  cases change with
  | bound val ri =>
      refine ⟨if present then mark else !otherPresent, (bound_packed mirrored ri).trans ?_⟩
      rcases keeps with rfl | ⟨absent, rfl⟩
      · have kept : (if present then side.inclusion else
            if side.inclusion = .inclusive then .inclusive else side.inclusion) =
            side.inclusion := by
          cases present <;> cases side.inclusion <;> rfl
        rw [kept]
        rfl
      · rw [absent]
        rfl
  | inclusion ri =>
      rw [edit, inclusion_packed mirrored ri, ← same]
      exact ⟨mark, rfl⟩
  | clear =>
      cases present with
      | false =>
          have exclusive : side.inclusion = .exclusive := keeps
          rw [edit, clear_absent mirrored, exclusive]
          exact ⟨mark, rfl⟩
      | true =>
          have there : otherPresent = true := keeps
          rw [edit, there, clear_packed mirrored]
          exact ⟨true, rfl⟩

theorem edit_spoils {α : Type} {change : SideEdit α} {side : Side α}
    (spoils : ¬BoundRange.SideKeeps present otherPresent side.inclusion change)
    {flags : BitVec 32} (edited : own.edit other
      (packed own other present side.inclusion otherPresent otherInclusion mark) change = flags) :
    (flags &&& 0x01 != 0) = true ∨ own.inclusionOf flags ≠ (side.edit change).inclusion := by
  subst edited
  cases change with
  | bound val ri =>
      right
      obtain ⟨different, added⟩ := not_or.mp spoils
      rw [edit, bound_packed mirrored, inclusionOf_packed mirrored]
      cases present with
      | true => exact fun same => different same.symm
      | false =>
          cases ri with
          | inclusive => exact absurd ⟨rfl, rfl⟩ added
          | exclusive => exact fun same => different same.symm
  | inclusion ri => exact absurd trivial spoils
  | clear =>
      cases present with
      | false =>
          right
          rw [edit, clear_absent mirrored, inclusionOf_packed mirrored]
          exact spoils
      | true =>
          left
          have absent : otherPresent = false := Bool.eq_false_of_not_eq_true spoils
          rw [edit, absent, clear_last mirrored]

end

end BoundFlags

namespace BoundRange

section

variable {α : Type} {value : BoundRange α} {sides : Sides α}

structure Follows (value : BoundRange α) (sides : Sides α) : Prop where
  flags : ∃ mark, value.flags = lowerFlags.packed upperFlags sides.lower.bound.isSome
    sides.lower.inclusion sides.upper.bound.isSome sides.upper.inclusion mark
  lb : ∀ lb, sides.lower.bound = some lb → value.lb = lb
  ub : ∀ ub, sides.upper.bound = some ub → value.ub = ub

theorem hasLbound_eq (value : BoundRange α) : value.hasLbound = lowerFlags.has value.flags := rfl

theorem hasUbound_eq (value : BoundRange α) : value.hasUbound = upperFlags.has value.flags := rfl

theorem Follows.denotes (follows : value.Follows sides) : value.Denotes sides := by
  obtain ⟨mark, flags⟩ := follows.flags
  have mirrored := flags.trans (BoundFlags.packed_comm _ _ _ _ _ _ _)
  have hasLbound : value.hasLbound = sides.lower.bound.isSome := by
    rw [hasLbound_eq, flags]
    exact BoundFlags.has_packed .lower
  have hasUbound : value.hasUbound = sides.upper.bound.isSome := by
    rw [hasUbound_eq, mirrored]
    exact BoundFlags.has_packed .upper
  refine ⟨?_, hasLbound, hasUbound, ?_, ?_, ?_, ?_⟩
  · rw [isEmpty, flags]
    exact BoundFlags.nonempty_packed .lower
  · intro lb there
    rw [lbound, hasLbound, there, follows.lb lb there]
    rfl
  · intro ub there
    rw [ubound, hasUbound, there, follows.ub ub there]
    rfl
  · change lowerFlags.inclusionOf value.flags = _
    rw [flags]
    exact BoundFlags.inclusionOf_packed .lower
  · change upperFlags.inclusionOf value.flags = _
    rw [mirrored]
    exact BoundFlags.inclusionOf_packed .upper

theorem edit_flags_lower (value : BoundRange α) (change : SideEdit α) :
    (value.edit (.lower change)).flags = lowerFlags.edit upperFlags value.flags change := by
  cases change with
  | bound val ri => rfl
  | inclusion ri => rfl
  | clear => rfl

theorem edit_flags_upper (value : BoundRange α) (change : SideEdit α) :
    (value.edit (.upper change)).flags = upperFlags.edit lowerFlags value.flags change := by
  cases change with
  | bound val ri => rfl
  | inclusion ri => rfl
  | clear => rfl

theorem edit_ub_lower (value : BoundRange α) (change : SideEdit α) :
    (value.edit (.lower change)).ub = value.ub := by
  cases change with
  | bound val ri => rfl
  | inclusion ri => rfl
  | clear => rfl

theorem edit_lb_upper (value : BoundRange α) (change : SideEdit α) :
    (value.edit (.upper change)).lb = value.lb := by
  cases change with
  | bound val ri => rfl
  | inclusion ri => rfl
  | clear => rfl

theorem Follows.lb_lower (follows : value.Follows sides) (change : SideEdit α) :
    ∀ lb, (sides.lower.edit change).bound = some lb → (value.edit (.lower change)).lb = lb := by
  intro lb there
  cases change with
  | bound val ri => exact Option.some.inj there
  | inclusion ri => exact follows.lb lb there
  | clear => contradiction

theorem Follows.ub_upper (follows : value.Follows sides) (change : SideEdit α) :
    ∀ ub, (sides.upper.edit change).bound = some ub → (value.edit (.upper change)).ub = ub := by
  intro ub there
  cases change with
  | bound val ri => exact Option.some.inj there
  | inclusion ri => exact follows.ub ub there
  | clear => contradiction

theorem Follows.edit (follows : value.Follows sides) {change : RangeEdit α}
    (keeps : value.EditKeeps change) : (value.edit change).Follows (sides.edit change) := by
  obtain ⟨mark, flags⟩ := follows.flags
  have denotes := follows.denotes
  cases change with
  | lower change =>
      rw [EditKeeps, denotes.hasLbound, denotes.hasUbound, denotes.lboundInclusion] at keeps
      obtain ⟨next, edited⟩ := BoundFlags.edit_packed .lower rfl keeps
      refine ⟨⟨next, ?_⟩, follows.lb_lower change, ?_⟩
      · rw [edit_flags_lower, flags, edited]
        rfl
      · rw [edit_ub_lower]
        exact follows.ub
  | upper change =>
      rw [EditKeeps, denotes.hasLbound, denotes.hasUbound, denotes.uboundInclusion] at keeps
      obtain ⟨next, edited⟩ := BoundFlags.edit_packed .upper rfl keeps
      refine ⟨⟨next, ?_⟩, ?_, follows.ub_upper change⟩
      · rw [edit_flags_upper, flags, BoundFlags.packed_comm, edited, BoundFlags.packed_comm]
        rfl
      · rw [edit_lb_upper]
        exact follows.lb

theorem Follows.edit_iff (follows : value.Follows sides) (change : RangeEdit α) :
    (value.edit change).Denotes (sides.edit change) ↔ value.EditKeeps change := by
  refine ⟨?_, fun keeps => (follows.edit keeps).denotes⟩
  intro after
  by_contra spoils
  obtain ⟨mark, flags⟩ := follows.flags
  have denotes := follows.denotes
  cases change with
  | lower change =>
      rw [EditKeeps, denotes.hasLbound, denotes.hasUbound, denotes.lboundInclusion] at spoils
      have edited := edit_flags_lower value change
      rw [flags] at edited
      have nonempty := after.nonempty
      rcases BoundFlags.edit_spoils .lower spoils edited.symm with empty | different
      · rw [isEmpty, empty] at nonempty
        contradiction
      · exact different after.lboundInclusion
  | upper change =>
      rw [EditKeeps, denotes.hasLbound, denotes.hasUbound, denotes.uboundInclusion] at spoils
      have edited := edit_flags_upper value change
      rw [flags, BoundFlags.packed_comm] at edited
      have nonempty := after.nonempty
      rcases BoundFlags.edit_spoils .upper spoils edited.symm with empty | different
      · rw [isEmpty, empty] at nonempty
        contradiction
      · exact different after.uboundInclusion

theorem ofBounds_follows (lb ub : α) : (ofBounds lb ub).Follows (Sides.ofBounds lb ub) := by
  have flags : (0x02 : BitVec 32) =
      lowerFlags.packed upperFlags true .inclusive true .exclusive false := by decide
  exact ⟨⟨false, flags⟩, fun _ there => Option.some.inj there,
    fun _ there => Option.some.inj there⟩

/-- After each edit the range denotes what the last edits of its sides say exactly if no edit gives
a bound that is there another inclusion or a missing one that was made inclusive the exclusive one,
clears the only bound, or clears a missing bound that was made inclusive. -/
theorem edits_denote_iff (lb ub : α) (edits : List (RangeEdit α)) :
    (∀ reached, reached <+: edits →
      (Runs.run edit (ofBounds lb ub) reached).Denotes
        (Runs.run Sides.edit (Sides.ofBounds lb ub) reached)) ↔
      Runs.Meets edit EditKeeps (ofBounds lb ub) edits := by
  have always := @Runs.always_iff_meets _ _ (Runs.both edit Sides.edit)
    (fun states change => states.1.EditKeeps change) (fun states => states.1.Follows states.2)
    (fun states => states.1.Denotes states.2) (fun _ _ follows _ keeps => follows.edit keeps)
    (fun _ change follows _ => follows.edit_iff change) (ofBounds lb ub, Sides.ofBounds lb ub) edits
    (ofBounds_follows lb ub) (ofBounds_follows lb ub).denotes
  rw [Runs.meets_both] at always
  simpa only [Runs.run_both] using always

theorem edits_lost :
    (∃ reached, reached <+: [RangeEdit.upper (.bound (7 : Int) .inclusive)] ∧
      ¬(Runs.run edit (ofBounds 1 5) reached).Denotes
        (Runs.run Sides.edit (Sides.ofBounds 1 5) reached)) ∧
    ∃ reached, reached <+: [RangeEdit.lower .clear, .upper (SideEdit.clear (α := Int))] ∧
      ¬(Runs.run edit (ofBounds 1 5) reached).Denotes
        (Runs.run Sides.edit (Sides.ofBounds 1 5) reached) := by
  refine ⟨⟨_, List.prefix_refl _, ?_⟩, _, List.prefix_refl _, ?_⟩
  · intro denotes
    exact absurd denotes.uboundInclusion (by decide)
  · intro denotes
    exact absurd denotes.nonempty (by decide)

end

end BoundRange

end PqAsync
