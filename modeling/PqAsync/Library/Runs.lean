import Mathlib.Data.List.Basic

/-!
Runs of a deterministic system: a state, and a function that applies one event to it.
-/

namespace Runs

variable {State Event : Type*} (step : State → Event → State)

def run (state : State) (events : List Event) : State := events.foldl step state

/-- Every event of the run meets the condition in the state in which it is applied. -/
def Meets (condition : State → Event → Prop) : State → List Event → Prop
  | _, [] => True
  | state, event :: events =>
      condition state event ∧ Meets condition (step state event) events

variable {step}

@[simp] theorem run_nil (state : State) : run step state [] = state := rfl

@[simp] theorem run_cons (state : State) (event : Event) (events : List Event) :
    run step state (event :: events) = run step (step state event) events := rfl

theorem run_append (state : State) (left right : List Event) :
    run step state (left ++ right) = run step (run step state left) right :=
  List.foldl_append

@[simp] theorem Meets_nil (condition : State → Event → Prop) (state : State) :
    Meets step condition state [] := trivial

theorem Meets_cons (condition : State → Event → Prop) (state : State) (event : Event)
    (events : List Event) :
    Meets step condition state (event :: events) ↔
      condition state event ∧ Meets step condition (step state event) events := Iff.rfl

theorem meets_append {condition : State → Event → Prop} {state : State}
    {left right : List Event} :
    Meets step condition state (left ++ right) ↔
      Meets step condition state left ∧ Meets step condition (run step state left) right := by
  induction left generalizing state with
  | nil => simp
  | cons event left ih =>
      rw [List.cons_append, Meets_cons, Meets_cons, ih, and_assoc]
      rfl

theorem meets_iff_forall {condition : State → Event → Prop} {state : State}
    {events : List Event} :
    Meets step condition state events ↔ ∀ before event after,
      events = before ++ event :: after → condition (run step state before) event := by
  constructor
  · rintro meets before event after rfl
    exact (meets_append.mp meets).2.1
  · intro all
    induction events generalizing state with
    | nil => trivial
    | cons first events ih =>
        constructor
        · exact all [] first events rfl
        · apply ih
          rintro before event after rfl
          exact all (first :: before) event after rfl

instance Meets.decidable (condition : State → Event → Prop)
    [∀ state event, Decidable (condition state event)] :
    (state : State) → (events : List Event) → Decidable (Meets step condition state events)
  | _, [] => inferInstanceAs (Decidable True)
  | state, event :: events =>
      have := Meets.decidable condition (step state event) events
      inferInstanceAs (Decidable (condition state event ∧ _))

theorem Meets.invariant {condition : State → Event → Prop} (inv : State → Prop)
    (preserved : ∀ state event, inv state → condition state event → inv (step state event))
    {state : State} {events : List Event} (start : inv state)
    (meets : Meets step condition state events) : inv (run step state events) := by
  induction events generalizing state with
  | nil => exact start
  | cons event events ih =>
      exact ih (preserved state event start meets.1) meets.2

theorem meets_true (state : State) (events : List Event) :
    Meets step (fun _ _ => True) state events := by
  induction events generalizing state with
  | nil => trivial
  | cons event events ih => exact ⟨trivial, ih _⟩

theorem invariant (inv : State → Prop)
    (preserved : ∀ state event, inv state → inv (step state event))
    {state : State} (start : inv state) (events : List Event) : inv (run step state events) :=
  (meets_true state events).invariant inv (fun state event holds _ => preserved state event holds)
    start

theorem meets_congr {left right : State → Event → Prop} (inv : State → Prop)
    (preserved : ∀ state event, inv state → inv (step state event))
    (agree : ∀ state event, inv state → (left state event ↔ right state event))
    {state : State} (start : inv state) (events : List Event) :
    Meets step left state events ↔ Meets step right state events := by
  induction events generalizing state with
  | nil => rfl
  | cons event events ih =>
      rw [Meets_cons, Meets_cons, agree state event start, ih (preserved state event start)]

/-- When an event keeps `good` exactly if it meets the condition, and `good` never comes
back once it is lost, a run ends in a good state exactly if all of its events meet the
condition. -/
theorem good_iff_meets {valid condition : State → Event → Prop} {inv good : State → Prop}
    (preserved : ∀ state event, inv state → valid state event → inv (step state event))
    (exact_ : ∀ state event, inv state → valid state event → good state →
      (good (step state event) ↔ condition state event))
    (lost : ∀ state event, inv state → valid state event → ¬ good state →
      ¬ good (step state event))
    {state : State} {events : List Event} (start : inv state)
    (meets : Meets step valid state events) :
    good (run step state events) ↔ good state ∧ Meets step condition state events := by
  induction events generalizing state with
  | nil => simp
  | cons event events ih =>
      rw [run_cons, ih (preserved state event start meets.1) meets.2, Meets_cons]
      by_cases now : good state
      · rw [exact_ state event start meets.1 now]
        simp only [now, true_and]
      · simp only [now, lost state event start meets.1 now, false_and]

theorem always_safe_iff_meets {condition safe : State → Event → Prop} {inv good : State → Prop}
    (preserved : ∀ state event, inv state → good state → condition state event →
      inv (step state event))
    (exact_ : ∀ state event, inv state → good state →
      (good (step state event) ∧ safe state event ↔ condition state event))
    {state : State} {events : List Event} (start : inv state) (now : good state) :
    (∀ reached, reached <+: events → good (run step state reached)) ∧
        Meets step safe state events ↔
      Meets step condition state events := by
  induction events generalizing state with
  | nil =>
      refine iff_of_true ⟨fun reached isPrefix => ?_, trivial⟩ trivial
      rw [List.prefix_nil.mp isPrefix]
      exact now
  | cons event events ih =>
      rw [Meets_cons, Meets_cons]
      constructor
      · rintro ⟨always, safely, later⟩
        have next : good (step state event) := always [event] (by simp)
        have meets := (exact_ state event start now).mp ⟨next, safely⟩
        refine ⟨meets, ?_⟩
        rw [← ih (preserved state event start now meets) next]
        refine ⟨?_, later⟩
        intro reached isPrefix
        exact always (event :: reached) (List.cons_prefix_cons.mpr ⟨rfl, isPrefix⟩)
      · rintro ⟨meets, later⟩
        obtain ⟨next, safely⟩ := (exact_ state event start now).mpr meets
        obtain ⟨always, safelyLater⟩ := (ih (preserved state event start now meets) next).mpr later
        refine ⟨?_, safely, safelyLater⟩
        intro reached isPrefix
        cases reached with
        | nil => exact now
        | cons first reached =>
            obtain ⟨rfl, rest⟩ := List.cons_prefix_cons.mp isPrefix
            exact always reached rest

/-- When an event keeps `good` exactly if it meets the condition, all states of a run are
good exactly if all of its events meet the condition. -/
theorem always_iff_meets {condition : State → Event → Prop} {inv good : State → Prop}
    (preserved : ∀ state event, inv state → good state → condition state event →
      inv (step state event))
    (exact_ : ∀ state event, inv state → good state →
      (good (step state event) ↔ condition state event))
    {state : State} {events : List Event} (start : inv state) (now : good state) :
    (∀ reached, reached <+: events → good (run step state reached)) ↔
      Meets step condition state events := by
  have both : (∀ reached, reached <+: events → good (run step state reached)) ∧
      Meets step (fun _ _ => True) state events ↔ Meets step condition state events :=
    always_safe_iff_meets preserved
      (fun state event holds isGood => by rw [and_true, exact_ state event holds isGood]) start now
  rwa [and_iff_left (meets_true state events)] at both

theorem always_good_iff_meets {condition : State → Event → Prop} {inv good : State → Prop}
    (preserved : ∀ state event, inv state → inv (step state event))
    (exact_ : ∀ state event, inv state → good state →
      (good (step state event) ↔ condition state event))
    {state : State} {events : List Event} (start : inv state) (now : good state) :
    (∀ reached, reached <+: events → good (run step state reached)) ↔
      Meets step condition state events :=
  always_iff_meets (fun state event holds _ _ => preserved state event holds) exact_ start now

def both {Left Right : Type*} (left : Left → Event → Left) (right : Right → Event → Right)
    (states : Left × Right) (event : Event) : Left × Right :=
  (left states.1 event, right states.2 event)

section

variable {Left Right : Type*} {left : Left → Event → Left} {right : Right → Event → Right}

theorem run_both (states : Left × Right) (events : List Event) :
    run (both left right) states events = (run left states.1 events, run right states.2 events) := by
  induction events generalizing states with
  | nil => rfl
  | cons event events ih =>
      rw [run_cons, run_cons, run_cons, ih]
      rfl

theorem meets_both (condition : Left → Event → Prop) (states : Left × Right)
    (events : List Event) :
    Meets (both left right) (fun states event => condition states.1 event) states events ↔
      Meets left condition states.1 events := by
  induction events generalizing states with
  | nil => rfl
  | cons event events ih =>
      rw [Meets_cons, Meets_cons, ih]
      rfl

end

end Runs
