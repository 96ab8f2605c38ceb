import PqAsync.Library.Runs
import Mathlib.Data.List.Induction

/-!
Flags of a system that some events set and others clear, told from the run alone.
-/

namespace Runs

variable {State Event : Type*}

/-- Some event of the run sets a flag, and none after it clears it. -/
def Since (step : State → Event → State) (sets clears : State → Event → Prop) (state : State)
    (events : List Event) : Prop :=
  ∃ before event after, events = before ++ event :: after ∧
    sets (run step state before) event ∧
    Meets step (fun state event => ¬ clears state event) (run step state (before ++ [event])) after

variable {step : State → Event → State} {sets clears : State → Event → Prop}

theorem not_since_nil (state : State) : ¬ Since step sets clears state [] := by
  rintro ⟨before, event, after, empty, _⟩
  simp at empty

theorem since_append_singleton (state : State) (events : List Event) (event : Event) :
    Since step sets clears state (events ++ [event]) ↔
      sets (run step state events) event ∨
        Since step sets clears state events ∧ ¬ clears (run step state events) event := by
  constructor
  · rintro ⟨before, first, after, split, isSet, kept⟩
    rcases List.eq_nil_or_concat after with rfl | ⟨middle, last, rfl⟩
    · obtain ⟨rfl, same⟩ := List.append_inj' split rfl
      obtain rfl := List.singleton_inj.mp same
      exact Or.inl isSet
    · have regrouped : events ++ [event] = (before ++ first :: middle) ++ [last] := by
        simpa using split
      obtain ⟨rfl, same⟩ := List.append_inj' regrouped rfl
      obtain rfl := List.singleton_inj.mp same
      rw [List.concat_eq_append, meets_append] at kept
      have reached : run step state (before ++ first :: middle) =
          run step (run step state (before ++ [first])) middle := by
        rw [← run_append]
        simp
      refine Or.inr ⟨⟨before, first, middle, rfl, isSet, kept.1⟩, ?_⟩
      rw [reached]
      exact kept.2.1
  · rintro (isSet | ⟨⟨before, first, after, rfl, isSet, kept⟩, notCleared⟩)
    · exact ⟨events, event, [], rfl, isSet, trivial⟩
    · refine ⟨before, first, after ++ [event], by simp, isSet, ?_⟩
      rw [meets_append]
      refine ⟨kept, ?_, trivial⟩
      rw [← run_append]
      simpa using notCleared

theorem flag_iff_since {flag : State → Prop}
    (law : ∀ state event, flag (step state event) ↔
      sets state event ∨ flag state ∧ ¬ clears state event)
    {state : State} (start : ¬ flag state) (events : List Event) :
    flag (run step state events) ↔ Since step sets clears state events := by
  induction events using List.reverseRecOn with
  | nil => exact iff_of_false start (not_since_nil state)
  | append_singleton events event ih =>
      rw [run_append, since_append_singleton, ← ih]
      exact law _ event

end Runs
