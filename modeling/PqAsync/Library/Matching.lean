import Mathlib.Logic.Function.Basic
import Mathlib.Tactic.Common

/-!
Two families of optional links that are inverse to each other, and what happens to them
when one or both ends of a link are written.
-/

namespace Matching

variable {L R : Type*}

def Inverse (right : L → Option R) (left : R → Option L) : Prop :=
  ∀ l r, right l = some r ↔ left r = some l

theorem Inverse.unshared {right : L → Option R} {left : R → Option L}
    (inverse : Inverse right left) {l l' : L} {r : R} (first : right l = some r)
    (second : right l' = some r) : l = l' := by
  have owner := (inverse l r).mp first
  rw [(inverse l' r).mp second] at owner
  exact (Option.some.inj owner).symm

theorem not_inverse_of_half {right : L → Option R} {left : R → Option L} {l : L} {r : R}
    (held : right l = some r) (free : left r ≠ some l) : ¬ Inverse right left :=
  fun inverse => free ((inverse l r).mp held)

def Backed (right : L → Option R) (left : R → Option L) : Prop :=
  ∀ l r, left r = some l → right l = some r

theorem Backed.hold [DecidableEq L] {right : L → Option R} {left : R → Option L}
    (backed : Backed right left) {l : L} (free : right l = none) (r : R) :
    Backed (Function.update right l (some r)) left := by
  intro l' r' owner
  have held := backed l' r' owner
  have different : l' ≠ l := by
    rintro rfl
    rw [free] at held
    cases held
  rw [Function.update_of_ne different]
  exact held

theorem Backed.forget [DecidableEq R] {right : L → Option R} {left : R → Option L}
    (backed : Backed right left) (r : R) : Backed right (Function.update left r none) := by
  intro l' r' owner
  have another : r' ≠ r := by
    rintro rfl
    simp at owner
  rw [Function.update_of_ne another] at owner
  exact backed l' r' owner

variable [DecidableEq L] [DecidableEq R]

theorem Backed.link {right : L → Option R} {left : R → Option L} (backed : Backed right left)
    {l : L} (free : right l = none) (r : R) :
    Backed (Function.update right l (some r)) (Function.update left r (some l)) := by
  intro l' r' owner
  by_cases same : r' = r
  · subst r'
    rw [Function.update_self, Option.some.injEq] at owner
    rw [← owner, Function.update_self]
  · rw [Function.update_of_ne same] at owner
    exact backed.hold free r l' r' owner

theorem Backed.unlink {right : L → Option R} {left : R → Option L} (backed : Backed right left)
    {l : L} {r : R} (held : right l = some r) :
    Backed (Function.update right l none) (Function.update left r none) := by
  intro l' r' owner
  have another : r' ≠ r := by
    rintro rfl
    simp at owner
  rw [Function.update_of_ne another] at owner
  have own := backed l' r' owner
  have different : l' ≠ l := by
    rintro rfl
    rw [held, Option.some.injEq] at own
    exact another own.symm
  rw [Function.update_of_ne different]
  exact own

theorem Inverse.link {right : L → Option R} {left : R → Option L} (inverse : Inverse right left)
    {l : L} {r : R} (freeLeft : right l = none) (freeRight : left r = none) :
    Inverse (Function.update right l (some r)) (Function.update left r (some l)) := by
  intro l' r'
  by_cases sameLeft : l' = l
  · subst l'
    by_cases sameRight : r' = r
    · subst r'
      simp
    · have unlinked : left r' ≠ some l := by
        intro linked
        rw [← inverse, freeLeft] at linked
        simp at linked
      simp [Function.update_of_ne sameRight, Ne.symm sameRight, unlinked]
  · by_cases sameRight : r' = r
    · subst r'
      have unlinked : right l' ≠ some r := by
        intro linked
        rw [inverse, freeRight] at linked
        simp at linked
      simp [Function.update_of_ne sameLeft, Ne.symm sameLeft, unlinked]
    · simp [Function.update_of_ne sameLeft, Function.update_of_ne sameRight, inverse l' r']

theorem Inverse.unlink {right : L → Option R} {left : R → Option L}
    (inverse : Inverse right left) {l : L} {r : R} (linked : right l = some r) :
    Inverse (Function.update right l none) (Function.update left r none) := by
  intro l' r'
  by_cases sameLeft : l' = l
  · subst l'
    by_cases sameRight : r' = r
    · subst r'
      simp
    · have unlinked : left r' ≠ some l := by
        intro other
        rw [← inverse, linked] at other
        exact sameRight (Option.some.inj other).symm
      simp [Function.update_of_ne sameRight, unlinked]
  · by_cases sameRight : r' = r
    · subst r'
      have unlinked : right l' ≠ some r := fun other =>
        sameLeft (inverse.unshared other linked)
      simp [Function.update_of_ne sameLeft, unlinked]
    · simp [Function.update_of_ne sameLeft, Function.update_of_ne sameRight, inverse l' r']

theorem Inverse.link_iff {right : L → Option R} {left : R → Option L}
    (inverse : Inverse right left) {l : L} {r : R} (freeLeft : right l = none) :
    Inverse (Function.update right l (some r)) (Function.update left r (some l)) ↔
      left r = none := by
  constructor
  · intro linked
    cases owner : left r with
    | none => rfl
    | some other =>
        have held : right other = some r := (inverse other r).mpr owner
        have different : other ≠ l := by
          rintro rfl
          rw [freeLeft] at held
          simp at held
        have still := (linked other r).mp (by simpa [Function.update_of_ne different] using held)
        simp only [Function.update_self, Option.some.injEq] at still
        exact absurd still.symm different
  · exact inverse.link freeLeft

end Matching
