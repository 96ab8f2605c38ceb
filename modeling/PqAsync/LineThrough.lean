import Mathlib.Tactic.FieldSimp
import Mathlib.Tactic.LinearCombination
import PqAsync.GeometryCore

/-!
The line through two points: its coefficients are right unless the first point is on the axis
of `x`.
-/

namespace PqAsync

namespace LineOf

def valueAt (line : LineOf (Option ℚ)) (point : PointOf (Option ℚ)) : Option ℚ := do
  return (← line.a) * (← point.x) + (← line.b) * (← point.y) + (← line.c)

def Contains (line : LineOf (Option ℚ)) (point : PointOf (Option ℚ)) : Prop :=
  line.valueAt point = some 0

instance (line : LineOf (Option ℚ)) (point : PointOf (Option ℚ)) :
    Decidable (line.Contains point) := inferInstanceAs (Decidable (_ = _))

def numbers (p : PointOf ℚ) : PointOf (Option ℚ) := { x := some p.x, y := some p.y }

/-- The line has an equation that holds for both points and for the points that are made from
one of their coordinates. -/
structure FitsThrough (line : LineOf (Option ℚ)) (p q : PointOf ℚ) : Prop where
  proper : ¬(line.a = some 0 ∧ line.b = some 0)
  first : line.Contains (numbers p)
  second : line.Contains (numbers q)
  fromX : ∀ x, line.Contains (line.pointFromX x)
  fromY : line.a ≠ some 0 → ∀ y, line.Contains (line.pointFromY y)

def slope (p q : PointOf ℚ) : ℚ := (q.y - p.y) / (q.x - p.x)

variable {p q : PointOf ℚ}

@[simp] theorem unsigned_eq (value : Option ℚ) : unsigned value = value := by
  rw [unsigned, neg_zero]
  split
  · rename_i zero
    exact zero.symm
  · rfl

def sloped (m i : ℚ) : LineOf (Option ℚ) := { a := some m, b := some (-1), c := some i }

def intercept (p q : PointOf ℚ) : ℚ := p.y - slope p q * p.x

theorem quotient_of_ne {n d : ℚ} (nonzero : d ≠ 0) : quotient n d = some (n / d) :=
  if_neg nonzero

theorem ofPoints_eq (apart : p.x ≠ q.x) : ofPoints p q =
    { a := some (slope p q), b := quotient p.y (-p.y), c := some (intercept p q) } := by
  have m : quotient (q.y - p.y) (q.x - p.x) = some (slope p q) :=
    quotient_of_ne (sub_ne_zero.mpr apart.symm)
  have total : slope p q * p.x + intercept p q = p.y := add_sub_cancel _ _
  simp only [ofPoints, m, unsigned_eq]
  change LineOf.mk _ (quotient (slope p q * p.x + intercept p q) (-p.y)) _ = _
  rw [total]
  rfl

theorem ofPoints_sloped (apart : p.x ≠ q.x) (offAxis : p.y ≠ 0) :
    ofPoints p q = sloped (slope p q) (intercept p q) := by
  rw [ofPoints_eq apart, quotient_of_ne (neg_ne_zero.mpr offAxis), div_neg, div_self offAxis,
    sloped]

theorem ofPoints_axis (apart : p.x ≠ q.x) (onAxis : p.y = 0) : (ofPoints p q).b = none := by
  rw [ofPoints_eq apart, quotient, if_pos (neg_eq_zero.mpr onAxis)]

section Sloped

variable {m i : ℚ}

theorem sloped_contains {x y : ℚ} :
    (sloped m i).Contains { x := some x, y := some y } ↔ y = m * x + i := by
  change some (m * x + -1 * y + i) = some 0 ↔ _
  rw [Option.some.injEq]
  constructor
  · intro zero
    linear_combination -zero
  · intro same
    linear_combination -same

theorem sloped_pointFromX (x : ℚ) : (sloped m i).Contains ((sloped m i).pointFromX x) := by
  rw [pointFromX]
  by_cases flat : (sloped m i).a = some 0 ∧ (sloped m i).b = some (-1)
  · obtain rfl : m = 0 := Option.some.inj flat.1
    rw [if_pos flat]
    exact sloped_contains.mpr (by ring)
  · have y : quotient (-(m * x) - i) (-1) = some (m * x + i) := by
      rw [quotient_of_ne (by decide)]
      ring_nf
    rw [if_neg flat]
    change (sloped m i).Contains { x := some x, y := quotient (-(m * x) - i) (-1) }
    rw [y]
    exact sloped_contains.mpr rfl

theorem sloped_pointFromY (steep : m ≠ 0) (y : ℚ) :
    (sloped m i).Contains ((sloped m i).pointFromY y) := by
  have other : ¬((sloped m i).a = some (-1) ∧ (sloped m i).b = some 0) :=
    fun both => absurd (Option.some.inj both.2) (by decide)
  rw [pointFromY, if_neg other]
  change (sloped m i).Contains { x := quotient (-(-1 * y) - i) m, y := some y }
  rw [quotient_of_ne steep]
  apply sloped_contains.mpr
  field_simp
  ring

end Sloped

/-- The line through two points is right exactly when the first of them is off the axis of
`x`. -/
theorem ofPoints_fits_iff (p q : PointOf ℚ) (apart : p.x ≠ q.x) :
    (ofPoints p q).FitsThrough p q ↔ p.y ≠ 0 := by
  constructor
  · intro fits onAxis
    have none : (ofPoints p q).valueAt (numbers p) = none := by
      rw [valueAt, ofPoints_axis apart onAxis]
      cases (ofPoints p q).a <;> rfl
    have contains := fits.first
    rw [Contains, none] at contains
    cases contains
  · intro offAxis
    rw [ofPoints_sloped apart offAxis]
    have run : q.x - p.x ≠ 0 := sub_ne_zero.mpr apart.symm
    constructor
    · exact fun both => absurd (Option.some.inj both.2) (by decide)
    · exact sloped_contains.mpr (add_sub_cancel _ _).symm
    · apply sloped_contains.mpr
      rw [intercept, slope]
      field_simp
      ring
    · exact sloped_pointFromX
    · intro steep
      exact sloped_pointFromY fun zero => steep (congrArg some zero)

theorem ofPoints_fits_iff_rising :
    (ofPoints ⟨-3, 4⟩ ⟨3, 25⟩).FitsThrough ⟨-3, 4⟩ ⟨3, 25⟩ ↔ (⟨-3, 4⟩ : PointOf ℚ).y ≠ 0 :=
  ofPoints_fits_iff ⟨-3, 4⟩ ⟨3, 25⟩ (by decide)

theorem origin_unfit : ∃ p q : PointOf ℚ, p.x ≠ q.x ∧ ¬(ofPoints p q).FitsThrough p q := by
  refine ⟨⟨0, 0⟩, ⟨1, 1⟩, by decide, fun fits => ?_⟩
  exact absurd fits.first (by decide +kernel)

end LineOf

end PqAsync
