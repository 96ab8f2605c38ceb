import PqAsync.GeometryCore
import PqAsync.Library.Crossing

/-!
When points are equal and when two segments meet, against what the code tells of it.
-/

namespace PqAsync

open ThreeWay Crossing

namespace PointOf

def square (p : PointOf ℚ) : ℚ := p.x * p.x + p.y * p.y

def pair (p : PointOf ℚ) : ℚ × ℚ := (p.x, p.y)

structure Consistent (p q : PointOf ℚ) : Prop where
  equal : operators.equal p q = true ↔ p = q
  notEqual : operators.notEqual p q = true ↔ p ≠ q
  ordered : operators.less p q = true ∨ operators.greater p q = true ↔ p ≠ q
  apart : ¬(operators.less p q = true ∧ operators.greater p q = true)
  lessEqual : operators.lessEqual p q = true ↔ operators.less p q = true ∨ p = q
  greaterEqual : operators.greaterEqual p q = true ↔ operators.greater p q = true ∨ p = q

variable {p q : PointOf ℚ}

theorem cmp_orders (p q : PointOf ℚ) : Orders (cmp p q) p.square q.square := by
  rw [cmp]
  by_cases same : p.x = q.x ∧ p.y = q.y
  · rw [if_pos same]
    exact .of_eq rfl (by rw [square, square, same.1, same.2])
  · rw [if_neg same]
    change Orders (if p.square = q.square then 0 else if p.square < q.square then -1 else 1) _ _
    rcases lt_trichotomy p.square q.square with less | equal | more
    · rw [if_neg less.ne, if_pos less]
      exact .of_lt (by decide) less
    · rw [if_pos equal]
      exact .of_eq rfl equal
    · rw [if_neg more.ne', if_neg more.not_gt]
      exact .of_gt (by decide) more

theorem operators_orderBy (p q : PointOf ℚ) : operators.OrderBy square p q :=
  Operators.ofCmp_orderBy (cmp_orders p q)

theorem consistent_iff : Consistent p q ↔ p = q ∨ p.square ≠ q.square := by
  have orderBy := operators_orderBy p q
  constructor
  · intro consistent
    by_cases same : p.square = q.square
    · exact .inl (consistent.equal.mp (orderBy.equal.mpr same))
    · exact .inr same
  · intro told
    have same : p.square = q.square ↔ p = q := by
      constructor
      · exact told.resolve_right ∘ not_not.mpr
      · exact congrArg square
    constructor
    · exact orderBy.equal.trans same
    · exact orderBy.notEqual.trans (not_congr same)
    · rw [orderBy.less, orderBy.greater]
      exact ne_iff_lt_or_gt.symm.trans (not_congr same)
    · rw [orderBy.less, orderBy.greater]
      exact fun both => both.1.not_gt both.2
    · rw [orderBy.lessEqual, orderBy.less, ← same]
      exact le_iff_lt_or_eq
    · rw [orderBy.greaterEqual, orderBy.greater, ← same, eq_comm]
      exact le_iff_lt_or_eq

end PointOf

theorem inUnit_quotient (n d : ℚ) :
    inUnit (quotient n d) = true ↔ d ≠ 0 ∧ n / d ∈ Set.Icc 0 1 := by
  by_cases zero : d = 0
  · rw [quotient, if_pos zero]
    exact iff_of_false Bool.false_ne_true fun both => both.1 zero
  · rw [quotient, if_neg zero, inUnit, Bool.and_eq_true, decide_eq_true_iff, decide_eq_true_iff]
    exact (and_iff_right zero).symm

namespace LsegOf

def direction (s : LsegOf ℚ) : PointOf ℚ := s.b.sub s.a

def NonParallel (s t : LsegOf ℚ) : Prop := cross s.direction.pair t.direction.pair ≠ 0

instance (s t : LsegOf ℚ) : Decidable (NonParallel s t) := inferInstanceAs (Decidable (_ ≠ _))

def Meet (s t : LsegOf ℚ) : Prop :=
  (segment ℚ s.a.pair s.b.pair ∩ segment ℚ t.a.pair t.b.pair).Nonempty

def along (s t : LsegOf ℚ) : ℚ :=
  cross (t.a.sub s.a).pair t.direction.pair / cross s.direction.pair t.direction.pair

def alongOther (s t : LsegOf ℚ) : ℚ :=
  cross (t.a.sub s.a).pair s.direction.pair / cross s.direction.pair t.direction.pair

def LinesMeetWithin (s t : LsegOf ℚ) : Prop :=
  s.along t ∈ Set.Icc 0 1 ∧ s.alongOther t ∈ Set.Icc 0 1

instance (s t : LsegOf ℚ) : Decidable (LinesMeetWithin s t) := inferInstanceAs (Decidable (_ ∧ _))

/-- Both ways are between 0 and 1 after one of them was scaled: by `s.x * s.x - s.y * s.y`, or
`r.x * r.x - r.y * r.y`, over `r.x * s.x - r.y * s.y`, which is not zero. -/
structure ScaledWithin (s t : LsegOf ℚ) : Prop where
  product : s.direction.x * t.direction.x - s.direction.y * t.direction.y ≠ 0
  along : s.along t - s.alongOther t *
    ((t.direction.x * t.direction.x - t.direction.y * t.direction.y) /
      (s.direction.x * t.direction.x - s.direction.y * t.direction.y)) ∈ Set.Icc 0 1
  other : s.along t *
    ((s.direction.x * s.direction.x - s.direction.y * s.direction.y) /
      (s.direction.x * t.direction.x - s.direction.y * t.direction.y)) - s.alongOther t ∈
        Set.Icc 0 1

/-- The lines meet within both segments, also after the scaling, or neither before nor after
it. -/
def Unscathed (s t : LsegOf ℚ) : Prop :=
  (LinesMeetWithin s t ∧ ScaledWithin s t) ∨ (¬LinesMeetWithin s t ∧ ¬ScaledWithin s t)

variable {s t : LsegOf ℚ}

theorem meet_iff (apart : NonParallel s t) : Meet s t ↔ LinesMeetWithin s t :=
  segments_meet_iff apart

theorem way_eq (apart : NonParallel s t) :
    (t.a.sub s.a).x = s.along t * s.direction.x - s.alongOther t * t.direction.x ∧
      (t.a.sub s.a).y = s.along t * s.direction.y - s.alongOther t * t.direction.y := by
  have meets := (meets_iff apart (s.along t) (s.alongOther t)).mpr ⟨rfl, rfl⟩
  have x := congrArg Prod.fst meets
  have y := congrArg Prod.snd meets
  simp only [Prod.smul_fst, Prod.smul_snd, Prod.fst_add, Prod.snd_add, smul_eq_mul] at x y
  exact ⟨(sub_eq_of_eq_add x).symm, (sub_eq_of_eq_add y).symm⟩

theorem quotient_cross (apart : NonParallel s t) (r : PointOf ℚ) :
    (t.a.sub s.a).cross r / s.direction.cross t.direction =
      s.along t * (s.direction.cross r / s.direction.cross t.direction) -
        s.alongOther t * (t.direction.cross r / s.direction.cross t.direction) := by
  obtain ⟨x, y⟩ := way_eq apart
  have way : (t.a.sub s.a).cross r =
      s.along t * s.direction.cross r - s.alongOther t * t.direction.cross r := by
    rw [PointOf.cross, x, y, PointOf.cross, PointOf.cross]
    ring
  rw [way, sub_div, mul_div_assoc, mul_div_assoc]

theorem cross_comm (p q : PointOf ℚ) : p.cross q = q.cross p := by
  rw [PointOf.cross, PointOf.cross, mul_comm p.x, mul_comm p.y]

theorem intersect_iff (apart : NonParallel s t) : s.intersect t = true ↔ ScaledWithin s t := by
  rw [intersect, Bool.and_eq_true, inUnit_quotient, inUnit_quotient, and_and_and_comm,
    and_self_iff]
  change s.direction.cross t.direction ≠ 0 ∧
    (t.a.sub s.a).cross t.direction / s.direction.cross t.direction ∈ Set.Icc 0 1 ∧
    (t.a.sub s.a).cross s.direction / s.direction.cross t.direction ∈ Set.Icc 0 1 ↔ _
  have ways (product : s.direction.cross t.direction ≠ 0) :
      (t.a.sub s.a).cross t.direction / s.direction.cross t.direction = s.along t -
          s.alongOther t * (t.direction.cross t.direction / s.direction.cross t.direction) ∧
        (t.a.sub s.a).cross s.direction / s.direction.cross t.direction =
          s.along t * (s.direction.cross s.direction / s.direction.cross t.direction) -
            s.alongOther t := by
    have along := quotient_cross apart t.direction
    have other := quotient_cross apart s.direction
    rw [div_self product, mul_one] at along
    rw [cross_comm t.direction, div_self product, mul_one] at other
    exact ⟨along, other⟩
  constructor
  · rintro ⟨product, first, second⟩
    rw [(ways product).1] at first
    rw [(ways product).2] at second
    exact ⟨product, first, second⟩
  · rintro ⟨product, first, second⟩
    refine ⟨product, ?_, ?_⟩
    · rw [(ways product).1]
      exact first
    · rw [(ways product).2]
      exact second

end LsegOf

end PqAsync
