import Mathlib.Analysis.Convex.Segment
import Mathlib.Tactic.LinearCombination

/-!
Where two segments of a plane meet, told by cross products and without divisions.
-/

namespace Crossing

variable {K : Type*} [Field K]

def cross (a b : K × K) : K := a.1 * b.2 - a.2 * b.1

theorem meets_iff {r s w : K × K} (apart : cross r s ≠ 0) (t u : K) :
    t • r = w + u • s ↔ t = cross w s / cross r s ∧ u = cross w r / cross r s := by
  obtain ⟨rx, ry⟩ := r
  obtain ⟨sx, sy⟩ := s
  obtain ⟨wx, wy⟩ := w
  rw [eq_div_iff apart, eq_div_iff apart]
  simp only [cross, Prod.smul_mk, Prod.mk_add_mk, Prod.mk.injEq, smul_eq_mul] at *
  constructor
  · rintro ⟨x, y⟩
    constructor
    · linear_combination sy * x - sx * y
    · linear_combination ry * x - rx * y
  · rintro ⟨first, second⟩
    constructor
    · apply mul_left_cancel₀ apart
      linear_combination rx * first - sx * second
    · apply mul_left_cancel₀ apart
      linear_combination ry * first - sy * second

variable [LinearOrder K] [IsStrictOrderedRing K]

theorem segments_meet_iff {a b c d : K × K} (apart : cross (b - a) (d - c) ≠ 0) :
    (segment K a b ∩ segment K c d).Nonempty ↔
      cross (c - a) (d - c) / cross (b - a) (d - c) ∈ Set.Icc 0 1 ∧
        cross (c - a) (b - a) / cross (b - a) (d - c) ∈ Set.Icc 0 1 := by
  rw [segment_eq_image', segment_eq_image']
  have meet (t u : K) : a + t • (b - a) = c + u • (d - c) ↔
      t = cross (c - a) (d - c) / cross (b - a) (d - c) ∧
        u = cross (c - a) (b - a) / cross (b - a) (d - c) := by
    rw [← meets_iff apart t u, sub_add_eq_add_sub, eq_sub_iff_add_eq']
  constructor
  · rintro ⟨_, ⟨t, inside, rfl⟩, u, within, same⟩
    obtain ⟨rfl, rfl⟩ := (meet t u).mp same.symm
    exact ⟨inside, within⟩
  · rintro ⟨inside, within⟩
    exact ⟨_, ⟨_, inside, rfl⟩, _, within, ((meet _ _).mpr ⟨rfl, rfl⟩).symm⟩

end Crossing
