import PqAsync.NumericDivision
import PqAsync.NumericProduct

/-!
Division and remainder of stored numerics. The product of the truncated quotient with the divisor
has room in its accumulator, so that the subtraction gives the exact remainder.
-/

namespace PqAsync

open Results Rounding Numeric

namespace Numeric

/-- A numeric as it is stored: no outer zero digits, and no decimal place beyond the scale. -/
structure Stored (var : Numeric) : Prop extends Stripped var where
  scale : 0 ≤ var.dscale
  places : ∃ whole : Int, var.value * 10 ^ var.dscale = whole

theorem Stripped.ndigits_le {var : Numeric} (stripped : var.Stripped) (some : var.digits ≠ [])
    {scale whole : Int} (nonneg : 0 ≤ scale) (places : var.magnitude * 10 ^ scale = whole) :
    var.ndigits ≤ var.weight + 1 + (scale + decDigits - 1).tdiv decDigits := by
  rw [digits_of_scale nonneg]
  by_cases below : (var.weight + 1) * decDigits + scale ≤ 0
  · have zero := floorAt_eq_zero (magnitude_nonneg stripped.digits)
      (magnitude_below stripped.digits below)
    rw [floorAt_of_whole places] at zero
    exact absurd zero (stripped.wellFormed.magnitude_pos some).ne'
  · obtain ⟨n, count, remainder, aligned⟩ :=
      ndigits_eq (show 0 ≤ (var.weight + 1) * decDigits + scale by omega)
    obtain ⟨e, exponent⟩ : ∃ e : Nat,
        (e : Int) = (4 - ((var.weight + 1) * decDigits + scale) % 4) % 4 :=
      ⟨((4 - ((var.weight + 1) * decDigits + scale) % 4) % 4).toNat, by omega⟩
    by_contra longer
    have inside : n < var.digits.length := by
      rw [Numeric.ndigits] at longer
      rw [decDigits] at aligned
      omega
    obtain ⟨_, zeros⟩ := whole_split stripped.digits inside.le
      (by rw [decDigits] at aligned exponent; omega : (var.weight + 1) * 4 + scale + e = 4 * n) places
    apply stripped.trailing
    have behind : var.digits.drop n ≠ [] := by simpa using inside
    have zero := zeros _ (List.getLast_mem behind)
    rw [List.getLast_drop] at zero
    rw [List.getLast?_eq_some_getLast some, zero]

theorem whole_magnitude {var : Numeric} (wellFormed : var.WellFormed) {scale whole : Int}
    (places : var.value * 10 ^ scale = whole) :
    ∃ whole : Int, var.magnitude * 10 ^ scale = whole := by
  rcases wellFormed.sign with sign | sign
  · rw [value_of_pos sign] at places
    exact ⟨whole, places⟩
  · rw [value_of_neg sign] at places
    refine ⟨-whole, ?_⟩
    push_cast
    linarith

theorem Stored.exact_of_integer {var integer : Numeric} (stored : var.Stored)
    (stripped : integer.Stripped) {n : Int} (value : integer.value = n) :
    Exact var integer var.dscale := by
  obtain ⟨whole, places⟩ := stored.places
  obtain ⟨whole1, places1⟩ := whole_magnitude stored.toStripped.wellFormed places
  obtain ⟨whole2, places2⟩ := @whole_magnitude integer stripped.wellFormed 0 n (by simpa using value)
  constructor
  · intro some1 some2
    have length1 := stored.toStripped.ndigits_le some1 stored.scale places1
    have length2 := stripped.ndigits_le some2 (le_refl 0) places2
    have none : ((0 : Int) + decDigits - 1).tdiv decDigits = 0 := by decide
    rw [none] at length2
    rw [mulGuardDigits]
    omega
  · refine ⟨whole1 * whole2, ?_⟩
    rw [zpow_zero, mul_one] at places2
    push_cast
    rw [← places1, ← places2]
    ring

theorem sign_of_remainder {x remainder : Numeric} (wellFormedX : x.WellFormed)
    (wellFormedR : remainder.WellFormed) (nonneg : 0 ≤ x.value → 0 ≤ remainder.value)
    (nonpos : x.value ≤ 0 → remainder.value ≤ 0) :
    remainder.value = 0 ∨ remainder.sign = x.sign := by
  by_cases zero : remainder.value = 0
  · exact Or.inl zero
  · right
    rcases lt_or_ge x.value 0 with below | above
    · rw [wellFormedX.sign_neg_iff.mpr below]
      exact wellFormedR.sign_neg_iff.mpr (lt_of_le_of_ne (nonpos below.le) zero)
    · have positiveX : ¬x.sign = numericNeg := by
        rw [wellFormedX.sign_neg_iff]
        exact not_lt.mpr above
      have positiveR : ¬remainder.sign = numericNeg := by
        rw [wellFormedR.sign_neg_iff]
        exact not_lt.mpr (nonneg above)
      rw [wellFormedX.sign.resolve_right positiveX, wellFormedR.sign.resolve_right positiveR]

theorem mod_exact {x y : Numeric} (storedX : x.Stored) (storedY : y.Stored)
    (nonzero : y.value ≠ 0) :
    Returns (x.mod y) (x.value - trunc (x.value / y.value) * y.value) (max x.dscale y.dscale) := by
  have wellFormedX := storedX.toStripped.wellFormed
  have wellFormedY := storedY.toStripped.wellFormed
  have some : y.digits ≠ [] := fun empty => nonzero (wellFormedY.value_eq_zero.mpr empty)
  obtain ⟨quotient, divided, strippedQ, valueQ, _⟩ :=
    divVar_spec wellFormedX storedY.toStripped some (le_refl 0)
  rw [truncAt_zero] at valueQ
  obtain ⟨product, multiplied, strippedP, valueP, scaleP⟩ := mulVar_exact wellFormedY
    strippedQ.wellFormed (storedY.exact_of_integer strippedQ valueQ)
  obtain ⟨result, subtracted, strippedR, valueR, scaleR⟩ :=
    subVar_spec wellFormedX strippedP.wellFormed
  refine ⟨result, ?_, strippedR, ?_, ?_⟩
  · exact bind_ok.mpr ⟨_, divided, bind_ok.mpr ⟨_, multiplied, subtracted⟩⟩
  · rw [valueR, valueP, valueQ, mul_comm y.value]
  · rw [scaleR, scaleP]

/-- A divisor of zero is refused; otherwise the quotient is truncated at the larger scale, and
the remainder is that of the quotient truncated to an integer. -/
theorem div_mod_exact (x y : Numeric) (storedX : x.Stored) (storedY : y.Stored) :
    (y.value = 0 → x.div y = .error .divisionByZero ∧ x.mod y = .error .divisionByZero) ∧
      (y.value ≠ 0 →
        Returns (x.div y) (truncAt (x.value / y.value) (max x.dscale y.dscale))
            (max x.dscale y.dscale) ∧
          ∃ remainder, x.mod y = .ok remainder ∧ remainder.Stripped ∧
            remainder.value = x.value - trunc (x.value / y.value) * y.value ∧
            |remainder.value| < |y.value| ∧
            (remainder.value = 0 ∨ remainder.sign = x.sign)) := by
  have wellFormedX := storedX.toStripped.wellFormed
  have wellFormedY := storedY.toStripped.wellFormed
  constructor
  · intro zero
    have empty := wellFormedY.value_eq_zero.mp zero
    constructor
    · rw [Numeric.div, divVar, if_pos (Or.inl empty)]
    · rw [Numeric.mod, modVar, divVar, if_pos (Or.inl empty)]
      rfl
  · intro nonzero
    have some : y.digits ≠ [] := fun empty => nonzero (wellFormedY.value_eq_zero.mpr empty)
    constructor
    · exact divVar_spec wellFormedX storedY.toStripped some (le_max_of_le_left storedX.scale)
    · obtain ⟨remainder, run, stripped, value, _⟩ := mod_exact storedX storedY nonzero
      refine ⟨remainder, run, stripped, value, ?_, ?_⟩
      · rw [value]
        exact abs_remainder_lt nonzero
      · apply sign_of_remainder wellFormedX stripped.wellFormed
        · rw [value]
          exact remainder_nonneg nonzero
        · rw [value]
          exact remainder_nonpos nonzero

theorem div_mod_exact_scaled :
    let x : Numeric := ⟨1, [123, 4500], 0, numericPos, 2⟩
    let y : Numeric := ⟨1, [1, 2500], 0, numericNeg, 2⟩
    Returns (x.div y) (truncAt (x.value / y.value) 2) 2 ∧
      ∃ remainder, x.mod y = .ok remainder ∧ remainder.Stripped ∧
        remainder.value = x.value - trunc (x.value / y.value) * y.value ∧
        |remainder.value| < |y.value| ∧
        (remainder.value = 0 ∨ remainder.sign = x.sign) := by
  have valueX : (⟨1, [123, 4500], 0, numericPos, 2⟩ : Numeric).value = 123.45 := by
    norm_num [value, magnitude, Radix.magnitude, nbase, numericPos, numericNeg]
  have valueY : (⟨1, [1, 2500], 0, numericNeg, 2⟩ : Numeric).value = -1.25 := by
    norm_num [value, magnitude, Radix.magnitude, nbase, numericPos, numericNeg]
  refine (div_mod_exact ⟨1, [123, 4500], 0, numericPos, 2⟩ ⟨1, [1, 2500], 0, numericNeg, 2⟩
    ⟨⟨?_, Or.inl rfl, ?_, ?_, ?_⟩, ?_, 12345, ?_⟩
    ⟨⟨?_, Or.inr rfl, ?_, ?_, ?_⟩, ?_, -125, ?_⟩).2 ?_
  · unfold Radix.Digits
    decide
  · decide
  · decide
  · decide
  · decide
  · rw [valueX]
    norm_num
  · unfold Radix.Digits
    decide
  · decide
  · decide
  · decide
  · decide
  · rw [valueY]
    norm_num
  · rw [valueY]
    norm_num

end Numeric

end PqAsync
