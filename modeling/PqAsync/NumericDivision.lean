import PqAsync.NumericScale
import PqAsync.NumericSum

/-!
Division truncates toward zero at the requested scale.
-/

namespace PqAsync

open Results Rounding Numeric

theorem quotient_magnitude {var1 var2 : Numeric} {digits : List Int} {z cut m : Nat}
    (positive : 0 < Radix.number nbase var2.digits) (length : digits.length = m)
    (places : (z : Int) - cut = var2.digits.length - 1 + m - var1.digits.length)
    (quotient : Radix.number nbase digits = Radix.number nbase var1.digits * nbase ^ z /
      (nbase ^ cut * Radix.number nbase var2.digits)) :
    Radix.magnitude nbase digits (var1.weight - var2.weight) =
      floorAt (var1.magnitude / var2.magnitude) (4 * (m - 1 - (var1.weight - var2.weight))) := by
  have cutPos : 0 < nbase ^ cut := pow_pos nbase_pos _
  have baseNonzero : ((nbase : Int) : ℚ) ≠ 0 := nbase_cast_pos.ne'
  have numberNonzero : ((Radix.number nbase var2.digits : Int) : ℚ) ≠ 0 :=
    Int.cast_ne_zero.mpr positive.ne'
  have scaled : var1.magnitude / var2.magnitude *
      10 ^ (4 * ((m : Int) - 1 - (var1.weight - var2.weight))) =
        ((Radix.number nbase var1.digits * nbase ^ z : Int) : ℚ) /
          ((nbase ^ cut * Radix.number nbase var2.digits : Int) : ℚ) := by
    rw [← nbase_zpow, Numeric.magnitude, Numeric.magnitude, Radix.magnitude_eq nbase_ne_zero,
      Radix.magnitude_eq nbase_ne_zero]
    have exponent : (m : Int) - 1 - (var1.weight - var2.weight) =
        z - cut - (var1.weight + 1 - var1.digits.length) + (var2.weight + 1 - var2.digits.length) := by
      rw [places]
      ring
    rw [exponent]
    generalize var1.weight + 1 - var1.digits.length = exponent1
    generalize var2.weight + 1 - var2.digits.length = exponent2
    rw [zpow_add₀ baseNonzero, zpow_sub₀ baseNonzero, zpow_sub₀ baseNonzero, zpow_natCast,
      zpow_natCast]
    push_cast
    field_simp
  rw [floorAt, scaled, floor_intCast_div (mul_pos cutPos positive), ← quotient, magnitude_decimal,
    length]
  congr 2
  ring

theorem divVar_spec {var1 var2 : Numeric} (wellFormed1 : var1.WellFormed) (stripped2 : var2.Stripped)
    (some2 : var2.digits ≠ []) {rscale : Int} (nonneg : 0 ≤ rscale) :
    Returns (divVar var1 var2 rscale false) (truncAt (var1.value / var2.value) rscale) rscale := by
  obtain ⟨divisor1, divisor, split⟩ := List.exists_cons_of_ne_nil some2
  have range2 : Radix.Digits nbase (divisor1 :: divisor) := split ▸ stripped2.digits
  have first : 0 < divisor1 := by
    have leading := stripped2.leading
    rw [split] at leading
    have different : divisor1 ≠ 0 := by
      intro zero
      exact leading (congrArg some zero)
    have own := (Radix.digits_cons.mp range2).1
    omega
  have positive : 0 < Radix.number nbase var2.digits := by
    rw [split]
    exact lt_of_lt_of_le (pow_pos nbase_pos _)
      (Radix.le_number nbase_pos first (Radix.digits_cons.mp range2).2)
  have divisible : ¬(var2.digits = [] ∨ var2.digits.headD 0 = 0) := by
    rw [split]
    simp [first.ne']
  have wellFormed2 := stripped2.wellFormed
  rw [divVar, if_neg divisible]
  by_cases none : var1.ndigits = 0
  · have empty : var1.digits = [] := List.eq_nil_of_length_eq_zero (Int.ofNat_eq_zero.mp none)
    rw [if_pos none, wellFormed1.value_eq_zero.mpr empty, zero_div]
    refine ⟨_, rfl, zeroVar_stripped _, ?_, rfl⟩
    rw [zeroVar_value]
    simp [truncAt, trunc]
  · rw [if_neg none]
    obtain ⟨m, count⟩ : ∃ m : Nat, max (var1.weight - var2.weight + 1 +
        (rscale + decDigits - 1).tdiv decDigits) 1 = m := ⟨_, (Int.toNat_of_nonneg (by omega)).symm⟩
    have enough : rscale ≤ 4 * ((m : Int) - 1 - (var1.weight - var2.weight)) := by
      have rounded := digits_of_scale nonneg
      omega
    obtain ⟨digits, z, cut, run, range, length, places, quotient⟩ :=
      divDigits_spec first range2 wellFormed1.digits m
    rw [← split] at run quotient
    have fine := quotient_magnitude positive length
      (by rw [split, List.length_cons]; omega) quotient
    obtain ⟨cutVar, cutRun, cutRange, cutMagnitude, cutScale, cutSign⟩ := @truncVar_spec
      { spare := 1, digits, weight := var1.weight - var2.weight,
        sign := if var1.sign = var2.sign then numericPos else numericNeg, dscale := 0 } range rscale
    obtain ⟨stripped, value, scale⟩ := stripVar_value cutRange (sign_valid var1 var2) cutSign
    have magnitude : cutVar.magnitude = truncAt (var1.magnitude / var2.magnitude) rscale := by
      have nonnegative := div_nonneg (magnitude_nonneg wellFormed1.digits)
        (magnitude_nonneg wellFormed2.digits)
      have whole : cutVar.magnitude = floorAt (floorAt (var1.magnitude / var2.magnitude)
          (4 * (m - 1 - (var1.weight - var2.weight)))) rscale := by
        rw [cutMagnitude, ← fine]
        rfl
      rw [whole, floorAt_floorAt _ enough, truncAt_of_nonneg nonnegative]
    refine ⟨stripVar cutVar, ?_, stripped, ?_, scale.trans cutScale⟩
    · dsimp only
      rw [count, if_neg Bool.false_ne_true]
      exact bind_ok.mpr ⟨_, run, bind_ok.mpr ⟨_, cutRun, rfl⟩⟩
    · rw [value, magnitude, wellFormed1.value_div wellFormed2]
      by_cases negative : (if var1.sign = var2.sign then numericPos else numericNeg) = numericNeg
      · rw [if_pos negative, if_pos negative, truncAt_neg]
      · rw [if_neg negative, if_neg negative]

end PqAsync
