import PqAsync.NumericValue

/-!
Addition and subtraction are exact. Both loops read the operands through windows that end at the
last place of the result.
-/

namespace PqAsync

/-- The result digits once the loop has gone `n` places on from `resDigits`: these places and
the carry out of them hold `total`. -/
structure Carried (n : Nat) (resDigits digits : List Int) (last total : Int) : Prop where
  range : Radix.Digits nbase digits
  length : digits.length = n + resDigits.length
  sum : Radix.number nbase digits + last * nbase ^ (n + resDigits.length) =
    Radix.number nbase resDigits + nbase ^ resDigits.length * total

theorem Carried.zero {resDigits : List Int} (range : Radix.Digits nbase resDigits) (carry : Int) :
    Carried 0 resDigits resDigits carry carry := by
  refine ⟨range, by omega, ?_⟩
  rw [Nat.zero_add]
  ring

theorem Carried.place {n : Nat} {resDigits digits : List Int} {digit carry last later total : Int}
    (carried : Carried n (digit :: resDigits) digits last (carry + later))
    (split : digit + carry * nbase = total) :
    Carried (n + 1) resDigits digits last (total + nbase * later) := by
  have places : n + 1 + resDigits.length = n + (resDigits.length + 1) := by omega
  obtain ⟨range, length, sum⟩ := carried
  rw [List.length_cons] at length sum
  refine ⟨range, by omega, ?_⟩
  rw [places, sum]
  exact Radix.number_carry split resDigits later

theorem addDigits_spec {digits1 digits2 : List Int} (range1 : Radix.Digits nbase digits1)
    (range2 : Radix.Digits nbase digits2) {n : Nat} {i1 i2 carry last : Int}
    {resDigits digits : List Int} (small : carry = 0 ∨ carry = 1)
    (range : Radix.Digits nbase resDigits)
    (run : addDigits digits1 digits2 n i1 i2 carry resDigits = (digits, last)) :
    (last = 0 ∨ last = 1) ∧ Carried n resDigits digits last
      (carry + (Radix.window nbase digits1 n i1 + Radix.window nbase digits2 n i2)) := by
  induction n generalizing i1 i2 carry resDigits with
  | zero =>
      simp only [addDigits, Prod.mk.injEq] at run
      obtain ⟨same, sameCarry⟩ := run
      rw [← same, ← sameCarry]
      simp only [Radix.window, add_zero]
      exact ⟨small, .zero range carry⟩
  | succ n ih =>
      have base : nbase = 10000 := rfl
      have own1 := Radix.digitAt_range nbase_pos range1 (i1 - 1)
      have own2 := Radix.digitAt_range nbase_pos range2 (i2 - 1)
      rw [addDigits] at run
      rw [Radix.window, Radix.window]
      generalize Radix.digitAt digits1 (i1 - 1) = digit1 at *
      generalize Radix.digitAt digits2 (i2 - 1) = digit2 at *
      have total : carry + (digit1 + nbase * Radix.window nbase digits1 n (i1 - 1) +
            (digit2 + nbase * Radix.window nbase digits2 n (i2 - 1))) =
          carry + digit1 + digit2 + nbase * (Radix.window nbase digits1 n (i1 - 1) +
            Radix.window nbase digits2 n (i2 - 1)) := by ring
      rw [total]
      by_cases large : carry + digit1 + digit2 ≥ nbase
      · rw [if_pos large] at run
        have own : 0 ≤ carry + digit1 + digit2 - nbase ∧ carry + digit1 + digit2 - nbase < nbase := by
          omega
        obtain ⟨lastSmall, carried⟩ := ih (Or.inr rfl) (Radix.digits_cons.mpr ⟨own, range⟩) run
        exact ⟨lastSmall, carried.place (by ring)⟩
      · rw [if_neg large] at run
        have own : 0 ≤ carry + digit1 + digit2 ∧ carry + digit1 + digit2 < nbase := by omega
        obtain ⟨lastSmall, carried⟩ := ih (Or.inl rfl) (Radix.digits_cons.mpr ⟨own, range⟩) run
        exact ⟨lastSmall, carried.place (by ring)⟩

theorem subDigits_spec {digits1 digits2 : List Int} (range1 : Radix.Digits nbase digits1)
    (range2 : Radix.Digits nbase digits2) {n : Nat} {i1 i2 borrow last : Int}
    {resDigits digits : List Int} (small : borrow = 0 ∨ borrow = -1)
    (range : Radix.Digits nbase resDigits)
    (run : subDigits digits1 digits2 n i1 i2 borrow resDigits = (digits, last)) :
    (last = 0 ∨ last = -1) ∧ Carried n resDigits digits last
      (borrow + (Radix.window nbase digits1 n i1 - Radix.window nbase digits2 n i2)) := by
  induction n generalizing i1 i2 borrow resDigits with
  | zero =>
      simp only [subDigits, Prod.mk.injEq] at run
      obtain ⟨same, sameBorrow⟩ := run
      rw [← same, ← sameBorrow]
      simp only [Radix.window, sub_zero, add_zero]
      exact ⟨small, .zero range borrow⟩
  | succ n ih =>
      have base : nbase = 10000 := rfl
      have own1 := Radix.digitAt_range nbase_pos range1 (i1 - 1)
      have own2 := Radix.digitAt_range nbase_pos range2 (i2 - 1)
      rw [subDigits] at run
      rw [Radix.window, Radix.window]
      generalize Radix.digitAt digits1 (i1 - 1) = digit1 at *
      generalize Radix.digitAt digits2 (i2 - 1) = digit2 at *
      have total : borrow + (digit1 + nbase * Radix.window nbase digits1 n (i1 - 1) -
            (digit2 + nbase * Radix.window nbase digits2 n (i2 - 1))) =
          borrow + digit1 - digit2 + nbase * (Radix.window nbase digits1 n (i1 - 1) -
            Radix.window nbase digits2 n (i2 - 1)) := by ring
      rw [total]
      by_cases below : borrow + digit1 - digit2 < 0
      · rw [if_pos below] at run
        have own : 0 ≤ borrow + digit1 - digit2 + nbase ∧
            borrow + digit1 - digit2 + nbase < nbase := by omega
        obtain ⟨lastSmall, carried⟩ := ih (Or.inr rfl) (Radix.digits_cons.mpr ⟨own, range⟩) run
        exact ⟨lastSmall, carried.place (by ring)⟩
      · rw [if_neg below] at run
        have own : 0 ≤ borrow + digit1 - digit2 ∧ borrow + digit1 - digit2 < nbase := by omega
        obtain ⟨lastSmall, carried⟩ := ih (Or.inl rfl) (Radix.digits_cons.mpr ⟨own, range⟩) run
        exact ⟨lastSmall, carried.place (by ring)⟩

theorem aligned_end (var : Numeric) {scale : Int} (below : var.ndigits - var.weight - 1 ≤ scale) :
    ∃ k : Nat, scale + var.weight + 1 = var.digits.length + (k : Int) ∧
      var.magnitude =
        (Radix.number nbase var.digits * nbase ^ k : Int) * (nbase : ℚ) ^ (-scale) := by
  rw [Numeric.ndigits] at below
  refine ⟨(scale + var.weight + 1 - var.digits.length).toNat, by omega, ?_⟩
  rw [Numeric.magnitude, Radix.magnitude_shift nbase_ne_zero _ _
    (scale + var.weight + 1 - var.digits.length).toNat]
  congr 2
  omega

theorem aligned_lt {digits : List Int} (range : Radix.Digits nbase digits) (k : Nat) :
    Radix.number nbase digits * nbase ^ k < nbase ^ (digits.length + k) := by
  rw [pow_add]
  exact mul_lt_mul_of_pos_right (Radix.number_lt nbase_pos range) (pow_pos nbase_pos k)

def SumOf (result : Except NumericError Numeric) (magnitude : ℚ) (dscale : Int) : Prop :=
  ∃ var, result = .ok var ∧ var.Stripped ∧ var.magnitude = magnitude ∧ var.dscale = dscale

theorem sumOf_strip {digits : List Int} (range : Radix.Digits nbase digits) {weight scale : Int}
    (length : (digits.length : Int) = scale + weight + 1) (dscale : Int) :
    SumOf (.ok (stripVar { spare := 1, digits, weight, sign := numericPos, dscale }))
      (Radix.number nbase digits * (nbase : ℚ) ^ (-scale)) dscale := by
  obtain ⟨stripped, same, sameScale, _⟩ := stripVar_spec
    { spare := 1, digits, weight, sign := numericPos, dscale } range (Or.inl rfl)
  refine ⟨_, rfl, stripped, ?_, sameScale⟩
  rw [same, Numeric.magnitude, Radix.magnitude_eq nbase_ne_zero, length]
  congr 2
  ring

theorem addAbs_spec {var1 var2 : Numeric} (range1 : Radix.Digits nbase var1.digits)
    (range2 : Radix.Digits nbase var2.digits) :
    SumOf (addAbs var1 var2) (var1.magnitude + var2.magnitude) (max var1.dscale var2.dscale) := by
  rw [addAbs]
  dsimp only
  obtain ⟨k1, end1, value1⟩ := aligned_end var1
    (le_max_left (var1.ndigits - var1.weight - 1) (var2.ndigits - var2.weight - 1))
  obtain ⟨k2, end2, value2⟩ := aligned_end var2
    (le_max_right (var1.ndigits - var1.weight - 1) (var2.ndigits - var2.weight - 1))
  generalize max (var1.ndigits - var1.weight - 1) (var2.ndigits - var2.weight - 1) = scale at *
  obtain ⟨n, places⟩ : ∃ n : Nat, scale + (max var1.weight var2.weight + 1) + 1 = n + 1 :=
    ⟨(scale + max var1.weight var2.weight + 1).toNat, by omega⟩
  have count : ((n : Int) + 1).toNat = n + 1 := by omega
  rw [places, if_neg (by omega), end1, end2, count]
  have whole1 : var1.digits.length + k1 ≤ n := by omega
  have whole2 : var2.digits.length + k2 ≤ n := by omega
  have small1 := lt_of_lt_of_le (aligned_lt range1 k1) (pow_le_pow_right₀ nbase_pos whole1)
  have small2 := lt_of_lt_of_le (aligned_lt range2 k2) (pow_le_pow_right₀ nbase_pos whole2)
  have place : 0 < nbase ^ n := pow_pos nbase_pos n
  have more : nbase ^ (n + 1) = 10000 * nbase ^ n := pow_succ' nbase n
  have fits1 : Radix.number nbase var1.digits * nbase ^ k1 < nbase ^ (n + 1) := by omega
  have fits2 : Radix.number nbase var2.digits * nbase ^ k2 < nbase ^ (n + 1) := by omega
  cases run : addDigits var1.digits var2.digits (n + 1) (var1.digits.length + k1)
      (var2.digits.length + k2) 0 [] with
  | mk digits last =>
      obtain ⟨lastSmall, range, length, sum⟩ :=
        addDigits_spec range1 range2 (Or.inl rfl) Radix.Digits.nil run
      rw [Radix.window_eq_number nbase_pos range1 fits1,
        Radix.window_eq_number nbase_pos range2 fits2] at sum
      simp only [List.length_nil, Nat.add_zero, Radix.number_nil, pow_zero, zero_add, one_mul]
        at length sum
      have low := Radix.number_nonneg nbase_pos range
      have noCarry : last = 0 := by
        rcases lastSmall with zero | one
        · exact zero
        · rw [one] at sum
          omega
      rw [noCarry, zero_mul, add_zero] at sum
      rw [value1, value2, ← add_mul, ← Int.cast_add, ← sum, noCarry]
      exact sumOf_strip range (by omega) _

theorem subAbs_spec {var1 var2 : Numeric} (range1 : Radix.Digits nbase var1.digits)
    (range2 : Radix.Digits nbase var2.digits) (order : var2.magnitude < var1.magnitude) :
    SumOf (subAbs var1 var2) (var1.magnitude - var2.magnitude) (max var1.dscale var2.dscale) := by
  rw [subAbs]
  dsimp only
  obtain ⟨k1, end1, value1⟩ := aligned_end var1
    (le_max_left (var1.ndigits - var1.weight - 1) (var2.ndigits - var2.weight - 1))
  obtain ⟨k2, end2, value2⟩ := aligned_end var2
    (le_max_right (var1.ndigits - var1.weight - 1) (var2.ndigits - var2.weight - 1))
  generalize max (var1.ndigits - var1.weight - 1) (var2.ndigits - var2.weight - 1) = scale at *
  have place : (0 : ℚ) < (nbase : ℚ) ^ (-scale) := zpow_pos nbase_cast_pos _
  have less : Radix.number nbase var2.digits * nbase ^ k2 <
      Radix.number nbase var1.digits * nbase ^ k1 := by
    rw [value1, value2] at order
    exact_mod_cast lt_of_mul_lt_mul_right order place.le
  have low2 : 0 ≤ Radix.number nbase var2.digits * nbase ^ k2 :=
    mul_nonneg (Radix.number_nonneg nbase_pos range2) (pow_pos nbase_pos k2).le
  have some1 : var1.digits.length ≠ 0 := by
    intro empty
    rw [List.eq_nil_of_length_eq_zero empty, Radix.number_nil, zero_mul] at less
    omega
  have count : ((var1.digits.length : Int) + k1).toNat = var1.digits.length + k1 := by omega
  rw [end1, if_neg (by omega), end2, count]
  have fits1 := aligned_lt range1 k1
  have fits2 := less.trans fits1
  cases run : subDigits var1.digits var2.digits (var1.digits.length + k1)
      (var1.digits.length + k1) (var2.digits.length + k2) 0 [] with
  | mk digits last =>
      obtain ⟨lastSmall, range, length, sum⟩ :=
        subDigits_spec range1 range2 (Or.inl rfl) Radix.Digits.nil run
      rw [Radix.window_eq_number nbase_pos range1 fits1,
        Radix.window_eq_number nbase_pos range2 fits2] at sum
      simp only [List.length_nil, Nat.add_zero, Radix.number_nil, pow_zero, zero_add, one_mul]
        at length sum
      have high := Radix.number_lt nbase_pos range
      rw [length] at high
      have noBorrow : last = 0 := by
        rcases lastSmall with zero | one
        · exact zero
        · rw [one] at sum
          omega
      rw [noBorrow, zero_mul, add_zero] at sum
      rw [value1, value2, ← sub_mul, ← Int.cast_sub, ← sum, noBorrow]
      exact sumOf_strip range (by omega) _

namespace Numeric

/-- A call that returns a well-formed numeric of this value and scale. -/
def Returns (result : Except NumericError Numeric) (value : ℚ) (dscale : Int) : Prop :=
  ∃ var, result = .ok var ∧ var.Stripped ∧ var.value = value ∧ var.dscale = dscale

end Numeric

open Numeric

theorem SumOf.withSign {result : Except NumericError Numeric} {magnitude : ℚ} {dscale : Int}
    (sum : SumOf result magnitude dscale) {sign : Int} (positive : sign = numericPos ∨ 0 < magnitude)
    (valid : sign = numericPos ∨ sign = numericNeg) :
    Returns (do let var ← result; return { var with sign })
      (if sign = numericNeg then -magnitude else magnitude) dscale := by
  obtain ⟨var, run, stripped, same, scale⟩ := sum
  rw [run]
  refine ⟨{ var with sign }, rfl, ?_, ?_, scale⟩
  · refine ⟨stripped.digits, valid, stripped.leading, stripped.trailing, ?_⟩
    intro empty
    refine ⟨(stripped.zero empty).1, ?_⟩
    rcases positive with positive | positive
    · exact positive
    · have zero : var.magnitude = 0 := magnitude_of_nil empty
      rw [← same, zero] at positive
      exact absurd positive (lt_irrefl 0)
  · rw [← same]
    rfl

theorem subBySize_spec {var1 var2 : Numeric} (range1 : Radix.Digits nbase var1.digits)
    (range2 : Radix.Digits nbase var2.digits) {signGreater signLess : Int}
    (signs : (signGreater = numericPos ∧ signLess = numericNeg) ∨
      (signGreater = numericNeg ∧ signLess = numericPos)) :
    Returns (subBySize var1 var2 signGreater signLess)
      (if signGreater = numericNeg then -(var1.magnitude - var2.magnitude)
        else var1.magnitude - var2.magnitude) (max var1.dscale var2.dscale) := by
  have signs12 : numericPos ≠ numericNeg := by decide
  rw [subBySize]
  rcases cmpAbs_spec range1 range2 with ⟨stat, order⟩ | ⟨stat, order⟩ | ⟨stat, order⟩
  · rw [stat, if_neg (by decide), if_pos rfl]
    exact (subAbs_spec range1 range2 order).withSign (Or.inr (sub_pos.mpr order)) (by tauto)
  · rw [stat, if_pos rfl, order, sub_self, neg_zero, ite_self]
    exact ⟨_, rfl, zeroVar_stripped _, zeroVar_value _, rfl⟩
  · rw [stat, if_neg (by decide), if_neg (by decide), max_comm]
    have swapped := (subAbs_spec range2 range1 order).withSign
      (Or.inr (sub_pos.mpr order)) (show signLess = numericPos ∨ signLess = numericNeg by tauto)
    rcases signs with ⟨greater, less⟩ | ⟨greater, less⟩
    · rw [less, if_pos rfl, neg_sub] at swapped
      rw [greater, less, if_neg signs12]
      exact swapped
    · rw [less, if_neg signs12] at swapped
      rw [greater, less, if_pos rfl, neg_sub]
      exact swapped

theorem addAbs_pos {var1 var2 : Numeric} (range1 : Radix.Digits nbase var1.digits)
    (range2 : Radix.Digits nbase var2.digits) :
    Returns (do let result ← addAbs var1 var2; return { result with sign := numericPos })
      (var1.magnitude + var2.magnitude) (max var1.dscale var2.dscale) :=
  (addAbs_spec range1 range2).withSign (Or.inl rfl) (Or.inl rfl)

theorem addAbs_neg {var1 var2 : Numeric} (range1 : Radix.Digits nbase var1.digits)
    (range2 : Radix.Digits nbase var2.digits) (nonzero : 0 < var1.magnitude) :
    Returns (do let result ← addAbs var1 var2; return { result with sign := numericNeg })
      (-(var1.magnitude + var2.magnitude)) (max var1.dscale var2.dscale) := by
  have positive := add_pos_of_pos_of_nonneg nonzero (magnitude_nonneg range2)
  exact (addAbs_spec range1 range2).withSign (Or.inr positive) (Or.inr rfl)

theorem addVar_spec {var1 var2 : Numeric} (wellFormed1 : var1.WellFormed)
    (wellFormed2 : var2.WellFormed) :
    Returns (addVar var1 var2) (var1.value + var2.value) (max var1.dscale var2.dscale) := by
  have different : numericNeg ≠ numericPos := by decide
  have pos := @subBySize_spec _ _ wellFormed1.digits wellFormed2.digits _ _ (Or.inl ⟨rfl, rfl⟩)
  have neg := @subBySize_spec _ _ wellFormed1.digits wellFormed2.digits _ _ (Or.inr ⟨rfl, rfl⟩)
  rw [if_neg different.symm] at pos
  rw [if_pos rfl, neg_sub] at neg
  rw [addVar]
  rcases wellFormed1.sign with sign1 | sign1
  · rw [if_pos sign1, value_of_pos sign1]
    rcases wellFormed2.sign with sign2 | sign2
    · rw [if_pos sign2, value_of_pos sign2]
      exact addAbs_pos wellFormed1.digits wellFormed2.digits
    · rw [sign2, if_neg different, value_of_neg sign2, ← sub_eq_add_neg]
      exact pos
  · rw [sign1, if_neg different, value_of_neg sign1]
    rcases wellFormed2.sign with sign2 | sign2
    · rw [if_pos sign2, value_of_pos sign2, neg_add_eq_sub]
      exact neg
    · rw [sign2, if_neg different, value_of_neg sign2, ← neg_add]
      exact addAbs_neg wellFormed1.digits wellFormed2.digits (wellFormed1.pos_of_neg sign1)

theorem subVar_spec {var1 var2 : Numeric} (wellFormed1 : var1.WellFormed)
    (wellFormed2 : var2.WellFormed) :
    Returns (subVar var1 var2) (var1.value - var2.value) (max var1.dscale var2.dscale) := by
  have different : numericPos ≠ numericNeg := by decide
  have pos := @subBySize_spec _ _ wellFormed1.digits wellFormed2.digits _ _ (Or.inl ⟨rfl, rfl⟩)
  have neg := @subBySize_spec _ _ wellFormed1.digits wellFormed2.digits _ _ (Or.inr ⟨rfl, rfl⟩)
  rw [if_neg different] at pos
  rw [if_pos rfl, neg_sub] at neg
  rw [subVar]
  rcases wellFormed1.sign with sign1 | sign1
  · rw [if_pos sign1, value_of_pos sign1]
    rcases wellFormed2.sign with sign2 | sign2
    · rw [sign2, if_neg different, value_of_pos sign2]
      exact pos
    · rw [if_pos sign2, value_of_neg sign2, sub_neg_eq_add]
      exact addAbs_pos wellFormed1.digits wellFormed2.digits
  · rw [sign1, if_neg different.symm, value_of_neg sign1]
    rcases wellFormed2.sign with sign2 | sign2
    · rw [sign2, if_neg different, value_of_pos sign2, ← neg_add']
      exact addAbs_neg wellFormed1.digits wellFormed2.digits (wellFormed1.pos_of_neg sign1)
    · rw [if_pos sign2, value_of_neg sign2, sub_neg_eq_add, neg_add_eq_sub]
      exact neg

namespace Numeric

/-- Addition and subtraction return the exact sum and difference, without outer zeros and with
the larger display scale. -/
theorem add_sub_exact (x y : Numeric) (wellFormedX : x.WellFormed) (wellFormedY : y.WellFormed) :
    Returns (x.add y) (x.value + y.value) (max x.dscale y.dscale) ∧
      Returns (x.sub y) (x.value - y.value) (max x.dscale y.dscale) :=
  ⟨addVar_spec wellFormedX wellFormedY, subVar_spec wellFormedX wellFormedY⟩

theorem add_sub_exact_carried :
    let x : Numeric := ⟨1, [9999, 5000], 0, numericPos, 1⟩
    let y : Numeric := ⟨1, [5000, 1], -1, numericPos, 8⟩
    Returns (x.add y) (x.value + y.value) 8 ∧ Returns (x.sub y) (x.value - y.value) 8 := by
  refine add_sub_exact ⟨1, [9999, 5000], 0, numericPos, 1⟩ ⟨1, [5000, 1], -1, numericPos, 8⟩
    ⟨?_, Or.inl rfl, ?_⟩ ⟨?_, Or.inl rfl, ?_⟩
  · unfold Radix.Digits
    decide
  · decide
  · unfold Radix.Digits
    decide
  · decide

end Numeric

end PqAsync
