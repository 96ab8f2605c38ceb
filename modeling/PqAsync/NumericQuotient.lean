import PqAsync.Library.LongDivision
import PqAsync.Library.Results
import PqAsync.NumericValue

/-!
The digits of a quotient. Each loop of the division gets one equation about the numbers that it
reads and writes; no digit arithmetic overflows and no assertion fails.
-/

namespace PqAsync

open Results

theorem nbase_eq : nbase = 10000 := rfl

theorem int32_ok {x : Int} (low : -2147483648 ≤ x) (high : x ≤ 2147483647) : int32 x = .ok x := by
  rw [int32, if_pos]
  constructor
  · norm_num
    exact low
  · norm_num
    omega

theorem assertThat_ok {condition : Bool} (holds : condition = true) :
    assertThat condition = .ok () := by
  rw [assertThat, if_pos holds]

theorem product_range {x y X Y : Int} (left : 0 ≤ x ∧ x ≤ X) (right : 0 ≤ y ∧ y ≤ Y) :
    0 ≤ x * y ∧ x * y ≤ X * Y :=
  ⟨mul_nonneg left.1 right.1, mul_le_mul left.2 right.2 right.1 (left.1.trans left.2)⟩

theorem digit_product {x y : Int} (left : 0 ≤ x ∧ x < nbase) (right : 0 ≤ y ∧ y < nbase) :
    0 ≤ x * y ∧ x * y ≤ 99980001 := by
  rw [nbase_eq] at left right
  exact product_range (show 0 ≤ x ∧ x ≤ 9999 by omega) (show 0 ≤ y ∧ y ≤ 9999 by omega)

section ShortDivision

theorem shortDivision_spec {divisor1 carry : Int} {dividend : List Int} (high : divisor1 < nbase)
    (range : Radix.Digits nbase dividend) (carryRange : 0 ≤ carry ∧ carry < divisor1) :
    ∃ digits, shortDivision divisor1 dividend carry = .ok digits ∧ Radix.Digits nbase digits ∧
      digits.length = dividend.length ∧
      Radix.number nbase digits =
        (carry * nbase ^ dividend.length + Radix.number nbase dividend) / divisor1 := by
  have positive : 0 < divisor1 := by omega
  induction dividend generalizing carry with
  | nil =>
      refine ⟨[], rfl, Radix.Digits.nil, rfl, ?_⟩
      simp [Int.ediv_eq_zero_of_lt carryRange.1 carryRange.2]
  | cons digit dividend ih =>
      obtain ⟨own, rest⟩ := Radix.digits_cons.mp range
      rw [nbase_eq] at high own
      have total : 0 ≤ carry * nbase + digit := by
        rw [nbase_eq]
        omega
      have small : carry * nbase + digit < nbase * divisor1 := by
        rw [nbase_eq]
        omega
      have next := Radix.emod_range positive (carry * nbase + digit)
      obtain ⟨digits, run, digitsRange, length, quotient⟩ := ih rest next
      have first : 0 ≤ (carry * nbase + digit) / divisor1 ∧
          (carry * nbase + digit) / divisor1 < nbase := by
        exact ⟨Int.ediv_nonneg total positive.le, Int.ediv_lt_of_lt_mul positive small⟩
      rw [← Int.tmod_eq_emod_of_nonneg total] at run
      refine ⟨(carry * nbase + digit) / divisor1 :: digits, ?_,
        Radix.digits_cons.mpr ⟨first, digitsRange⟩, by simp [length], ?_⟩
      · rw [← Int.tdiv_eq_ediv_of_nonneg total]
        refine bind_ok.mpr ⟨carry * nbase, int32_ok ?_ ?_, bind_ok.mpr ⟨carry * nbase + digit,
          int32_ok ?_ ?_, bind_ok.mpr ⟨digits, run, rfl⟩⟩⟩
        all_goals rw [nbase_eq]; omega
      · rw [Radix.number_cons, quotient, length, List.length_cons, Radix.number_cons,
          ← Radix.quotient_continue positive]
        congr 1
        ring

end ShortDivision

section Scaling

theorem scaleDigits_spec {d : Int} {digits : List Int} (factor : 0 ≤ d ∧ d ≤ 5000)
    (range : Radix.Digits nbase digits) :
    ∃ scaled carry, scaleDigits d digits = .ok (scaled, carry) ∧ Radix.Digits nbase scaled ∧
      scaled.length = digits.length ∧ 0 ≤ carry ∧ carry ≤ 5000 ∧
      Radix.number nbase scaled + carry * nbase ^ digits.length =
        d * Radix.number nbase digits := by
  induction digits with
  | nil => exact ⟨[], 0, rfl, Radix.Digits.nil, rfl, le_refl 0, by decide, by simp⟩
  | cons digit digits ih =>
      obtain ⟨own, rest⟩ := Radix.digits_cons.mp range
      obtain ⟨scaled, carry, run, scaledRange, length, carryLow, carryHigh, product⟩ := ih rest
      have below : digit ≤ 9999 := by
        rw [nbase_eq] at own
        omega
      obtain ⟨productLow, productHigh⟩ := product_range ⟨own.1, below⟩ factor
      have total : 0 ≤ carry + digit * d := by omega
      have splitTotal := Int.mul_ediv_add_emod (carry + digit * d) nbase
      have first := Radix.emod_range nbase_pos (carry + digit * d)
      refine ⟨(carry + digit * d) % nbase :: scaled, (carry + digit * d) / nbase, ?_,
        Radix.digits_cons.mpr ⟨first, scaledRange⟩, by simp [length], ?_, ?_, ?_⟩
      · rw [← Int.tdiv_eq_ediv_of_nonneg total, ← Int.tmod_eq_emod_of_nonneg total]
        exact bind_ok.mpr ⟨(scaled, carry), run, bind_ok.mpr ⟨digit * d,
          int32_ok (by omega) (by omega), bind_ok.mpr ⟨carry + digit * d,
          int32_ok (by omega) (by omega), rfl⟩⟩⟩
      · exact Int.ediv_nonneg total nbase_pos.le
      · rw [nbase_eq]
        omega
      · rw [Radix.number_cons, Radix.number_cons, List.length_cons, length]
        linear_combination product + nbase ^ digits.length * splitTotal

theorem scaleDigits_exact {d : Int} {digits : List Int} (factor : 0 ≤ d ∧ d ≤ 5000)
    (range : Radix.Digits nbase digits)
    (fits : d * Radix.number nbase digits < nbase ^ digits.length) :
    ∃ scaled, scaleDigits d digits = .ok (scaled, 0) ∧ Radix.Digits nbase scaled ∧
      scaled.length = digits.length ∧
      Radix.number nbase scaled = d * Radix.number nbase digits := by
  obtain ⟨scaled, carry, run, scaledRange, length, carryLow, _, product⟩ :=
    scaleDigits_spec factor range
  have low := Radix.number_nonneg nbase_pos scaledRange
  have noCarry := Radix.carry_eq_zero carryLow nbase_pos (by omega) fits
  rw [noCarry, zero_mul, add_zero] at product
  rw [noCarry] at run
  exact ⟨scaled, run, scaledRange, length, product⟩

theorem scaleOperands_spec {divisor1 : Int} {divisor digits1 : List Int} (first : 0 < divisor1)
    (range : Radix.Digits nbase (divisor1 :: divisor)) (range1 : Radix.Digits nbase digits1)
    (z : Nat) :
    ∃ d top lower dividend, 0 < d ∧ 0 < top ∧
      scaleOperands digits1.length (divisor1 :: divisor) (0 :: (digits1 ++ List.replicate z 0)) =
        .ok (0 :: top :: lower, dividend) ∧
      Radix.Digits nbase (top :: lower) ∧ Radix.Digits nbase dividend ∧
      lower.length = divisor.length ∧ dividend.length = digits1.length + z + 1 ∧
      Radix.number nbase (top :: lower) = d * Radix.number nbase (divisor1 :: divisor) ∧
      Radix.number nbase dividend = d * (Radix.number nbase digits1 * nbase ^ z) := by
  obtain ⟨own, others⟩ := Radix.digits_cons.mp range
  have zeros := Radix.digits_replicate_zero nbase_pos z
  have dividendEq : Radix.number nbase (0 :: (digits1 ++ List.replicate z 0)) =
      Radix.number nbase digits1 * nbase ^ z := by
    rw [Radix.number_zero_cons, Radix.number_append, Radix.number_replicate_zero,
      List.length_replicate, add_zero]
  by_cases small : divisor1 < halfNbase
  · have scaleEq : nbase.tdiv (divisor1 + 1) = nbase / (divisor1 + 1) :=
      Int.tdiv_eq_ediv_of_nonneg nbase_pos.le
    have factorLow := Radix.one_le_factor own.1 own.2
    have half := Radix.half_le_scaled (show 1 ≤ divisor1 from first) own.2
    have divisorHigh : Radix.number nbase (divisor1 :: divisor) <
        (divisor1 + 1) * nbase ^ divisor.length := by
      have rest := Radix.number_lt nbase_pos others
      rw [Radix.number_cons]
      linarith
    have divisorFits := Radix.scaled_lt own.1 own.2 divisorHigh (pow_pos nbase_pos _).le
    have factorHigh : nbase / (divisor1 + 1) ≤ 5000 := by
      have whole := Int.ediv_mul_le nbase (show divisor1 + 1 ≠ 0 by omega)
      have double := mul_le_mul_of_nonneg_left (show 2 ≤ divisor1 + 1 by omega)
        (show 0 ≤ nbase / (divisor1 + 1) by omega)
      rw [nbase_eq] at *
      omega
    generalize nbase / (divisor1 + 1) = d at *
    have factor : 0 ≤ d ∧ d ≤ 5000 := ⟨by omega, factorHigh⟩
    have frontRange : Radix.Digits nbase (0 :: digits1) :=
      Radix.digits_cons.mpr ⟨⟨le_refl 0, nbase_pos⟩, range1⟩
    have frontFits : d * Radix.number nbase (0 :: digits1) < nbase ^ (0 :: digits1).length := by
      rw [Radix.number_zero_cons, List.length_cons, pow_succ']
      refine mul_lt_mul'' ?_ (Radix.number_lt nbase_pos range1) factor.1
        (Radix.number_nonneg nbase_pos range1)
      rw [nbase_eq]
      omega
    obtain ⟨scaled, scaledRun, scaledRange, scaledLength, scaledEq⟩ :=
      scaleDigits_exact factor range (by rw [List.length_cons, pow_succ']; exact divisorFits)
    obtain ⟨front, frontRun, frontScaled, frontLength, frontEq⟩ :=
      scaleDigits_exact factor frontRange frontFits
    cases scaled with
    | nil => simp at scaledLength
    | cons top lower =>
        have lowerLength : lower.length = divisor.length := by simpa using scaledLength
        have large : halfNbase ≤ top := by
          have halfTop : d * divisor1 ≤ top := by
            refine Radix.le_head_of_le_number nbase_pos (Radix.digits_cons.mp scaledRange).2 ?_
            have rest := Radix.number_nonneg nbase_pos others
            have product := mul_nonneg factor.1 rest
            rw [scaledEq, Radix.number_cons, lowerLength]
            linarith
          rw [nbase_eq] at half
          rw [halfNbase]
          omega
        have taken : (0 :: (digits1 ++ List.replicate z 0)).take (digits1.length + 1) =
            0 :: digits1 := by simp
        have dropped : (0 :: (digits1 ++ List.replicate z 0)).drop (digits1.length + 1) =
            List.replicate z 0 := by simp
        refine ⟨d, top, lower, front ++ List.replicate z 0, by omega, ?_, ?_, scaledRange,
          Radix.digits_append.mpr ⟨frontScaled, zeros⟩, lowerLength, ?_, scaledEq, ?_⟩
        · rw [halfNbase] at large
          omega
        · rw [scaleOperands]
          refine (if_pos small).trans ?_
          simp only [List.headD_cons, taken, dropped, scaleEq]
          exact bind_ok.mpr ⟨_, scaledRun, bind_ok.mpr ⟨_, assertThat_ok (decide_eq_true rfl),
            bind_ok.mpr ⟨_, frontRun, bind_ok.mpr ⟨_, assertThat_ok (decide_eq_true rfl),
            bind_ok.mpr ⟨_, assertThat_ok (decide_eq_true large), rfl⟩⟩⟩⟩⟩
        · rw [List.length_append, frontLength, List.length_replicate, List.length_cons]
          omega
        · rw [Radix.number_append, Radix.number_replicate_zero, List.length_replicate, frontEq,
            Radix.number_zero_cons, add_zero, mul_assoc]
  · refine ⟨1, divisor1, divisor, 0 :: (digits1 ++ List.replicate z 0), one_pos, first, ?_, range, ?_, rfl, ?_, (one_mul _).symm, ?_⟩
    · rw [scaleOperands]
      exact if_neg small
    · exact Radix.digits_cons.mpr ⟨⟨le_refl 0, nbase_pos⟩, Radix.digits_append.mpr ⟨range1, zeros⟩⟩
    · simp
    · rw [dividendEq, one_mul]

end Scaling

section Estimate

theorem qhatTooLarge_spec {divisor1 divisor2 next2digits third qhat : Int}
    (digit1 : 0 ≤ divisor1 ∧ divisor1 < nbase) (digit2 : 0 ≤ divisor2 ∧ divisor2 < nbase)
    (digit3 : 0 ≤ third ∧ third < nbase) (small : 0 ≤ qhat ∧ qhat < nbase)
    (low : 0 ≤ next2digits - qhat * divisor1) (high : next2digits - qhat * divisor1 < 20000) :
    qhatTooLarge divisor1 divisor2 next2digits third qhat =
      .ok (decide (next2digits * nbase + third < qhat * (divisor1 * nbase + divisor2))) := by
  obtain ⟨leftLow, leftHigh⟩ := digit_product digit2 small
  obtain ⟨productLow, productHigh⟩ := digit_product small digit1
  rw [nbase_eq] at *
  have same : divisor2 * qhat > (next2digits - qhat * divisor1) * nbase + third ↔
      next2digits * 10000 + third < qhat * (divisor1 * 10000 + divisor2) := by
    rw [nbase_eq]
    constructor
    · intro larger
      linarith
    · intro larger
      linarith
  rw [← decide_eq_decide.mpr same]
  rw [qhatTooLarge]
  refine bind_ok.mpr ⟨_, int32_ok ?_ ?_, bind_ok.mpr ⟨_, int32_ok ?_ ?_, bind_ok.mpr ⟨_,
    int32_ok ?_ ?_, bind_ok.mpr ⟨_, int32_ok ?_ ?_, bind_ok.mpr ⟨_, int32_ok ?_ ?_, rfl⟩⟩⟩⟩⟩
  all_goals
    try rw [nbase_eq]
    omega

theorem adjustQhat_spec {divisor1 divisor2 next2digits third : Int}
    (digit1 : 0 ≤ divisor1 ∧ divisor1 < nbase) (digit2 : 0 ≤ divisor2 ∧ divisor2 < nbase)
    (digit3 : 0 ≤ third ∧ third < nbase) {qhat : Nat} (small : (qhat : Int) < nbase)
    (low : 0 ≤ next2digits - qhat * divisor1) (high : next2digits - qhat * divisor1 < 20000)
    {q : Int} (nonneg : 0 ≤ q) (fits : q * (divisor1 * nbase + divisor2) ≤ next2digits * nbase + third)
    (above : q ≤ qhat) :
    ∃ adjusted : Nat, adjustQhat divisor1 divisor2 next2digits third qhat = .ok adjusted ∧
      q ≤ adjusted ∧ adjusted ≤ qhat ∧
      adjusted * (divisor1 * nbase + divisor2) ≤ next2digits * nbase + third := by
  induction qhat with
  | zero =>
      have test := qhatTooLarge_spec digit1 digit2 digit3 (⟨le_refl 0, nbase_pos⟩) (by simpa using low)
        (by simpa using high)
      have zero : q = 0 := by omega
      rw [zero] at fits
      refine ⟨0, bind_ok.mpr ⟨_, test, ?_⟩, by omega, le_refl 0, by simpa using fits⟩
      rw [if_neg]
      simpa using fits
  | succ qhat ih =>
      have test := qhatTooLarge_spec digit1 digit2 digit3 (⟨by omega, small⟩) low high
      by_cases large : next2digits * nbase + third <
          (qhat + 1 : Nat) * (divisor1 * nbase + divisor2)
      · have different : q ≠ (qhat + 1 : Nat) := by
          intro same
          rw [same] at fits
          omega
        -- the remainder of an estimate that is too large is below the base
        obtain ⟨_, productHigh⟩ := digit_product
          (show 0 ≤ ((qhat + 1 : Nat) : Int) ∧ _ from ⟨Int.natCast_nonneg _, small⟩) digit2
        have remainder : (next2digits - (qhat + 1 : Nat) * divisor1) * nbase <
            (qhat + 1 : Nat) * divisor2 := by linarith
        have step : next2digits - (qhat : Int) * divisor1 =
            next2digits - (qhat + 1 : Nat) * divisor1 + divisor1 := by
          push_cast
          ring
        rw [nbase_eq] at remainder small digit1
        obtain ⟨adjusted, run, notBelow, notAbove, within⟩ :=
          ih (by rw [nbase_eq]; omega) (by omega) (by omega) (by omega)
        refine ⟨adjusted, bind_ok.mpr ⟨_, test, ?_⟩, notBelow, by omega, within⟩
        rw [if_pos (by simpa using large)]
        exact run
      · refine ⟨qhat + 1, bind_ok.mpr ⟨_, test, ?_⟩, above, le_refl _, by omega⟩
        rw [if_neg (by simpa using large)]

end Estimate

section MultiplySubtract

/-- What the subtraction of `qhat` times the divisor leaves on the places of the divisor. The
carry alone is bounded by the product. -/
theorem multiplySubtract_spec {qhat : Int} (small : 0 ≤ qhat ∧ qhat < nbase)
    {divisor dividend : List Int} (range : Radix.Digits nbase divisor)
    (dividendRange : Radix.Digits nbase dividend) (length : divisor.length ≤ dividend.length) :
    ∃ rest carry borrow, multiplySubtract qhat divisor dividend = .ok (rest, carry, borrow) ∧
      Radix.Digits nbase rest ∧ rest.length = dividend.length ∧
      rest.drop divisor.length = dividend.drop divisor.length ∧
      (0 ≤ carry ∧ carry < nbase) ∧ (borrow = 0 ∨ borrow = -1) ∧
      carry * nbase ^ divisor.length ≤ qhat * Radix.number nbase divisor ∧
      Radix.number nbase (rest.take divisor.length) + (borrow - carry) * nbase ^ divisor.length =
        Radix.number nbase (dividend.take divisor.length) - qhat * Radix.number nbase divisor := by
  induction divisor generalizing dividend with
  | nil =>
      exact ⟨dividend, 0, 0, rfl, dividendRange, rfl, rfl, ⟨le_refl 0, nbase_pos⟩, Or.inl rfl,
        by simp, by simp⟩
  | cons divisorDigit divisor ih =>
      cases dividend with
      | nil => simp at length
      | cons digit dividend =>
          obtain ⟨own, others⟩ := Radix.digits_cons.mp range
          obtain ⟨digitRange, dividendRest⟩ := Radix.digits_cons.mp dividendRange
          obtain ⟨rest, carry, borrow, run, restRange, restLength, kept, carryRange, borrowSmall,
            carryBound, difference⟩ := ih others dividendRest (by simpa using length)
          obtain ⟨productLow, productHigh⟩ := digit_product own small
          have total : 0 ≤ carry + divisorDigit * qhat := by omega
          have splitTotal := Int.mul_ediv_add_emod (carry + divisorDigit * qhat) nbase
          obtain ⟨partLow, partHigh⟩ := Radix.emod_range nbase_pos (carry + divisorDigit * qhat)
          have nextCarry : 0 ≤ (carry + divisorDigit * qhat) / nbase ∧
              (carry + divisorDigit * qhat) / nbase < nbase := by
            rw [nbase_eq] at *
            omega
          have nextBound : (carry + divisorDigit * qhat) / nbase * nbase ^ (divisor.length + 1) ≤
              qhat * Radix.number nbase (divisorDigit :: divisor) := by
            have place : 0 < nbase ^ divisor.length := pow_pos nbase_pos _
            have cut := mul_le_mul_of_nonneg_right (Int.ediv_mul_le (carry + divisorDigit * qhat)
              nbase_ne_zero) place.le
            rw [Radix.number_cons, pow_succ]
            linarith
          have inside : divisor.length ≤ dividend.length := by simpa using length
          have insideRest : divisor.length ≤ rest.length := by rwa [restLength]
          have step : multiplySubtract qhat (divisorDigit :: divisor) (digit :: dividend) =
              if borrow - (carry + divisorDigit * qhat) % nbase + digit < 0 then
                .ok ((borrow - (carry + divisorDigit * qhat) % nbase + digit + nbase) :: rest,
                  (carry + divisorDigit * qhat) / nbase, -1)
              else .ok ((borrow - (carry + divisorDigit * qhat) % nbase + digit) :: rest,
                  (carry + divisorDigit * qhat) / nbase, 0) := by
            have product := @int32_ok (divisorDigit * qhat) (by omega) (by omega)
            have sum := @int32_ok (carry + divisorDigit * qhat) (by omega)
              (by rw [nbase_eq] at carryRange; omega)
            have partSmall : (carry + divisorDigit * qhat) % nbase < 10000 := partHigh
            have digitSmall : digit < 10000 := digitRange.2
            have part := @int32_ok (borrow - (carry + divisorDigit * qhat) % nbase)
              (by omega) (by omega)
            have digitSum := @int32_ok (borrow - (carry + divisorDigit * qhat) % nbase + digit)
              (by omega) (by omega)
            simp only [multiplySubtract, run, product, sum, Int.tmod_eq_emod_of_nonneg total,
              Int.tdiv_eq_ediv_of_nonneg total, part, digitSum, bind, Except.bind, pure, Except.pure]
          rw [step]
          by_cases below : borrow - (carry + divisorDigit * qhat) % nbase + digit < 0
          · rw [if_pos below]
            refine ⟨_, _, _, rfl, Radix.digits_cons.mpr ⟨?_, restRange⟩, by simp [restLength],
              by simp [kept], nextCarry, Or.inr rfl, nextBound, ?_⟩
            · omega
            · rw [List.length_cons, Radix.number_take_succ insideRest,
                Radix.number_take_succ inside, Radix.number_cons]
              linear_combination difference - nbase ^ divisor.length * splitTotal
          · rw [if_neg below]
            refine ⟨_, _, _, rfl, Radix.digits_cons.mpr ⟨?_, restRange⟩, by simp [restLength],
              by simp [kept], nextCarry, Or.inl rfl, nextBound, ?_⟩
            · omega
            · rw [List.length_cons, Radix.number_take_succ insideRest,
                Radix.number_take_succ inside, Radix.number_cons]
              linear_combination difference - nbase ^ divisor.length * splitTotal

theorem addBack_spec {divisor dividend : List Int} (range : Radix.Digits nbase divisor)
    (dividendRange : Radix.Digits nbase dividend) (length : divisor.length ≤ dividend.length) :
    ∃ rest carry, addBack divisor dividend = .ok (rest, carry) ∧
      Radix.Digits nbase rest ∧ rest.length = dividend.length ∧
      rest.drop divisor.length = dividend.drop divisor.length ∧ (carry = 0 ∨ carry = 1) ∧
      Radix.number nbase (rest.take divisor.length) + carry * nbase ^ divisor.length =
        Radix.number nbase (dividend.take divisor.length) + Radix.number nbase divisor := by
  induction divisor generalizing dividend with
  | nil => exact ⟨dividend, 0, rfl, dividendRange, rfl, rfl, Or.inl rfl, by simp⟩
  | cons divisorDigit divisor ih =>
      cases dividend with
      | nil => simp at length
      | cons digit dividend =>
          obtain ⟨own, others⟩ := Radix.digits_cons.mp range
          obtain ⟨digitRange, dividendRest⟩ := Radix.digits_cons.mp dividendRange
          obtain ⟨rest, carry, run, restRange, restLength, kept, carrySmall, sum⟩ :=
            ih others dividendRest (by simpa using length)
          have inside : divisor.length ≤ dividend.length := by simpa using length
          have insideRest : divisor.length ≤ rest.length := by rwa [restLength]
          have total : int32 (carry + (digit + divisorDigit)) =
              .ok (carry + (digit + divisorDigit)) := by
            rw [nbase_eq] at own digitRange
            exact int32_ok (by omega) (by omega)
          by_cases large : carry + (digit + divisorDigit) ≥ nbase
          · refine ⟨(carry + (digit + divisorDigit) - nbase) :: rest, 1, ?_,
              Radix.digits_cons.mpr ⟨?_, restRange⟩, by simp [restLength], by simp [kept],
              Or.inr rfl, ?_⟩
            · refine bind_ok.mpr ⟨_, run, bind_ok.mpr ⟨_, total, ?_⟩⟩
              rw [if_pos large]
              rfl
            · omega
            · rw [List.length_cons, Radix.number_take_succ insideRest,
                Radix.number_take_succ inside, Radix.number_cons]
              linear_combination sum
          · refine ⟨(carry + (digit + divisorDigit)) :: rest, 0, ?_,
              Radix.digits_cons.mpr ⟨?_, restRange⟩, by simp [restLength], by simp [kept],
              Or.inl rfl, ?_⟩
            · refine bind_ok.mpr ⟨_, run, bind_ok.mpr ⟨_, total, ?_⟩⟩
              rw [if_neg large]
              rfl
            · omega
            · rw [List.length_cons, Radix.number_take_succ insideRest,
                Radix.number_take_succ inside, Radix.number_cons]
              linear_combination sum

theorem multiplySubtract_borrow {qhat : Int} (small : 0 ≤ qhat ∧ qhat < nbase)
    {divisor dividend : List Int} (range : Radix.Digits nbase divisor)
    (dividendRange : Radix.Digits nbase dividend) (length : divisor.length + 1 ≤ dividend.length) :
    ∃ rest borrow, multiplySubtract qhat (0 :: divisor) dividend = .ok (rest, 0, borrow) ∧
      Radix.Digits nbase rest ∧ rest.length = dividend.length ∧
      rest.drop (divisor.length + 1) = dividend.drop (divisor.length + 1) ∧
      (borrow = 0 ∨ borrow = -1) ∧
      Radix.number nbase (rest.take (divisor.length + 1)) +
          borrow * nbase ^ (divisor.length + 1) =
        Radix.number nbase (dividend.take (divisor.length + 1)) -
          qhat * Radix.number nbase divisor := by
  obtain ⟨rest, carry, borrow, run, restRange, restLength, kept, carryRange, borrowSmall,
    carryBound, difference⟩ := multiplySubtract_spec small
      (Radix.digits_cons.mpr ⟨⟨le_refl 0, nbase_pos⟩, range⟩) dividendRange
      (by simpa using length)
  rw [Radix.number_zero_cons, List.length_cons] at carryBound difference
  rw [List.length_cons] at kept
  have noCarry : carry = 0 := by
    refine Radix.carry_eq_zero carryRange.1 nbase_pos carryBound ?_
    rw [pow_succ']
    exact mul_lt_mul'' small.2 (Radix.number_lt nbase_pos range) small.1
      (Radix.number_nonneg nbase_pos range)
  rw [noCarry] at run difference
  rw [sub_zero] at difference
  exact ⟨rest, borrow, run, restRange, restLength, kept, borrowSmall, difference⟩

theorem addBack_carry {divisor dividend : List Int} (range : Radix.Digits nbase divisor)
    (dividendRange : Radix.Digits nbase dividend) (length : divisor.length + 1 ≤ dividend.length)
    (large : nbase ^ (divisor.length + 1) ≤
      Radix.number nbase (dividend.take (divisor.length + 1)) + Radix.number nbase divisor) :
    ∃ rest, addBack (0 :: divisor) dividend = .ok (rest, 1) ∧
      Radix.Digits nbase rest ∧ rest.length = dividend.length ∧
      rest.drop (divisor.length + 1) = dividend.drop (divisor.length + 1) ∧
      Radix.number nbase (rest.take (divisor.length + 1)) + nbase ^ (divisor.length + 1) =
        Radix.number nbase (dividend.take (divisor.length + 1)) + Radix.number nbase divisor := by
  obtain ⟨rest, carry, run, restRange, restLength, kept, carrySmall, sum⟩ := addBack_spec
    (Radix.digits_cons.mpr ⟨⟨le_refl 0, nbase_pos⟩, range⟩) dividendRange (by simpa using length)
  rw [Radix.number_zero_cons, List.length_cons] at sum
  rw [List.length_cons] at kept
  have high := Radix.number_lt nbase_pos (restRange.take (divisor.length + 1))
  have places : (rest.take (divisor.length + 1)).length = divisor.length + 1 := by
    rw [List.length_take]
    omega
  rw [places] at high
  have carried : carry = 1 := by
    rcases carrySmall with none | one
    · rw [none] at sum
      linarith
    · exact one
  rw [carried, one_mul] at sum
  rw [carried] at run
  exact ⟨rest, run, restRange, restLength, kept, sum⟩

theorem subtractProduct_spec {qhat : Nat} (small : (qhat : Int) < nbase)
    {divisor dividend : List Int} {number total : Int} (range : Radix.Digits nbase divisor)
    (dividendRange : Radix.Digits nbase dividend) (length : divisor.length + 1 ≤ dividend.length)
    (numberEq : Radix.number nbase divisor = number) (positive : 0 < number)
    (totalEq : Radix.number nbase (dividend.take (divisor.length + 1)) = total)
    (notBelow : total / number ≤ qhat) (close : (qhat - 1) * number ≤ total) :
    ∃ rest, subtractProduct qhat (0 :: divisor) dividend = .ok (total / number, rest) ∧
      Radix.Digits nbase rest ∧ rest.length = dividend.length ∧
      rest.drop (divisor.length + 1) = dividend.drop (divisor.length + 1) ∧
      Radix.number nbase (rest.take (divisor.length + 1)) = total % number := by
  have split := Int.mul_ediv_add_emod total number
  obtain ⟨restLow, restHigh⟩ := Radix.emod_range positive total
  have totalLow : 0 ≤ total := by
    rw [← totalEq]
    exact Radix.number_nonneg nbase_pos (dividendRange.take _)
  by_cases none : qhat = 0
  · have zero : total / number = 0 := by
      have low := Int.ediv_nonneg totalLow positive.le
      omega
    rw [zero] at split ⊢
    refine ⟨dividend, ?_, dividendRange, rfl, rfl, by omega⟩
    rw [subtractProduct, none, if_neg (lt_irrefl 0)]
    rfl
  · obtain ⟨rest, borrow, subtracted, restRange, restLength, kept, borrowSmall, difference⟩ :=
      multiplySubtract_borrow ⟨Int.natCast_nonneg qhat, small⟩ range dividendRange length
    rw [numberEq, totalEq] at difference
    have nonneg := Radix.number_nonneg nbase_pos (restRange.take (divisor.length + 1))
    rcases borrowSmall with exact | borrowed
    · rw [exact, zero_mul, add_zero] at difference
      have product : total / number * number ≤ qhat * number :=
        mul_le_mul_of_nonneg_right notBelow positive.le
      obtain ⟨quotient, remainder⟩ := (Int.ediv_emod_unique positive).mpr
        (⟨by linarith, nonneg, by linarith⟩ :
          Radix.number nbase (rest.take (divisor.length + 1)) + number * (qhat : Int) = total ∧ _ ∧ _)
      rw [quotient, remainder]
      refine ⟨rest, ?_, restRange, restLength, kept, rfl⟩
      rw [subtractProduct, if_pos (by omega)]
      refine bind_ok.mpr ⟨_, subtracted, bind_ok.mpr ⟨_, assertThat_ok (decide_eq_true rfl), ?_⟩⟩
      rw [exact, if_neg (fun different => different rfl)]
      rfl
    · have restHigh' := Radix.number_lt nbase_pos (restRange.take (divisor.length + 1))
      have restPlaces : (rest.take (divisor.length + 1)).length = divisor.length + 1 := by
        rw [List.length_take]
        omega
      rw [restPlaces] at restHigh'
      rw [borrowed] at difference
      obtain ⟨back, added, backRange, backLength, backKept, sum⟩ :=
        addBack_carry range restRange (by omega) (by rw [numberEq]; linarith)
      rw [numberEq] at sum
      have backLow := Radix.number_nonneg nbase_pos (backRange.take (divisor.length + 1))
      obtain ⟨quotient, remainder⟩ := (Int.ediv_emod_unique positive).mpr
        (⟨by linarith, backLow, by linarith⟩ : Radix.number nbase (back.take (divisor.length + 1)) +
          number * ((qhat : Int) - 1) = total ∧ _ ∧ _)
      rw [quotient, remainder]
      refine ⟨back, ?_, backRange, by omega, backKept.trans kept, rfl⟩
      rw [subtractProduct, if_pos (by omega)]
      refine bind_ok.mpr ⟨_, subtracted, bind_ok.mpr ⟨_, assertThat_ok (decide_eq_true rfl), ?_⟩⟩
      rw [borrowed, if_pos (show (-1 : Int) ≠ 0 by decide)]
      exact bind_ok.mpr ⟨_, added, bind_ok.mpr ⟨_, assertThat_ok (decide_eq_true rfl), rfl⟩⟩

end MultiplySubtract

section QuotientDigit

variable {divisor1 divisor2 digit0 digit1 digit2 : Int} {divisor dividend : List Int}

theorem estimate_spec (first : 0 < divisor1 ∧ divisor1 < nbase) (own0 : 0 ≤ digit0)
    (own1 : 0 ≤ digit1 ∧ digit1 < nbase) (leading : digit0 ≤ divisor1) {q : Int}
    (qSmall : q < nbase) (fits : q * divisor1 ≤ digit0 * nbase + digit1) :
    ∃ estimate : Nat,
      (if digit0 = divisor1 then nbase - 1 else (digit0 * nbase + digit1).tdiv divisor1).toNat =
        estimate ∧ (estimate : Int) < nbase ∧ q ≤ estimate ∧
      0 ≤ digit0 * nbase + digit1 - estimate * divisor1 ∧
      digit0 * nbase + digit1 - estimate * divisor1 < 20000 := by
  by_cases same : digit0 = divisor1
  · rw [if_pos same, same]
    refine ⟨9999, rfl, by decide, ?_, ?_, ?_⟩
    · rw [nbase_eq] at qSmall
      push_cast
      omega
    · rw [nbase_eq] at *
      push_cast
      omega
    · rw [nbase_eq] at *
      push_cast
      omega
  · have nonneg : 0 ≤ digit0 * nbase + digit1 := by
      rw [nbase_eq]
      omega
    have small : digit0 * nbase + digit1 < nbase * divisor1 := by
      rw [nbase_eq] at *
      omega
    have split := Int.mul_ediv_add_emod (digit0 * nbase + digit1) divisor1
    obtain ⟨restLow, restHigh⟩ := Radix.emod_range first.1 (digit0 * nbase + digit1)
    have quotient := Int.ediv_nonneg nonneg first.1.le
    have cast : (((digit0 * nbase + digit1) / divisor1).toNat : Int) =
        (digit0 * nbase + digit1) / divisor1 := Int.toNat_of_nonneg quotient
    rw [if_neg same, Int.tdiv_eq_ediv_of_nonneg nonneg]
    refine ⟨_, rfl, ?_, ?_, ?_, ?_⟩
    · rw [cast]
      exact Int.ediv_lt_of_lt_mul first.1 small
    · rw [cast]
      exact (Int.le_ediv_iff_mul_le first.1).mpr fits
    · rw [cast]
      linarith
    · rw [cast]
      have bound : divisor1 < 10000 := first.2
      linarith

theorem quotientDigit_spec {number total : Int} (first : 0 < divisor1)
    (range : Radix.Digits nbase (divisor1 :: divisor2 :: divisor))
    (dividendRange : Radix.Digits nbase (digit0 :: digit1 :: digit2 :: dividend))
    (length : divisor.length ≤ dividend.length)
    (numberEq : Radix.number nbase (divisor1 :: divisor2 :: divisor) = number)
    (totalEq : Radix.number nbase (digit0 :: digit1 :: digit2 :: dividend.take divisor.length) =
      total) (fits : total < number * nbase) :
    ∃ rest, quotientDigit (0 :: divisor1 :: divisor2 :: divisor)
        (digit0 :: digit1 :: digit2 :: dividend) = .ok (total / number, rest) ∧
      (0 ≤ total / number ∧ total / number < nbase) ∧
      Radix.Digits nbase rest ∧ rest.length = dividend.length + 3 ∧
      rest.drop (divisor.length + 3) = dividend.drop divisor.length ∧
      Radix.number nbase (rest.take (divisor.length + 3)) = total % number := by
  obtain ⟨firstRange, divisorRest⟩ := Radix.digits_cons.mp range
  obtain ⟨own0, dividendRest⟩ := Radix.digits_cons.mp dividendRange
  obtain ⟨own1, dividendRest1⟩ := Radix.digits_cons.mp dividendRest
  have taken : (digit0 :: digit1 :: digit2 :: dividend).take (divisor.length + 3) =
      digit0 :: digit1 :: digit2 :: dividend.take divisor.length := rfl
  obtain ⟨leading, ⟨qLow, qHigh⟩, qFirst, qTop, close⟩ := Radix.quotientDigit_of_digits nbase_pos
    first range (taken ▸ dividendRange.take (divisor.length + 3))
    (List.length_take_of_le length) numberEq totalEq fits
  have positive : 0 < number := by
    rw [← numberEq]
    exact lt_of_lt_of_le (pow_pos nbase_pos _) (Radix.le_number nbase_pos first divisorRest)
  have shifted : int32 (digit0 * nbase) = .ok (digit0 * nbase) := by
    rw [nbase_eq] at *
    exact int32_ok (by omega) (by omega)
  have nextDigits : int32 (digit0 * nbase + digit1) = .ok (digit0 * nbase + digit1) := by
    rw [nbase_eq] at *
    exact int32_ok (by omega) (by omega)
  by_cases next : digit0 * nbase + digit1 = 0
  · have zero : total / number = 0 := by
      by_contra nonzero
      have large : 1 * divisor1 ≤ total / number * divisor1 :=
        mul_le_mul_of_nonneg_right (by omega) first.le
      omega
    refine ⟨digit0 :: digit1 :: digit2 :: dividend, ?_, ⟨qLow, qHigh⟩, dividendRange, rfl, rfl, ?_⟩
    · rw [zero]
      refine bind_ok.mpr ⟨_, shifted, bind_ok.mpr ⟨_, nextDigits, ?_⟩⟩
      rw [if_pos next]
      rfl
    · have split := Int.mul_ediv_add_emod total number
      rw [zero] at split
      rw [taken, totalEq]
      omega
  · obtain ⟨estimate, estimateEq, estimateSmall, estimateAbove, remainderLow, remainderHigh⟩ :=
      estimate_spec ⟨first, firstRange.2⟩ own0.1 own1 leading qHigh qFirst
    obtain ⟨qhat, adjusted, notBelow, notAbove, within⟩ := adjustQhat_spec firstRange
      (Radix.digits_cons.mp divisorRest).1 (Radix.digits_cons.mp dividendRest1).1 estimateSmall
      remainderLow remainderHigh qLow qTop estimateAbove
    have qhatSmall : (qhat : Int) < nbase := by omega
    have overshoot := close qhat (Int.natCast_nonneg qhat) qhatSmall within
    obtain ⟨rest, subtracted, restRange, restLength, kept, remainder⟩ :=
      subtractProduct_spec qhatSmall range dividendRange (by simpa using length) numberEq
        positive (taken ▸ totalEq) notBelow overshoot
    refine ⟨rest, ?_, ⟨qLow, qHigh⟩, restRange, by simpa using restLength, kept, remainder⟩
    refine bind_ok.mpr ⟨_, shifted, bind_ok.mpr ⟨_, nextDigits, ?_⟩⟩
    rw [if_neg next]
    dsimp only
    rw [estimateEq]
    exact bind_ok.mpr ⟨_, adjusted, subtracted⟩

end QuotientDigit

theorem quotientDigits_spec {divisor1 divisor2 : Int} {divisor : List Int} (first : 0 < divisor1)
    (range : Radix.Digits nbase (divisor1 :: divisor2 :: divisor)) {m : Nat} {dividend : List Int}
    (dividendRange : Radix.Digits nbase dividend) (length : divisor.length + 2 + m ≤ dividend.length)
    (below : Radix.number nbase (dividend.take (divisor.length + 2)) <
      Radix.number nbase (divisor1 :: divisor2 :: divisor)) :
    ∃ digits, quotientDigits (0 :: divisor1 :: divisor2 :: divisor) m dividend = .ok digits ∧
      Radix.Digits nbase digits ∧ digits.length = m ∧
      Radix.number nbase digits = Radix.number nbase (dividend.take (divisor.length + 2 + m)) /
        Radix.number nbase (divisor1 :: divisor2 :: divisor) := by
  induction m generalizing dividend with
  | zero =>
      have low := Radix.number_nonneg nbase_pos (dividendRange.take (divisor.length + 2))
      refine ⟨[], rfl, Radix.Digits.nil, rfl, ?_⟩
      rw [Nat.add_zero, Int.ediv_eq_zero_of_lt low below, Radix.number_nil]
  | succ m ih =>
      rcases dividend with _ | ⟨digit0, _ | ⟨digit1, _ | ⟨digit2, dividend⟩⟩⟩
      · simp at length
      · simp at length
        omega
      · simp at length
        omega
      · simp only [List.length_cons] at length
        have fits := below
        have prefixed : (digit0 :: digit1 :: digit2 :: dividend).take (divisor.length + 2) =
            ((digit0 :: digit1 :: digit2 :: dividend).take (divisor.length + 3)).take
              (divisor.length + 2) := by
          rw [List.take_take, min_eq_left (by omega)]
        have window : ((digit0 :: digit1 :: digit2 :: dividend).take (divisor.length + 3)).length =
            divisor.length + 3 := by
          rw [List.length_take, List.length_cons, List.length_cons, List.length_cons]
          omega
        rw [prefixed, Radix.number_take_lt_iff nbase_pos (dividendRange.take _), window,
          Nat.add_sub_add_left, pow_one] at fits
        obtain ⟨rest, run, digitRange, restRange, restLength, kept, remainder⟩ :=
          quotientDigit_spec first range dividendRange (by omega) rfl rfl fits
        cases rest with
        | nil => simp at restLength
        | cons restDigit rest =>
            have divisorHigh := Radix.number_lt nbase_pos range
            have divisorPos := lt_of_le_of_lt
              (Radix.number_nonneg nbase_pos (dividendRange.take (divisor.length + 2))) below
            have places : (rest.take (divisor.length + 2)).length = divisor.length + 2 := by
              rw [List.length_take]
              simp only [List.length_cons] at restLength
              omega
            have windowRange := restRange.take (divisor.length + 3)
            rw [List.take_succ_cons] at remainder windowRange
            have small : Radix.number nbase (restDigit :: rest.take (divisor.length + 2)) <
                Radix.number nbase (divisor1 :: divisor2 :: divisor) := by
              rw [remainder]
              exact Int.emod_lt_of_pos _ divisorPos
            have zero : restDigit = 0 := by
              refine Radix.head_eq_zero_of_number_lt nbase_pos windowRange ?_
              rw [places]
              exact small.trans divisorHigh
            rw [Radix.number_cons, zero, zero_mul, zero_add] at remainder small
            obtain ⟨digits, later, digitsRange, digitsLength, quotient⟩ :=
              ih (Radix.digits_cons.mp restRange).2
                (by simp only [List.length_cons] at restLength; omega) small
            refine ⟨_ :: digits, bind_ok.mpr ⟨_, run, bind_ok.mpr ⟨_, later, rfl⟩⟩,
              Radix.digits_cons.mpr ⟨digitRange, digitsRange⟩, by simp [digitsLength], ?_⟩
            have after : rest.drop (divisor.length + 2) = dividend.drop divisor.length := kept
            have window : (digit0 :: digit1 :: digit2 :: dividend).take
                (divisor.length + 2 + (m + 1)) =
                  (digit0 :: digit1 :: digit2 :: dividend).take (divisor.length + 3 + m) := by
              congr 1
              omega
            have dividendWhole := @Radix.number_take_add nbase
              (digit0 :: digit1 :: digit2 :: dividend) (divisor.length + 3) m
              (by simp only [List.length_cons]; omega)
            have restWhole := @Radix.number_take_add nbase rest (divisor.length + 2) m
              (by simp only [List.length_cons] at restLength; omega)
            rw [after, remainder] at restWhole
            rw [Radix.number_cons, quotient, digitsLength, window, dividendWhole, restWhole]
            exact (Radix.quotient_continue divisorPos _ _ _).symm

theorem divDigits_spec {divisor1 : Int} {divisor digits1 : List Int} (first : 0 < divisor1)
    (range : Radix.Digits nbase (divisor1 :: divisor)) (range1 : Radix.Digits nbase digits1)
    (m : Nat) :
    ∃ (digits : List Int) (z cut : Nat),
      divDigits digits1 (divisor1 :: divisor) m = .ok digits ∧ Radix.Digits nbase digits ∧
      digits.length = m ∧ (z : Int) - cut = divisor.length + m - digits1.length ∧
      Radix.number nbase digits = Radix.number nbase digits1 * nbase ^ z /
        (nbase ^ cut * Radix.number nbase (divisor1 :: divisor)) := by
  obtain ⟨z, zeros⟩ : ∃ z : Nat, (max ((m : Int) + (divisor1 :: divisor).length) digits1.length -
      digits1.length).toNat = z := ⟨_, rfl⟩
  have enough : divisor.length + 1 + m ≤ digits1.length + z := by
    rw [List.length_cons] at zeros
    omega
  have padded := Radix.digits_append.mpr ⟨range1, Radix.digits_replicate_zero nbase_pos z⟩
  have paddedLength : (digits1 ++ List.replicate z 0).length = digits1.length + z := by simp
  have paddedEq : Radix.number nbase (digits1 ++ List.replicate z 0) =
      Radix.number nbase digits1 * nbase ^ z := by
    rw [Radix.number_append, Radix.number_replicate_zero, List.length_replicate, add_zero]
  have firstHigh := (Radix.digits_cons.mp range).1.2
  cases divisor with
  | nil =>
      obtain ⟨digits, run, digitsRange, length, quotient⟩ :=
        shortDivision_spec firstHigh (padded.take m) ⟨le_refl 0, first⟩
      have taken : ((digits1 ++ List.replicate z 0).take m).length = m := by
        rw [List.length_take]
        omega
      refine ⟨digits, z, digits1.length + z - m, ?_, digitsRange, length.trans taken, ?_, ?_⟩
      · rw [divDigits, zeros]
        exact run
      · simp only [List.length_nil] at enough ⊢
        omega
      · rw [quotient, zero_mul, zero_add, Radix.number_take nbase_pos padded, paddedEq, paddedLength,
          Int.ediv_ediv_of_nonneg (pow_pos nbase_pos _).le, Radix.number_cons, List.length_nil,
          pow_zero, mul_one, Radix.number_nil, add_zero]
  | cons divisor2 divisor =>
      obtain ⟨d, top, lower, dividend, factor, topPos, scaled, divisorRange, dividendRange,
        lowerLength, dividendLength, divisorEq, dividendEq⟩ :=
          scaleOperands_spec first range range1 z
      cases lower with
      | nil => simp at lowerLength
      | cons second lower =>
          simp only [List.length_cons] at lowerLength enough
          have whole : Radix.number nbase digits1 * nbase ^ z <
              Radix.number nbase (divisor1 :: divisor2 :: divisor) *
                nbase ^ (dividend.length - (lower.length + 2)) := by
            have high := Radix.number_lt nbase_pos padded
            have low := Radix.le_number nbase_pos first (Radix.digits_cons.mp range).2
            have cut : (0 : Int) < nbase ^ (dividend.length - (lower.length + 2)) :=
              pow_pos nbase_pos _
            have scaledLow := mul_le_mul_of_nonneg_right low cut.le
            have places : (divisor2 :: divisor).length + (dividend.length - (lower.length + 2)) =
                digits1.length + z := by
              rw [List.length_cons]
              omega
            rw [← pow_add, places] at scaledLow
            rw [paddedEq, paddedLength] at high
            omega
          have below : Radix.number nbase (dividend.take (lower.length + 2)) <
              Radix.number nbase (top :: second :: lower) := by
            rw [Radix.number_take_lt_iff nbase_pos dividendRange, dividendEq, divisorEq, mul_assoc]
            exact mul_lt_mul_of_pos_left whole factor
          have reach : lower.length + 2 + m ≤ dividend.length := by omega
          obtain ⟨digits, run, digitsRange, length, quotient⟩ := quotientDigits_spec topPos
            divisorRange dividendRange reach below
          refine ⟨digits, z, dividend.length - (lower.length + 2 + m), ?_, digitsRange, length, ?_, ?_⟩
          · rw [divDigits, zeros]
            · exact bind_ok.mpr ⟨_, scaled, run⟩
            · simp
          · rw [List.length_cons]
            omega
          · rw [quotient, Radix.number_take nbase_pos dividendRange, dividendEq, divisorEq,
              Radix.quotient_scaled factor (pow_pos nbase_pos _)]

end PqAsync
