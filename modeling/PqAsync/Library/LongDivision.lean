import PqAsync.Library.Radix

/-!
The arithmetic of long division: how far the quotient of leading places can be from the whole
quotient, what a common factor of both operands does, and how quotients of a prefix continue.
-/

namespace Radix

variable {base : Int}

theorem mul_top_le {place top low divTop divLow q : Int} (lowSmall : low < place)
    (divLowNonneg : 0 ≤ divLow) (nonneg : 0 ≤ q)
    (fits : q * (divTop * place + divLow) ≤ top * place + low) (positive : 0 < place) :
    q * divTop ≤ top := by
  have rest : 0 ≤ q * divLow := mul_nonneg nonneg divLowNonneg
  have scaled : q * divTop * place < (top + 1) * place := by linarith
  exact Int.lt_add_one_iff.mp (lt_of_mul_lt_mul_right scaled positive.le)

theorem pred_mul_le {place top low divTop divLow qhat : Int} (within : qhat * divTop ≤ top)
    (placeNonneg : 0 ≤ place) (lowNonneg : 0 ≤ low)
    (outweighs : qhat * divLow ≤ divTop * place + divLow) :
    (qhat - 1) * (divTop * place + divLow) ≤ top * place + low := by
  have scaled : qhat * divTop * place ≤ top * place := mul_le_mul_of_nonneg_right within placeNonneg
  linarith

section QuotientDigit

variable {v1 v2 divLow u0 u1 u2 low place total divisor : Int}

theorem quotientDigit_bounds (basePos : 0 < base) (v1Pos : 0 < v1) (v2Digit : 0 ≤ v2 ∧ v2 < base)
    (u2Digit : 0 ≤ u2 ∧ u2 < base) (divLowNonneg : 0 ≤ divLow)
    (lowRange : 0 ≤ low ∧ low < place)
    (divisorEq : divisor = (v1 * base + v2) * place + divLow)
    (totalEq : total = ((u0 * base + u1) * base + u2) * place + low)
    (totalNonneg : 0 ≤ total) (fits : total < divisor * base) :
    0 ≤ total / divisor ∧ total / divisor < base ∧ total / divisor * v1 ≤ u0 * base + u1 ∧
      total / divisor * (v1 * base + v2) ≤ (u0 * base + u1) * base + u2 := by
  have placePos : 0 < place := by omega
  have leadingPos : 0 < v1 * base := mul_pos v1Pos basePos
  have divisorPos : 0 < divisor := by
    rw [divisorEq]
    have := mul_pos (show 0 < v1 * base + v2 by omega) placePos
    omega
  have nonneg : 0 ≤ total / divisor := Int.ediv_nonneg totalNonneg divisorPos.le
  have whole : total / divisor * divisor ≤ total := Int.ediv_mul_le total divisorPos.ne'
  refine ⟨nonneg, Int.ediv_lt_of_lt_mul divisorPos (by rwa [mul_comm]), ?_, ?_⟩
  · have tailSmall : u2 * place + low < base * place := by
      have := mul_le_mul_of_nonneg_right (show u2 ≤ base - 1 by omega) placePos.le
      linarith
    have tailNonneg : 0 ≤ v2 * place + divLow :=
      add_nonneg (mul_nonneg v2Digit.1 placePos.le) divLowNonneg
    apply mul_top_le tailSmall tailNonneg nonneg _ (mul_pos basePos placePos)
    have same : v1 * (base * place) + (v2 * place + divLow) = divisor := by
      rw [divisorEq]
      ring
    rw [same]
    linarith
  · apply mul_top_le lowRange.2 divLowNonneg nonneg _ placePos
    rw [← divisorEq]
    linarith

theorem estimate_close {qhat : Int} (v1Pos : 0 < v1) (v2Nonneg : 0 ≤ v2)
    (divLowRange : 0 ≤ divLow ∧ divLow < place) (lowNonneg : 0 ≤ low)
    (qhatRange : 0 ≤ qhat ∧ qhat ≤ base)
    (divisorEq : divisor = (v1 * base + v2) * place + divLow)
    (totalEq : total = ((u0 * base + u1) * base + u2) * place + low)
    (within : qhat * (v1 * base + v2) ≤ (u0 * base + u1) * base + u2) :
    (qhat - 1) * divisor ≤ total := by
  have placePos : 0 < place := by omega
  have baseNonneg : 0 ≤ base := by omega
  rw [divisorEq, totalEq]
  apply pred_mul_le within placePos.le lowNonneg
  have scaled : qhat * divLow ≤ base * place :=
    mul_le_mul qhatRange.2 divLowRange.2.le divLowRange.1 baseNonneg
  have leading : 1 * (base * place) ≤ v1 * (base * place) :=
    mul_le_mul_of_nonneg_right v1Pos (mul_nonneg baseNonneg placePos.le)
  have second : 0 ≤ v2 * place := mul_nonneg v2Nonneg placePos.le
  linarith

theorem quotientDigit_of_digits {vs us : List Int} (basePos : 0 < base) (v1Pos : 0 < v1)
    (divRange : Digits base (v1 :: v2 :: vs)) (totalRange : Digits base (u0 :: u1 :: u2 :: us))
    (same : us.length = vs.length) (divisorEq : number base (v1 :: v2 :: vs) = divisor)
    (totalEq : number base (u0 :: u1 :: u2 :: us) = total) (fits : total < divisor * base) :
    u0 ≤ v1 ∧ (0 ≤ total / divisor ∧ total / divisor < base) ∧
      total / divisor * v1 ≤ u0 * base + u1 ∧
      total / divisor * (v1 * base + v2) ≤ (u0 * base + u1) * base + u2 ∧
      ∀ qhat : Int, 0 ≤ qhat → qhat < base →
        qhat * (v1 * base + v2) ≤ (u0 * base + u1) * base + u2 → (qhat - 1) * divisor ≤ total := by
  obtain ⟨v1Digit, divRest⟩ := digits_cons.mp divRange
  obtain ⟨v2Digit, lowDivRange⟩ := digits_cons.mp divRest
  obtain ⟨u0Digit, totalRest⟩ := digits_cons.mp totalRange
  obtain ⟨u1Digit, totalRest1⟩ := digits_cons.mp totalRest
  obtain ⟨u2Digit, lowRange⟩ := digits_cons.mp totalRest1
  have lowHigh := number_lt basePos lowRange
  rw [same] at lowHigh
  have low := number_nonneg basePos lowRange
  have divLow := number_nonneg basePos lowDivRange
  have divHigh := number_lt basePos lowDivRange
  have totalLow := number_nonneg basePos totalRange
  rw [totalEq] at totalLow
  have divisorSplit : divisor = (v1 * base + v2) * base ^ vs.length + number base vs := by
    rw [← divisorEq, number_cons, number_cons, List.length_cons]
    ring
  have totalSplit : total =
      ((u0 * base + u1) * base + u2) * base ^ vs.length + number base us := by
    rw [← totalEq, number_cons, number_cons, number_cons, List.length_cons, List.length_cons, same]
    ring
  have leading : u0 ≤ v1 := by
    have place : 0 < base ^ ((v2 :: vs).length + 1) := pow_pos basePos _
    have rest := number_nonneg basePos totalRest
    have below := number_lt basePos divRest
    have scaled : u0 * base ^ ((v2 :: vs).length + 1) <
        (v1 + 1) * base ^ ((v2 :: vs).length + 1) := by
      have length : (u1 :: u2 :: us).length = (v2 :: vs).length + 1 := by simp [same]
      rw [← totalEq, ← divisorEq, number_cons u0, number_cons v1, length] at fits
      have product := mul_lt_mul_of_pos_right below basePos
      rw [pow_succ] at fits ⊢
      linarith
    exact Int.lt_add_one_iff.mp (lt_of_mul_lt_mul_right scaled place.le)
  obtain ⟨qLow, qHigh, qFirst, qTop⟩ := quotientDigit_bounds basePos v1Pos v2Digit u2Digit divLow
    ⟨low, lowHigh⟩ divisorSplit totalSplit totalLow fits
  refine ⟨leading, ⟨qLow, qHigh⟩, qFirst, qTop, ?_⟩
  intro qhat nonneg small within
  exact estimate_close v1Pos v2Digit.1 ⟨divLow, divHigh⟩ low ⟨nonneg, small.le⟩ divisorSplit
    totalSplit within

end QuotientDigit

theorem quotient_continue {divisor : Int} (positive : 0 < divisor) (top place low : Int) :
    (top * place + low) / divisor =
      top / divisor * place + (top % divisor * place + low) / divisor := by
  have split := Int.mul_ediv_add_emod top divisor
  have whole : top * place + low =
      (top % divisor * place + low) + divisor * (top / divisor * place) := by
    linear_combination (-place) * split
  rw [whole, Int.add_mul_ediv_left _ _ positive.ne', add_comm]

theorem one_le_factor {digit : Int} (low : 0 ≤ digit) (high : digit < base) :
    1 ≤ base / (digit + 1) := by
  rw [Int.le_ediv_iff_mul_le (by omega)]
  omega

theorem half_le_scaled {digit : Int} (low : 1 ≤ digit) (high : digit < base) :
    base - 1 ≤ 2 * (base / (digit + 1) * digit) := by
  have next : 0 < digit + 1 := by omega
  have factor : 1 ≤ base / (digit + 1) := one_le_factor (by omega) high
  have above : base < (base / (digit + 1) + 1) * (digit + 1) := Int.lt_ediv_add_one_mul_self base next
  have product : 0 ≤ (base / (digit + 1) - 1) * (digit - 1) :=
    mul_nonneg (by omega) (by omega)
  linarith

theorem scaled_lt {digit place number : Int} (low : 0 ≤ digit) (high : digit < base)
    (below : number < (digit + 1) * place) (placeNonneg : 0 ≤ place) :
    base / (digit + 1) * number < base * place := by
  have next : 0 < digit + 1 := by omega
  have factor : 1 ≤ base / (digit + 1) := one_le_factor low high
  have whole : base / (digit + 1) * (digit + 1) ≤ base := Int.ediv_mul_le base next.ne'
  calc base / (digit + 1) * number
      < base / (digit + 1) * ((digit + 1) * place) := mul_lt_mul_of_pos_left below (by omega)
    _ = base / (digit + 1) * (digit + 1) * place := by ring
    _ ≤ base * place := mul_le_mul_of_nonneg_right whole placeNonneg

theorem quotient_scaled {factor cut : Int} (factorPos : 0 < factor) (cutPos : 0 < cut)
    (total divisor : Int) : factor * total / cut / (factor * divisor) = total / (cut * divisor) := by
  rw [Int.ediv_ediv_of_nonneg cutPos.le, ← mul_assoc, mul_comm cut factor, mul_assoc,
    Int.mul_ediv_mul_of_pos _ _ factorPos]

theorem number_take_lt_iff {ds : List Int} (positive : 0 < base) (digits : Digits base ds) (n : Nat)
    {bound : Int} :
    number base (ds.take n) < bound ↔ number base ds < bound * base ^ (ds.length - n) := by
  rw [number_take positive digits n]
  exact Int.ediv_lt_iff_lt_mul (pow_pos positive _)

theorem le_head_of_le_number (positive : 0 < base) {bound d : Int} {ds : List Int}
    (digits : Digits base ds) (large : bound * base ^ ds.length ≤ number base (d :: ds)) :
    bound ≤ d := by
  have high := number_lt positive digits
  rw [number_cons] at large
  have scaled : bound * base ^ ds.length < (d + 1) * base ^ ds.length := by linarith
  exact Int.lt_add_one_iff.mp (lt_of_mul_lt_mul_right scaled (pow_pos positive _).le)

theorem head_eq_zero_of_number_lt (positive : 0 < base) {d : Int} {ds : List Int}
    (digits : Digits base (d :: ds)) (less : number base (d :: ds) < base ^ ds.length) : d = 0 := by
  obtain ⟨own, others⟩ := digits_cons.mp digits
  by_contra nonzero
  have large := le_number positive (lt_of_le_of_ne own.1 (Ne.symm nonzero)) others
  omega

end Radix
