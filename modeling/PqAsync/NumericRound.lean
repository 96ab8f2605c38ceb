import PqAsync.NumericScale

/-!
Rounding goes to the nearest place of the scale, ties away from zero; a carry may run through all
digits into the spare one.
-/

namespace PqAsync

open Results Rounding

structure CarriedInto (var : Numeric) (front rounded : List Int) (result : Numeric) : Prop where
  digits : Radix.Digits nbase result.digits
  sum : Radix.number nbase result.digits =
    Radix.number nbase (front ++ rounded) + nbase ^ rounded.length
  places : result.weight - result.digits.length = var.weight - (front ++ rounded).length
  sign : result.sign = var.sign
  dscale : result.dscale = var.dscale

theorem propagateCarry_spec {spare : Nat} (some : 0 < spare) {front : List Int}
    (range : Radix.Digits nbase front) :
    ∃ carried intoSpare, propagateCarry spare front = .ok (carried, intoSpare) ∧
      Radix.Digits nbase carried ∧
      carried.length = front.length + (if intoSpare then 1 else 0) ∧
      Radix.number nbase carried.reverse = Radix.number nbase front.reverse + 1 := by
  induction front with
  | nil =>
      refine ⟨[1], true, ?_, Radix.digits_cons.mpr ⟨by decide, Radix.Digits.nil⟩, rfl, rfl⟩
      rw [propagateCarry, if_neg some.ne']
  | cons digit front ih =>
      obtain ⟨own, others⟩ := Radix.digits_cons.mp range
      rw [propagateCarry]
      dsimp only
      by_cases large : 1 + digit ≥ nbase
      · obtain ⟨carried, intoSpare, run, carriedRange, length, sum⟩ := ih others
        rw [if_pos large]
        refine ⟨(1 + digit - nbase) :: carried, intoSpare, bind_ok.mpr ⟨_, run, rfl⟩,
          Radix.digits_cons.mpr ⟨by omega, carriedRange⟩, ?_, ?_⟩
        · rw [List.length_cons, List.length_cons, length]
          omega
        · rw [List.reverse_cons, List.reverse_cons, Radix.number_concat, Radix.number_concat, sum]
          ring
      · rw [if_neg large]
        refine ⟨(1 + digit) :: front, false, rfl, Radix.digits_cons.mpr ⟨by omega, others⟩, rfl, ?_⟩
        rw [List.reverse_cons, List.reverse_cons, Radix.number_concat, Radix.number_concat]
        ring

theorem carryInto_spec {var : Numeric} (some : 0 < var.spare) {front rounded : List Int}
    (frontRange : Radix.Digits nbase front) (roundedRange : Radix.Digits nbase rounded) :
    ∃ result, carryInto var front rounded = .ok result ∧ CarriedInto var front rounded result := by
  have reversed : Radix.Digits nbase front.reverse := fun digit member =>
    frontRange digit (List.mem_reverse.mp member)
  obtain ⟨carried, intoSpare, run, range, length, sum⟩ := propagateCarry_spec some reversed
  have digits : Radix.Digits nbase (carried.reverse ++ rounded) := by
    refine Radix.digits_append.mpr ⟨?_, roundedRange⟩
    intro digit member
    exact range digit (List.mem_reverse.mp member)
  have total : Radix.number nbase (carried.reverse ++ rounded) =
      Radix.number nbase (front ++ rounded) + nbase ^ rounded.length := by
    rw [List.reverse_reverse] at sum
    rw [Radix.number_append, Radix.number_append, sum]
    ring
  rw [List.length_reverse] at length
  cases intoSpare with
  | true =>
      refine ⟨_, bind_ok.mpr ⟨_, run, rfl⟩, digits, total, ?_, rfl, rfl⟩
      simp only [List.length_append, List.length_reverse, length, if_true]
      omega
  | false =>
      refine ⟨_, bind_ok.mpr ⟨_, run, rfl⟩, digits, total, ?_, rfl, rfl⟩
      simp only [List.length_append, List.length_reverse, length, Bool.false_eq_true, if_false]
      omega

theorem magnitude_of_places {digits : List Int} {weight scale whole : Int} {e : Nat}
    (places : (weight + 1) * 4 + scale + e = 4 * digits.length)
    (number : Radix.number nbase digits = whole * 10 ^ e) :
    Radix.magnitude nbase digits weight = whole * 10 ^ (-scale) := by
  have exponent : -scale = (e : Int) + 4 * (weight + 1 - digits.length) := by linarith
  rw [magnitude_decimal, number, exponent, ten_add, zpow_natCast]
  push_cast
  ring

theorem floor_half_take {digits : List Int} (range : Radix.Digits nbase digits)
    {weight scale half : Int} {n e : Nat} (enough : n ≤ digits.length)
    (places : (weight + 1) * 4 + scale + e = 4 * n) (positive : 0 < half)
    (power : 2 * half = 10 ^ e) :
    ⌊Radix.magnitude nbase digits weight * 10 ^ scale + 1 / 2⌋ =
      Radix.number nbase (digits.take n) / 10 ^ e +
        if half ≤ Radix.number nbase (digits.take n) % 10 ^ e then 1 else 0 := by
  have total : (weight + 1) * 4 + scale + (4 * (digits.length - n) + e : Nat) =
      4 * digits.length := by
    push_cast [enough]
    linarith
  have low := Radix.number_nonneg nbase_pos (range.drop n)
  have high := Radix.number_lt nbase_pos (range.drop n)
  have cutPos : (0 : ℚ) < (nbase ^ (digits.length - n) : Int) := by
    exact_mod_cast pow_pos nbase_pos (digits.length - n)
  have split : (10 : Int) ^ (4 * (digits.length - n) + e) =
      nbase ^ (digits.length - n) * (2 * half) := by
    rw [pow_add, pow_mul, power]
    rfl
  have parts : Radix.magnitude nbase digits weight * 10 ^ scale =
      (Radix.number nbase (digits.take n) +
        Radix.number nbase (digits.drop n) / (nbase ^ (digits.length - n) : Int)) /
          (2 * half : Int) := by
    have divisor : ((2 * half : Int) : ℚ) ≠ 0 := by exact_mod_cast (show 2 * half ≠ 0 by omega)
    rw [scaled_magnitude total, split, Radix.number_take_drop digits n, List.length_drop]
    generalize nbase ^ (digits.length - n) = cut at cutPos
    generalize 2 * half = divisor' at divisor
    push_cast
    field_simp
  rw [List.length_drop] at high
  rw [parts, ← power, floor_add_half positive]
  constructor
  · exact div_nonneg (by exact_mod_cast low) cutPos.le
  · rw [div_lt_one cutPos]
    exact_mod_cast high

theorem exists_half {e : Nat} (some : 0 < e) : ∃ half : Int, 0 < half ∧ 2 * half = 10 ^ e := by
  obtain ⟨e, rfl⟩ := Nat.exists_eq_add_of_lt some
  refine ⟨5 * 10 ^ e, by positivity, ?_⟩
  rw [Nat.zero_add, pow_succ]
  ring

structure RoundedAt (var : Numeric) (rscale : Int) (result : Numeric) : Prop where
  digits : Radix.Digits nbase result.digits
  magnitude : result.magnitude = nearestAt var.magnitude rscale
  dscale : result.dscale = rscale
  sign : result.sign = var.sign ∨ result.sign = numericPos ∧ result.digits = []

section

variable {var : Numeric} (range : Radix.Digits nbase var.digits) {rscale : Int}

include range

theorem nearestAt_magnitude : nearestAt var.magnitude rscale =
    ⌊Radix.magnitude nbase var.digits var.weight * 10 ^ rscale + 1 / 2⌋ * 10 ^ (-rscale) :=
  nearestAt_of_nonneg (Numeric.magnitude_nonneg range) rscale

theorem nearestAt_below (below : (var.weight + 1) * decDigits + rscale < 0) :
    nearestAt var.magnitude rscale = 0 := by
  have nonneg := mul_nonneg (Numeric.magnitude_nonneg range) (ten_pos rscale).le
  have small : var.magnitude * 10 ^ rscale * 10 < 1 := by
    have last : (var.weight + 1) * decDigits + (rscale + 1) ≤ 0 := by omega
    have next := magnitude_below range last
    rw [ten_add] at next
    rw [mul_assoc]
    exact next
  have none : ⌊Radix.magnitude nbase var.digits var.weight * 10 ^ rscale + 1 / 2⌋ = 0 := by
    change ⌊var.magnitude * 10 ^ rscale + 1 / 2⌋ = 0
    rw [Int.floor_eq_zero_iff]
    constructor
    · linarith
    · linarith
  rw [nearestAt_magnitude range, none]
  simp

theorem nearestAt_short (short : 4 * (var.digits.length : Int) ≤ (var.weight + 1) * decDigits + rscale) :
    nearestAt var.magnitude rscale = var.magnitude := by
  obtain ⟨whole, same⟩ := whole_of_short short
  have floor : ⌊Radix.magnitude nbase var.digits var.weight * 10 ^ rscale + 1 / 2⌋ = whole := by
    rw [same, Int.floor_intCast_add]
    norm_num
  rw [nearestAt_magnitude range, floor, ← same, mul_assoc, ← ten_add, add_neg_cancel, zpow_zero,
    mul_one]
  rfl

theorem nearestAt_border {n : Nat} (inside : n < var.digits.length)
    (places : (var.weight + 1) * decDigits + rscale = 4 * n) :
    nearestAt var.magnitude rscale =
      (Radix.number nbase (var.digits.take n) +
        if Radix.digitAt var.digits n ≥ halfNbase then 1 else 0 : Int) * 10 ^ (-rscale) := by
  have next : var.digits.take (n + 1) = var.digits.take n ++ [Radix.digitAt var.digits n] := by
    rw [List.take_succ_eq_append_getElem inside, Radix.digitAt,
      if_pos ⟨Int.natCast_nonneg n, Int.ofNat_lt.mpr inside⟩, Int.toNat_natCast,
      List.getD_eq_getElem _ _ inside]
  have own := Radix.digitAt_range nbase_pos range n
  have floor := @floor_half_take var.digits range var.weight rscale halfNbase (n + 1) 4 inside
    (by rw [decDigits] at places; push_cast; linarith) (by decide) (by decide)
  have kept : (Radix.number nbase (var.digits.take n) * nbase + Radix.digitAt var.digits n) / 10 ^ 4 =
      Radix.number nbase (var.digits.take n) := by
    simp only [nbase] at own ⊢
    omega
  have cut : (Radix.number nbase (var.digits.take n) * nbase + Radix.digitAt var.digits n) % 10 ^ 4 =
      Radix.digitAt var.digits n := by
    simp only [nbase] at own ⊢
    omega
  rw [next, Radix.number_concat, kept, cut] at floor
  rw [nearestAt_magnitude range, floor]

theorem nearestAt_within {front : List Int} {last half : Int} {n e : Nat} (inside : n ≤ var.digits.length)
    (split : var.digits.take n = front ++ [last]) (small : e ≤ 4)
    (places : (var.weight + 1) * decDigits + rscale + e = 4 * n) (positive : 0 < half)
    (power : 2 * half = 10 ^ e) :
    nearestAt var.magnitude rscale =
      (Radix.number nbase (front ++ [last]) / 10 ^ e + if half ≤ last % 10 ^ e then 1 else 0 : Int) *
        10 ^ (-rscale) := by
  have floor := @floor_half_take var.digits range var.weight rscale half n e inside
    (by rw [decDigits] at places; exact places) positive power
  have remainder : Radix.number nbase (front ++ [last]) % 10 ^ e = last % 10 ^ e := by
    have cut := @number_cut_last front last e small
    have parts := Int.mul_ediv_add_emod (Radix.number nbase (front ++ [last])) (10 ^ e)
    rw [Radix.number_concat] at cut
    rw [Radix.number_concat] at cut parts ⊢
    linarith
  rw [split, remainder] at floor
  rw [nearestAt_magnitude range, floor]

end

theorem RoundedAt.of_places {var result : Numeric} {rscale whole : Int} {e : Nat}
    (nearest : nearestAt var.magnitude rscale = whole * 10 ^ (-rscale))
    (range : Radix.Digits nbase result.digits)
    (places : (result.weight + 1) * decDigits + rscale + e = 4 * result.digits.length)
    (number : Radix.number nbase result.digits = whole * 10 ^ e) (dscale : result.dscale = rscale)
    (sign : result.sign = var.sign) : RoundedAt var rscale result := by
  refine ⟨range, ?_, dscale, Or.inl sign⟩
  rw [nearest]
  exact magnitude_of_places (by rw [decDigits] at places; exact places) number

theorem roundBorder_spec {var : Numeric} (range : Radix.Digits nbase var.digits)
    (some : 0 < var.spare) {rscale : Int} {n : Nat} (inside : n < var.digits.length)
    (places : (var.weight + 1) * decDigits + rscale = 4 * n) :
    ∃ result, (if Radix.digitAt var.digits n ≥ halfNbase then
        carryInto { var with dscale := rscale } (var.digits.take n) []
      else .ok { var with digits := var.digits.take n, dscale := rscale }) = .ok result ∧
      RoundedAt var rscale result := by
  have keptLength : (var.digits.take n).length = n := by
    rw [List.length_take]
    exact min_eq_left inside.le
  have nearest := nearestAt_border range inside places
  by_cases up : Radix.digitAt var.digits n ≥ halfNbase
  · rw [if_pos up] at nearest ⊢
    obtain ⟨result, run, carried⟩ :=
      @carryInto_spec { var with dscale := rscale } some _ [] (range.take n) Radix.Digits.nil
    have sum := carried.sum
    have ends := carried.places
    rw [List.append_nil, List.length_nil, pow_zero] at sum
    rw [List.append_nil, keptLength] at ends
    dsimp only at ends
    refine ⟨result, run, RoundedAt.of_places (e := 0) nearest carried.digits ?_ ?_ carried.dscale
      carried.sign⟩
    · rw [decDigits] at places ⊢
      push_cast
      linarith
    · rw [sum, pow_zero, mul_one]
  · rw [if_neg up] at nearest ⊢
    refine ⟨_, rfl, RoundedAt.of_places (e := 0) nearest (range.take n) ?_ ?_ rfl rfl⟩
    · rw [keptLength]
      push_cast
      linarith
    · rw [pow_zero, mul_one, add_zero]

theorem roundWithin_spec {var : Numeric} (range : Radix.Digits nbase var.digits)
    (some : 0 < var.spare) {rscale last half : Int} {front : List Int} {n e : Nat}
    (inside : n ≤ var.digits.length) (split : var.digits.take n = front ++ [last]) (small : e ≤ 4)
    (places : (var.weight + 1) * decDigits + rscale + e = 4 * n) (positive : 0 < half)
    (power : 2 * half = 10 ^ e) :
    ∃ result, (if last % 10 ^ e ≥ half then
        if 10 ^ e + (last - last % 10 ^ e) ≥ nbase then
          carryInto { var with dscale := rscale } front [10 ^ e + (last - last % 10 ^ e) - nbase]
        else .ok { var with digits := front ++ [10 ^ e + (last - last % 10 ^ e)], dscale := rscale }
      else .ok { var with digits := front ++ [last - last % 10 ^ e], dscale := rscale }) =
        .ok result ∧ RoundedAt var rscale result := by
  have keptLength : (front.length : Int) + 1 = n := by
    have taken : (var.digits.take n).length = n := by
      rw [List.length_take]
      exact min_eq_left inside
    rw [split, List.length_append, List.length_singleton] at taken
    exact_mod_cast taken
  have keptRange := range.take n
  rw [split] at keptRange
  obtain ⟨frontRange, lastRange⟩ := Radix.digits_append.mp keptRange
  have own : 0 ≤ last ∧ last < nbase := lastRange last (List.mem_singleton_self last)
  have nearest := nearestAt_within range inside split small places positive power
  have cut := @number_cut_last front last e small
  have low := Int.emod_nonneg last (show (10 : Int) ^ e ≠ 0 by positivity)
  have parts := Int.mul_ediv_add_emod last (10 ^ e)
  have rest : 0 ≤ 10 ^ e * (last / 10 ^ e) :=
    mul_nonneg (by positivity) (Int.ediv_nonneg own.1 (by positivity))
  have powerPos : (0 : Int) < 10 ^ e := by positivity
  have powerLe : (10 : Int) ^ e ≤ 10 ^ 4 := pow_le_pow_right₀ (by norm_num) small
  have base : nbase = 10 ^ 4 := rfl
  generalize Radix.number nbase (front ++ [last]) / 10 ^ e = quotient at nearest cut
  rw [Radix.number_concat] at cut
  by_cases up : half ≤ last % 10 ^ e
  · rw [if_pos up] at nearest
    rw [if_pos up]
    by_cases large : 10 ^ e + (last - last % 10 ^ e) ≥ nbase
    · rw [if_pos large]
      have single : Radix.Digits nbase [10 ^ e + (last - last % 10 ^ e) - nbase] :=
        Radix.digits_cons.mpr ⟨by omega, Radix.Digits.nil⟩
      obtain ⟨result, run, carried⟩ :=
        @carryInto_spec { var with dscale := rscale } some front _ frontRange single
      have sum := carried.sum
      have ends := carried.places
      rw [Radix.number_concat, List.length_singleton, pow_one] at sum
      rw [List.length_append, List.length_singleton] at ends
      dsimp only at ends
      push_cast at ends
      refine ⟨result, run, RoundedAt.of_places (e := e) nearest carried.digits ?_ ?_ carried.dscale
        carried.sign⟩
      · rw [decDigits] at places ⊢
        linarith
      · rw [sum]
        linear_combination cut
    · rw [if_neg large]
      refine ⟨_, rfl, RoundedAt.of_places (e := e) nearest
        (Radix.digits_append.mpr ⟨frontRange, ?_⟩) ?_ ?_ rfl rfl⟩
      · exact Radix.digits_cons.mpr ⟨by omega, Radix.Digits.nil⟩
      · rw [List.length_append, List.length_singleton]
        push_cast
        linarith
      · rw [Radix.number_concat]
        linear_combination cut
  · rw [if_neg up] at nearest
    rw [if_neg up]
    refine ⟨_, rfl, RoundedAt.of_places (e := e) nearest
      (Radix.digits_append.mpr ⟨frontRange, ?_⟩) ?_ ?_ rfl rfl⟩
    · exact Radix.digits_cons.mpr ⟨by omega, Radix.Digits.nil⟩
    · rw [List.length_append, List.length_singleton]
      push_cast
      linarith
    · rw [Radix.number_concat]
      linear_combination cut

theorem roundVar_spec {var : Numeric} (range : Radix.Digits nbase var.digits)
    (some : 0 < var.spare) (rscale : Int) :
    ∃ result, roundVar var rscale = .ok result ∧ RoundedAt var rscale result := by
  rw [roundVar]
  dsimp only
  by_cases below : (var.weight + 1) * decDigits + rscale < 0
  · rw [if_pos below]
    refine ⟨_, rfl, Radix.Digits.nil, ?_, rfl, Or.inr ⟨rfl, rfl⟩⟩
    rw [nearestAt_below range below]
    rfl
  · obtain ⟨n, count, remainder, places⟩ :=
      ndigits_eq (show 0 ≤ (var.weight + 1) * decDigits + rscale by omega)
    have length : { var with dscale := rscale }.ndigits = (var.digits.length : Int) := rfl
    rw [if_neg below, count, remainder, length]
    by_cases shorter : (n : Int) < var.digits.length ∨
        ((n : Int) = var.digits.length ∧ ((var.weight + 1) * decDigits + rscale) % 4 > 0)
    · rw [if_pos shorter, Int.toNat_natCast]
      by_cases border : ((var.weight + 1) * decDigits + rscale) % 4 = 0
      · rw [if_pos border]
        exact roundBorder_spec range some (by omega) (by omega)
      · have inside : n ≤ var.digits.length := by omega
        have taken : (var.digits.take n).length = n := by
          rw [List.length_take]
          exact min_eq_left inside
        rw [if_neg border]
        rcases List.eq_nil_or_concat (var.digits.take n) with empty | ⟨front, last, split⟩
        · rw [empty, List.length_nil] at taken
          omega
        · rw [List.concat_eq_append] at split
          obtain ⟨e, exponent⟩ : ∃ e : Nat,
              (e : Int) = 4 - ((var.weight + 1) * decDigits + rscale) % 4 :=
            ⟨(4 - ((var.weight + 1) * decDigits + rscale) % 4).toNat, by omega⟩
          obtain ⟨half, positive, power⟩ := @exists_half e (by omega)
          have pow10 : roundPowers (((var.weight + 1) * decDigits + rscale) % 4) = 10 ^ e := by
            rw [roundPowers_eq (by omega) (by omega)]
            congr 1
            omega
          have own : 0 ≤ last := by
            have member : last ∈ var.digits.take n := by
              rw [split]
              exact List.mem_append_right front (List.mem_singleton_self last)
            exact (range last (List.mem_of_mem_take member)).1
          have halved : ((10 : Int) ^ e).tdiv 2 = half := by
            rw [← power, Int.tdiv_eq_ediv_of_nonneg (by omega)]
            omega
          rw [split, List.getLast?_concat, List.dropLast_concat]
          dsimp only
          rw [pow10, Int.tmod_eq_emod_of_nonneg own, halved]
          exact roundWithin_spec range some inside split (by omega) (by omega) positive power
    · rw [if_neg shorter]
      refine ⟨_, rfl, range, ?_, rfl, Or.inl rfl⟩
      rw [nearestAt_short range (by omega)]
      rfl

theorem int32_ok_iff {x y : Int} : int32 x = .ok y ↔ (-2 ^ 31 ≤ x ∧ x < 2 ^ 31) ∧ x = y := by
  rw [int32]
  by_cases fits : -2 ^ 31 ≤ x ∧ x < 2 ^ 31
  · rw [if_pos fits, Except.ok.injEq, and_iff_right fits]
  · rw [if_neg fits]
    refine iff_of_false ?_ fun inside => fits inside.1
    intro returned
    cases returned

theorem int32_overflows {x : Int} (fails : ¬(-2 ^ 31 ≤ x ∧ x < 2 ^ 31)) :
    int32 x = .error .overflow := if_neg fails

/-- The `int` values that the places of a rounding are computed with do not overflow. -/
structure ScaleFits (weight rscale : Int) : Prop where
  places : -2 ^ 31 ≤ weight + 1 ∧ weight + 1 < 2 ^ 31
  decimals : -2 ^ 31 ≤ (weight + 1) * decDigits ∧ (weight + 1) * decDigits < 2 ^ 31
  wanted : -2 ^ 31 ≤ (weight + 1) * decDigits + rscale ∧ (weight + 1) * decDigits + rscale < 2 ^ 31
  padded : (weight + 1) * decDigits + rscale + decDigits < 2 ^ 31

theorem decimalDigits_ok_iff {weight rscale di : Int} : decimalDigits weight rscale = .ok di ↔
    (-2 ^ 31 ≤ weight + 1 ∧ weight + 1 < 2 ^ 31) ∧
      (-2 ^ 31 ≤ (weight + 1) * decDigits ∧ (weight + 1) * decDigits < 2 ^ 31) ∧
      (-2 ^ 31 ≤ (weight + 1) * decDigits + rscale ∧
        (weight + 1) * decDigits + rscale < 2 ^ 31) ∧
      (weight + 1) * decDigits + rscale = di := by
  simp only [decimalDigits, bind_ok, int32_ok_iff]
  constructor
  · rintro ⟨_, ⟨places, rfl⟩, _, ⟨decimals, rfl⟩, wanted, rfl⟩
    exact ⟨places, decimals, wanted, rfl⟩
  · rintro ⟨places, decimals, wanted, rfl⟩
    exact ⟨_, ⟨places, rfl⟩, _, ⟨decimals, rfl⟩, wanted, rfl⟩

theorem nbaseDigits_ok {di : Int} (nonneg : 0 ≤ di) (padded : di + decDigits < 2 ^ 31) :
    nbaseDigits di = .ok ((di + decDigits - 1).tdiv decDigits).toNat := by
  have low : -2 ^ 31 ≤ di + decDigits := by
    rw [decDigits]
    omega
  rw [nbaseDigits, int32_ok_iff.mpr ⟨⟨low, padded⟩, rfl⟩]
  rfl

theorem checkedRoundVar_eq {var : Numeric} {rscale : Int} (fits : ScaleFits var.weight rscale) :
    checkedRoundVar var rscale = roundVar var rscale := by
  have wanted := decimalDigits_ok_iff.mpr ⟨fits.places, fits.decimals, fits.wanted, rfl⟩
  rw [checkedRoundVar, wanted, ok_bind]
  by_cases nonneg : 0 ≤ (var.weight + 1) * decDigits + rscale
  · rw [if_pos nonneg, nbaseDigits_ok nonneg fits.padded]
    rfl
  · rw [if_neg nonneg]

theorem checkedRoundVar_overflows {var : Numeric} {rscale : Int}
    (fails : ¬ScaleFits var.weight rscale) : checkedRoundVar var rscale = .error .overflow := by
  rw [checkedRoundVar, decimalDigits]
  by_cases places : -2 ^ 31 ≤ var.weight + 1 ∧ var.weight + 1 < 2 ^ 31
  · rw [int32_ok_iff.mpr ⟨places, rfl⟩, ok_bind]
    by_cases decimals : -2 ^ 31 ≤ (var.weight + 1) * decDigits ∧
        (var.weight + 1) * decDigits < 2 ^ 31
    · rw [int32_ok_iff.mpr ⟨decimals, rfl⟩, ok_bind]
      by_cases wanted : -2 ^ 31 ≤ (var.weight + 1) * decDigits + rscale ∧
          (var.weight + 1) * decDigits + rscale < 2 ^ 31
      · have unpadded : ¬(var.weight + 1) * decDigits + rscale + decDigits < 2 ^ 31 :=
          fun padded => fails ⟨places, decimals, wanted, padded⟩
        have four : decDigits = 4 := rfl
        rw [int32_ok_iff.mpr ⟨wanted, rfl⟩, ok_bind, if_pos (by omega), nbaseDigits,
          int32_overflows (fun inside => unpadded inside.2)]
        rfl
      · rw [int32_overflows wanted]
        rfl
    · rw [int32_overflows decimals]
      rfl
  · rw [int32_overflows places]
    rfl

end PqAsync
