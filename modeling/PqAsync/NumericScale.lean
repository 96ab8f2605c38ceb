import PqAsync.Library.Rounding
import PqAsync.NumericQuotient

/-!
Truncation cuts the magnitude at a decimal place, also inside of a digit.
-/

namespace PqAsync

open Rounding

theorem nbase_cast : ((nbase : Int) : ℚ) = 10 ^ (4 : Int) := by norm_num [nbase]

theorem nbase_zpow (k : Int) : ((nbase : Int) : ℚ) ^ k = 10 ^ (4 * k) := by
  rw [nbase_cast, zpow_mul]

theorem magnitude_decimal (digits : List Int) (weight : Int) :
    Radix.magnitude nbase digits weight =
      Radix.number nbase digits * 10 ^ (4 * (weight + 1 - digits.length)) := by
  rw [Radix.magnitude_eq nbase_ne_zero, nbase_zpow]

theorem scaled_magnitude {digits : List Int} {weight scale : Int} {n : Nat}
    (places : (weight + 1) * 4 + scale + n = 4 * digits.length) :
    Radix.magnitude nbase digits weight * 10 ^ scale =
      Radix.number nbase digits / ((10 ^ n : Int) : ℚ) := by
  have exponent : 4 * (weight + 1 - digits.length) + scale = -(n : Int) := by linarith
  rw [magnitude_decimal, mul_assoc, ← ten_add, exponent, zpow_neg, zpow_natCast, div_eq_mul_inv]
  push_cast
  rfl

theorem floor_intCast_div {n : Int} (positive : 0 < n) (whole : Int) :
    ⌊(whole : ℚ) / (n : ℚ)⌋ = whole / n := by
  rw [Int.floor_div_cast_of_nonneg positive.le, Int.floor_intCast]

theorem magnitude_below {digits : List Int} (range : Radix.Digits nbase digits)
    {weight scale : Int} (below : (weight + 1) * decDigits + scale ≤ 0) :
    Radix.magnitude nbase digits weight * 10 ^ scale < 1 := by
  have high := Radix.magnitude_lt nbase_pos range weight
  have scaled := mul_lt_mul_of_pos_right high (ten_pos scale)
  rw [nbase_zpow, ← ten_add] at scaled
  have one : (10 : ℚ) ^ (4 * (weight + 1) + scale) ≤ 10 ^ (0 : Int) := by
    apply zpow_le_zpow_right₀ (by norm_num)
    rw [decDigits] at below
    omega
  rw [zpow_zero] at one
  exact lt_of_lt_of_le scaled one

theorem whole_of_short {digits : List Int} {weight scale : Int}
    (short : 4 * (digits.length : Int) ≤ (weight + 1) * decDigits + scale) :
    ∃ whole : Int, Radix.magnitude nbase digits weight * 10 ^ scale = whole := by
  rw [decDigits] at short
  refine ⟨Radix.number nbase digits *
    10 ^ ((weight + 1) * 4 + scale - 4 * digits.length).toNat, ?_⟩
  have exponent : 4 * (weight + 1 - digits.length) + scale =
      (((weight + 1) * 4 + scale - 4 * digits.length).toNat : Int) := by omega
  rw [magnitude_decimal, mul_assoc, ← ten_add, exponent, zpow_natCast]
  push_cast
  rfl

theorem roundPowers_eq {di : Int} (low : 0 < di) (high : di < 4) :
    roundPowers di = 10 ^ (4 - di).toNat := by
  have cases : di = 1 ∨ di = 2 ∨ di = 3 := by omega
  rcases cases with one | two | three
  · rw [one]
    rfl
  · rw [two]
    rfl
  · rw [three]
    rfl

theorem digits_of_scale {scale : Int} (nonneg : 0 ≤ scale) :
    (scale + decDigits - 1).tdiv decDigits = (scale + 3) / 4 := by
  have same : scale + decDigits - 1 = scale + 3 := by
    rw [decDigits]
    ring
  rw [same, Int.tdiv_eq_ediv_of_nonneg (by omega)]
  rfl

theorem ndigits_eq {di : Int} (nonneg : 0 ≤ di) :
    ∃ n : Nat, (di + decDigits - 1).tdiv decDigits = n ∧ di.tmod decDigits = di % 4 ∧
      4 * (n : Int) - di = (4 - di % 4) % 4 := by
  have positive : 0 ≤ di + decDigits - 1 := by
    rw [decDigits]
    omega
  refine ⟨((di + decDigits - 1) / 4).toNat, ?_, Int.tmod_eq_emod_of_nonneg nonneg, ?_⟩
  · rw [Int.tdiv_eq_ediv_of_nonneg positive]
    rw [decDigits] at *
    omega
  · rw [decDigits] at *
    omega

theorem cut_magnitude {digits kept : List Int} (range : Radix.Digits nbase digits)
    {weight scale : Int} {n e : Nat} (length : kept.length = n) (enough : n ≤ digits.length)
    (places : (weight + 1) * 4 + scale + e = 4 * n)
    (cut : Radix.number nbase kept = Radix.number nbase (digits.take n) / 10 ^ e * 10 ^ e) :
    Radix.magnitude nbase kept weight = floorAt (Radix.magnitude nbase digits weight) scale := by
  have whole : (weight + 1) * 4 + scale + (4 * (digits.length - n) + e : Nat) =
      4 * digits.length := by
    push_cast [enough]
    linarith
  have split : (10 : Int) ^ (4 * (digits.length - n) + e) = nbase ^ (digits.length - n) * 10 ^ e := by
    rw [pow_add, pow_mul]
    rfl
  have floor : Radix.number nbase digits / 10 ^ (4 * (digits.length - n) + e) =
      Radix.number nbase (digits.take n) / 10 ^ e := by
    rw [split, ← Int.ediv_ediv_of_nonneg (pow_pos nbase_pos _).le, Radix.number_take nbase_pos range]
  have power : ((10 ^ e : Int) : ℚ) * 10 ^ (4 * (weight + 1 - n)) = 10 ^ (-scale) := by
    have exponent : -scale = (e : Int) + 4 * (weight + 1 - n) := by linarith
    rw [exponent, ten_add, zpow_natCast]
    push_cast
    rfl
  rw [floorAt, scaled_magnitude whole, floor_intCast_div (by positivity), floor, magnitude_decimal,
    cut, length, ← power]
  push_cast
  ring

theorem number_cut_last {front : List Int} {last : Int} {e : Nat} (inside : e ≤ 4) :
    Radix.number nbase (front ++ [last - last % 10 ^ e]) =
      Radix.number nbase (front ++ [last]) / 10 ^ e * 10 ^ e := by
  obtain ⟨k, split⟩ : ∃ k : Int, nbase = 10 ^ e * k := by
    refine ⟨10 ^ (4 - e), ?_⟩
    rw [← pow_add, Nat.add_sub_cancel' inside]
    rfl
  have same : (Radix.number nbase front * nbase + last) % 10 ^ e = last % 10 ^ e := by
    have multiple : Radix.number nbase front * nbase + last =
        last + 10 ^ e * (k * Radix.number nbase front) := by
      rw [split]
      ring
    rw [multiple, Int.add_mul_emod_self_left]
  have parts := Int.mul_ediv_add_emod (Radix.number nbase front * nbase + last) (10 ^ e)
  rw [Radix.number_concat, Radix.number_concat]
  rw [same] at parts
  linear_combination (-1 : Int) * parts

theorem truncVar_spec {var : Numeric} (range : Radix.Digits nbase var.digits) (rscale : Int) :
    ∃ result, truncVar var rscale = .ok result ∧ Radix.Digits nbase result.digits ∧
      result.magnitude = floorAt var.magnitude rscale ∧ result.dscale = rscale ∧
      (result.sign = var.sign ∨ result.sign = numericPos ∧ result.digits = []) := by
  have nonneg := Numeric.magnitude_nonneg range
  rw [truncVar]
  dsimp only
  by_cases below : (var.weight + 1) * decDigits + rscale ≤ 0
  · rw [if_pos below]
    refine ⟨_, rfl, Radix.Digits.nil, ?_, rfl, Or.inr ⟨rfl, rfl⟩⟩
    exact (floorAt_eq_zero nonneg (magnitude_below range below)).symm
  · obtain ⟨n, count, remainder, places⟩ :=
      ndigits_eq (show 0 ≤ (var.weight + 1) * decDigits + rscale by omega)
    rw [if_neg below, count, remainder]
    by_cases enough : (n : Int) ≤ { var with dscale := rscale }.ndigits
    · rw [if_pos enough, Int.toNat_natCast]
      have inside : n ≤ var.digits.length := Int.ofNat_le.mp enough
      have taken : (var.digits.take n).length = n := by
        rw [List.length_take]
        exact min_eq_left inside
      have some : n ≠ 0 := by
        intro none
        rw [none] at places
        omega
      by_cases within : ((var.weight + 1) * decDigits + rscale) % 4 > 0
      · have keptRange := range.take n
        rcases List.eq_nil_or_concat (var.digits.take n) with empty | ⟨front, last, split⟩
        · rw [empty] at taken
          exact absurd taken.symm some
        · rw [List.concat_eq_append] at split
          rw [split] at keptRange taken
          obtain ⟨frontRange, lastRange⟩ := Radix.digits_append.mp keptRange
          have own : 0 ≤ last ∧ last < nbase := lastRange last (List.mem_singleton_self last)
          obtain ⟨e, small, power⟩ : ∃ e : Nat, (e : Int) =
              4 - ((var.weight + 1) * decDigits + rscale) % 4 ∧
              roundPowers (((var.weight + 1) * decDigits + rscale) % 4) = 10 ^ e := by
            refine ⟨_, ?_, roundPowers_eq within (by omega)⟩
            omega
          rw [if_pos within, split, List.getLast?_concat, List.dropLast_concat, power]
          dsimp only
          rw [Int.tmod_eq_emod_of_nonneg own.1]
          have parts := Int.mul_ediv_add_emod last (10 ^ e)
          have extraLow := Int.emod_nonneg last (show (10 : Int) ^ e ≠ 0 by positivity)
          have rest : 0 ≤ 10 ^ e * (last / 10 ^ e) :=
            mul_nonneg (by positivity) (Int.ediv_nonneg own.1 (by positivity))
          refine ⟨_, rfl, Radix.digits_append.mpr ⟨frontRange, ?_⟩, ?_, rfl, Or.inl rfl⟩
          · intro digit member
            rw [List.mem_singleton.mp member]
            omega
          · refine @cut_magnitude var.digits _ range var.weight rscale n e ?_ inside ?_ ?_
            · simpa using taken
            · rw [decDigits] at places small within
              omega
            · rw [split]
              exact number_cut_last (by omega)
      · rw [if_neg within]
        refine ⟨_, rfl, range.take n, ?_, rfl, Or.inl rfl⟩
        refine @cut_magnitude var.digits _ range var.weight rscale n 0 taken inside ?_ ?_
        · rw [decDigits] at *
          omega
        · simp
    · rw [if_neg enough]
      refine ⟨_, rfl, range, ?_, rfl, Or.inl rfl⟩
      have short : (var.digits.length : Int) < n := lt_of_not_ge enough
      obtain ⟨whole, same⟩ := @whole_of_short var.digits var.weight rscale (by omega)
      exact (floorAt_of_whole same).symm

theorem whole_split {digits : List Int} (range : Radix.Digits nbase digits) {weight scale : Int}
    {n e : Nat} (enough : n ≤ digits.length) (places : (weight + 1) * 4 + scale + e = 4 * n)
    {whole : Int} (exact : Radix.magnitude nbase digits weight * 10 ^ scale = whole) :
    Radix.number nbase (digits.take n) = whole * 10 ^ e ∧ ∀ digit ∈ digits.drop n, digit = 0 := by
  have total : (weight + 1) * 4 + scale + (4 * (digits.length - n) + e : Nat) =
      4 * digits.length := by
    push_cast [enough]
    linarith
  have split : (10 : Int) ^ (4 * (digits.length - n) + e) = 10 ^ e * nbase ^ (digits.length - n) := by
    rw [pow_add, pow_mul, mul_comm]
    rfl
  have numberEq : Radix.number nbase digits = whole * 10 ^ e * nbase ^ (digits.length - n) := by
    rw [scaled_magnitude total, div_eq_iff (by positivity)] at exact
    rw [mul_assoc, ← split]
    exact_mod_cast exact
  have kept : Radix.number nbase (digits.take n) = whole * 10 ^ e := by
    rw [Radix.number_take nbase_pos range, numberEq,
      Int.mul_ediv_cancel _ (pow_pos nbase_pos _).ne']
  have parts := @Radix.number_take_drop nbase digits n
  rw [kept, numberEq, List.length_drop] at parts
  exact ⟨kept, Radix.eq_zero_of_number nbase_pos (range.drop n) (by omega)⟩

end PqAsync
