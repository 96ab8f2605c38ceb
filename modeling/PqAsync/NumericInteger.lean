import PqAsync.MoneyText
import PqAsync.NumericObtained
import PqAsync.NumericOrder
import PqAsync.NumericRound

/-!
Numerics as integers: the conversions round to the nearest integer and reject the ones that the
type does not hold. Each integer has a numeric.
-/

namespace PqAsync

open Results Rounding Numeric

def FitsInt32 (x : Int) : Prop := -2 ^ 31 ≤ x ∧ x < 2 ^ 31

instance (x : Int) : Decidable (FitsInt32 x) := inferInstanceAs (Decidable (_ ∧ _))

def integerOutOfRange : WireError := .exception "integer out of range"

/-- `numericvar_to_int32`: the value that does not survive the narrowing is rejected. -/
def Numeric.toInt32 (var : Numeric) : Except WireError Int :=
  match var.toInt64 with
  | .error failure => .error (if failure = notInt64 then integerOutOfRange else failure)
  | .ok val =>
      let result := (BitVec.ofInt 32 val).toInt
      if result ≠ val then .error integerOutOfRange else .ok result

/-- The loop of `int64_to_numericvar` from the last digit of the buffer to the first, and how
many digits of the buffer are left. -/
def storeDigits : Nat → Nat → List Int → Except NumericError (List Int × Nat)
  | 0, _, _ => .error .outOfBounds
  | unused + 1, uval, digits =>
      let newuval := uval / nbase.toNat
      let digits := ((uval - newuval * nbase.toNat : Nat) : Int) :: digits
      if newuval ≠ 0 then storeDigits unused newuval digits else .ok (digits, unused)

/-- `int64_to_numericvar`. Digits of the buffer that are not used are not set to zero. -/
def int64ToNumericvar (val : BitVec 64) : Except NumericError Numeric :=
  let ndigits := (20 : Int).tdiv decDigits
  let negative := val.toInt < 0
  let sign := if negative then numericNeg else numericPos
  let uval := if negative then (-val).toNat else val.toNat
  if val = 0 then .ok { spare := 1, digits := [], weight := 0, sign, dscale := 0 }
  else do
    let (digits, unused) ← storeDigits ndigits.toNat uval []
    return { spare := if unused = 0 then 1 else 0, digits, weight := digits.length - 1, sign,
             dscale := 0 }

def Numeric.fromInt64 (val : BitVec 64) : Except NumericError Numeric := int64ToNumericvar val

theorem int64OrThrow_fits {x : Int} (fits : FitsInt64 x) : int64OrThrow x = .ok x := if_pos fits

theorem int64OrThrow_throws {x : Int} (fails : ¬FitsInt64 x) : int64OrThrow x = .error notInt64 :=
  if_neg fails

section Accumulating

variable {val total : Int}

theorem fits_of_total (nonpos : val ≤ 0) (order : total ≤ val) (fits : FitsInt64 total) :
    FitsInt64 val := by
  obtain ⟨low, _⟩ := fits
  exact ⟨by omega, by omega⟩

theorem accumulate_spec {digits : List Int} (range : Radix.Digits nbase digits) {n : Nat}
    (inside : digits.length ≤ n) (nonpos : val ≤ 0) (fits : FitsInt64 val) :
    accumulate digits n val = int64OrThrow
      (val * nbase ^ n - Radix.number nbase digits * nbase ^ (n - digits.length)) := by
  induction n generalizing digits val with
  | zero =>
      have empty : digits = [] := List.eq_nil_of_length_eq_zero (Nat.le_zero.mp inside)
      have same : val * nbase ^ 0 - Radix.number nbase [] * nbase ^ (0 - ([] : List Int).length) =
          val := by
        rw [Radix.number_nil, pow_zero]
        ring
      rw [empty, same, int64OrThrow_fits fits]
      rfl
  | succ n ih =>
      have place : 0 < nbase ^ n := pow_pos nbase_pos n
      have scaled : val * nbase ≤ val := mul_le_of_one_le_right nonpos (by decide)
      cases digits with
      | nil =>
          have total : val * nbase * nbase ^ n - Radix.number nbase [] * nbase ^ (n - 0) =
              val * nbase ^ (n + 1) - Radix.number nbase [] * nbase ^ (n + 1 - 0) := by
            rw [Radix.number_nil, pow_succ]
            ring
          rw [accumulate]
          by_cases step : FitsInt64 (val * nbase)
          · have rest := ih Radix.Digits.nil (Nat.zero_le n) (by omega) step
            rw [int64OrThrow_fits step, ok_bind, rest, List.length_nil, total]
          · have below : val * nbase * nbase ^ n ≤ val * nbase :=
              mul_le_of_one_le_right (by omega) place
            have fails : ¬FitsInt64 (val * nbase ^ (n + 1) -
                Radix.number nbase [] * nbase ^ (n + 1 - 0)) := by
              intro contra
              rw [← total, Radix.number_nil, zero_mul, sub_zero] at contra
              exact step (fits_of_total (by omega) below contra)
            rw [int64OrThrow_throws step, error_bind, List.length_nil, int64OrThrow_throws fails]
      | cons digit digits =>
          obtain ⟨own, others⟩ := Radix.digits_cons.mp range
          have shorter : digits.length ≤ n := by simpa using inside
          have rest : 0 ≤ Radix.number nbase digits * nbase ^ (n - digits.length) :=
            mul_nonneg (Radix.number_nonneg nbase_pos others) (pow_pos nbase_pos _).le
          have total : (val * nbase - digit) * nbase ^ n -
                Radix.number nbase digits * nbase ^ (n - digits.length) =
              val * nbase ^ (n + 1) -
                Radix.number nbase (digit :: digits) * nbase ^ (n + 1 - (digit :: digits).length) := by
            have places : nbase ^ n = nbase ^ digits.length * nbase ^ (n - digits.length) := by
              rw [← pow_add, Nat.add_sub_cancel' shorter]
            rw [List.length_cons, Nat.add_sub_add_right, Radix.number_cons, pow_succ, places]
            ring
          have below : (val * nbase - digit) * nbase ^ n -
              Radix.number nbase digits * nbase ^ (n - digits.length) ≤ val * nbase - digit := by
            have scaled : (val * nbase - digit) * nbase ^ n ≤ val * nbase - digit :=
              mul_le_of_one_le_right (by omega) place
            omega
          rw [accumulate, ← total]
          by_cases step : FitsInt64 (val * nbase)
          · rw [int64OrThrow_fits step, ok_bind]
            by_cases next : FitsInt64 (val * nbase - digit)
            · rw [int64OrThrow_fits next, ok_bind]
              exact ih others shorter (by omega) next
            · rw [int64OrThrow_throws next, error_bind, int64OrThrow_throws]
              exact fun contra => next (fits_of_total (by omega) below contra)
          · rw [int64OrThrow_throws step, error_bind, int64OrThrow_throws]
            exact fun contra => step (fits_of_total (by omega) (by omega) contra)

end Accumulating

namespace Numeric

theorem whole_digits {x : Numeric} (range : Radix.Digits nbase x.digits)
    (trailing : x.digits.getLast? ≠ some 0) (nonempty : x.digits ≠ []) {n : Int}
    (whole : x.magnitude = n) :
    0 ≤ x.weight ∧ x.ndigits ≤ x.weight + 1 ∧
      Radix.number nbase x.digits * nbase ^ (x.weight.toNat + 1 - x.digits.length) = n := by
  have value := Radix.magnitude_eq nbase_ne_zero x.digits x.weight
  change x.magnitude = _ at value
  rw [whole] at value
  have inside : (x.digits.length : Int) ≤ x.weight + 1 := by
    by_contra beyond
    obtain ⟨k, exponent⟩ : ∃ k : Nat, x.weight + 1 - x.digits.length = -((k + 1 : Nat) : Int) :=
      ⟨(x.digits.length - x.weight - 2).toNat, by omega⟩
    rw [exponent, zpow_neg, zpow_natCast, ← div_eq_mul_inv,
      eq_div_iff (pow_pos nbase_cast_pos _).ne'] at value
    have multiple : n * nbase ^ (k + 1) = Radix.number nbase x.digits := by exact_mod_cast value
    obtain ⟨init, last, split⟩ : ∃ init last, x.digits = init ++ [last] :=
      ⟨_, _, (List.dropLast_append_getLast nonempty).symm⟩
    rw [split] at range trailing multiple
    have own : 0 ≤ last ∧ last < nbase :=
      range last (List.mem_append_right init (List.mem_singleton_self last))
    rw [Radix.number_concat, pow_succ, ← mul_assoc] at multiple
    have zero : last = 0 := by
      have remainder := congrArg (· % nbase) multiple
      simp only [Int.mul_emod_left, Int.mul_add_emod_self_right] at remainder
      rw [Int.emod_eq_of_lt own.1 own.2] at remainder
      exact remainder.symm
    rw [zero, List.getLast?_concat] at trailing
    exact trailing rfl
  have some : 0 < x.digits.length := List.length_pos_of_ne_nil nonempty
  refine ⟨by omega, inside, ?_⟩
  have exponent : x.weight + 1 - x.digits.length =
      ((x.weight.toNat + 1 - x.digits.length : Nat) : Int) := by omega
  rw [exponent, zpow_natCast] at value
  exact_mod_cast value.symm

theorem Stripped.signed_magnitude {x : Numeric} (stripped : x.Stripped) {n : Int}
    (whole : x.value = n) :
    ∃ N : Int, n = (if x.sign = numericNeg then -N else N) ∧ x.magnitude = N ∧ 0 ≤ N := by
  have nonneg : ∀ {N : Int}, x.magnitude = N → 0 ≤ N := by
    intro N magnitude
    have low := magnitude_nonneg stripped.digits
    rw [magnitude] at low
    exact_mod_cast low
  rcases stripped.sign with positive | negative
  · have magnitude : x.magnitude = n := by rw [← value_of_pos positive, whole]
    refine ⟨n, ?_, magnitude, nonneg magnitude⟩
    rw [positive, if_neg (by decide)]
  · have magnitude : x.magnitude = (-n : Int) := by
      rw [value_of_neg negative] at whole
      push_cast
      linarith
    refine ⟨-n, ?_, magnitude, nonneg magnitude⟩
    rw [negative, if_pos rfl, neg_neg]

theorem accumulate_whole {x : Numeric} (stripped : x.Stripped) {N : Int}
    (magnitude : x.magnitude = N) {digit : Int} {digits : List Int}
    (split : x.digits = digit :: digits) :
    (0 ≤ x.weight ∧ x.ndigits ≤ x.weight + 1) ∧
      accumulate digits x.weight.toNat (-digit) = int64OrThrow (-N) := by
  have nonempty : x.digits ≠ [] := by simp [split]
  obtain ⟨weight, inside, number⟩ :=
    whole_digits stripped.digits stripped.trailing nonempty magnitude
  refine ⟨⟨weight, inside⟩, ?_⟩
  have range := stripped.digits
  rw [ndigits] at inside
  rw [split] at range number inside
  obtain ⟨own, others⟩ := Radix.digits_cons.mp range
  have base : nbase = 10000 := rfl
  rw [List.length_cons] at inside number
  have shorter : digits.length ≤ x.weight.toNat := by omega
  have total : -digit * nbase ^ x.weight.toNat -
      Radix.number nbase digits * nbase ^ (x.weight.toNat - digits.length) = -N := by
    have places : nbase ^ x.weight.toNat =
        nbase ^ digits.length * nbase ^ (x.weight.toNat - digits.length) := by
      rw [← pow_add, Nat.add_sub_cancel' shorter]
    rw [Nat.add_sub_add_right, Radix.number_cons] at number
    rw [← number, places]
    ring
  have run := accumulate_spec others shorter (show -digit ≤ 0 by omega)
    (show FitsInt64 (-digit) by constructor <;> omega)
  rwa [total] at run

theorem int64OrThrow_signed {N : Int} (nonneg : 0 ≤ N) (negative : Prop) [Decidable negative] :
    (do
      let val ← int64OrThrow (-N)
      if negative then return val else int64OrThrow (-val)) =
        int64OrThrow (if negative then -N else N) := by
  by_cases sign : negative
  · simp only [if_pos sign, bind_pure]
  · simp only [if_neg sign]
    by_cases fits : FitsInt64 (-N)
    · rw [int64OrThrow_fits fits, ok_bind, neg_neg]
    · have fails : ¬FitsInt64 N := by
        intro contra
        exact fits ⟨by have := contra.2; omega, by omega⟩
      rw [int64OrThrow_throws fits, int64OrThrow_throws fails, error_bind]

theorem toInt64_rounded {x : Numeric} (stripped : x.Stripped) {n : Int} (whole : x.value = n) :
    (match x.digits with
      | [] => Except.ok 0
      | digit :: digits => do
          if ¬(0 ≤ x.weight ∧ x.ndigits ≤ x.weight + 1) then
            throw (.exception "Assertion failed")
          let val ← accumulate digits x.weight.toNat (-digit)
          if x.sign = numericNeg then return val else int64OrThrow (-val)) = int64OrThrow n := by
  cases split : x.digits with
  | nil =>
      have zero : n = 0 := by
        rw [stripped.wellFormed.value_eq_zero.mpr split] at whole
        exact_mod_cast whole.symm
      rw [zero]
      rfl
  | cons digit digits =>
      obtain ⟨N, signed, magnitude, nonneg⟩ := stripped.signed_magnitude whole
      obtain ⟨asserted, run⟩ := accumulate_whole stripped magnitude split
      rw [signed, ← int64OrThrow_signed nonneg, ← run]
      dsimp only
      rw [if_neg (not_not.mpr asserted)]

theorem round_whole {x : Numeric} (wellFormed : x.WellFormed) :
    ∃ rounded, roundVar { x with spare := 1 } 0 = .ok rounded ∧ (stripVar rounded).Stripped ∧
      (stripVar rounded).value = nearest x.value := by
  obtain ⟨rounded, run, digits, magnitude, _, sign⟩ :=
    @roundVar_spec { x with spare := 1 } wellFormed.digits Nat.one_pos 0
  rw [nearestAt_zero] at magnitude
  obtain ⟨stripped, value, _⟩ := stripVar_value digits wellFormed.sign sign
  refine ⟨rounded, run, stripped, ?_⟩
  rw [value, magnitude]
  rcases wellFormed.sign with positive | negative
  · rw [positive, if_neg (by decide), value_of_pos positive]
    rfl
  · rw [negative, if_pos rfl, value_of_neg negative, nearest_neg]
    push_cast
    rfl

/-- The places in front of the point can be counted, with those of one more digit. -/
def PlacesFit (x : Numeric) : Prop := -536870913 ≤ x.weight ∧ x.weight ≤ 536870909

theorem placesFit_iff {x : Numeric} : x.PlacesFit ↔ ScaleFits x.weight 0 := by
  have four : (x.weight + 1) * decDigits = (x.weight + 1) * 4 := rfl
  constructor
  · rintro ⟨low, high⟩
    exact ⟨by omega, by omega, by omega, by rw [four, decDigits]; omega⟩
  · rintro ⟨_, ⟨low, _⟩, _, padded⟩
    rw [four, decDigits] at padded
    exact ⟨by omega, by omega⟩

theorem toInt64_eq {x : Numeric} (wellFormed : x.WellFormed) (fit : x.PlacesFit) :
    x.toInt64 = int64OrThrow (nearest x.value) := by
  obtain ⟨rounded, run, stripped, value⟩ := round_whole wellFormed
  have checked : checkedRoundVar { x with spare := 1 } 0 = .ok rounded :=
    (@checkedRoundVar_eq { x with spare := 1 } 0 (placesFit_iff.mp fit)).trans run
  rw [toInt64, checked]
  exact toInt64_rounded stripped value

theorem toInt64_overflows {x : Numeric} (beyond : ¬x.PlacesFit) :
    x.toInt64 = .error .overflow := by
  have checked : checkedRoundVar { x with spare := 1 } 0 = .error .overflow :=
    @checkedRoundVar_overflows { x with spare := 1 } 0 (mt placesFit_iff.mpr beyond)
  rw [toInt64, checked]

theorem toInt_ofInt32 (n : Int) : (BitVec.ofInt 32 n).toInt = n ↔ FitsInt32 n := by
  constructor
  · intro same
    have low := @BitVec.le_toInt 32 (BitVec.ofInt 32 n)
    have high := @BitVec.toInt_lt 32 (BitVec.ofInt 32 n)
    exact ⟨by omega, by omega⟩
  · rintro ⟨low, high⟩
    rw [BitVec.toInt_ofInt, Int.bmod_eq_of_le]
    · omega
    · omega

theorem toInt32_eq {x : Numeric} (wellFormed : x.WellFormed) (fit : x.PlacesFit) :
    x.toInt32 =
      if FitsInt32 (nearest x.value) then .ok (nearest x.value) else .error integerOutOfRange := by
  rw [toInt32, toInt64_eq wellFormed fit]
  generalize nearest x.value = n
  by_cases wide : FitsInt64 n
  · rw [int64OrThrow_fits wide]
    dsimp only
    by_cases narrow : FitsInt32 n
    · rw [if_neg (not_not.mpr ((toInt_ofInt32 n).mpr narrow)), if_pos narrow,
        (toInt_ofInt32 n).mpr narrow]
    · rw [if_pos (mt (toInt_ofInt32 n).mp narrow), if_neg narrow]
  · have narrow : ¬FitsInt32 n := by
      intro contra
      exact wide ⟨by have := contra.1; omega, by have := contra.2; omega⟩
    rw [int64OrThrow_throws wide, if_neg narrow]
    dsimp only
    rw [if_pos rfl]

end Numeric

theorem storeDigits_spec {unused uval : Nat} {digits : List Int} (some : 0 < unused)
    (small : uval < nbase.toNat ^ unused) :
    ∃ front left, storeDigits unused uval digits = .ok (front ++ digits, left) ∧
      front.length + left = unused ∧ Radix.Digits nbase front ∧
      Radix.number nbase front = uval := by
  induction unused generalizing uval digits with
  | zero => exact absurd some (lt_irrefl 0)
  | succ unused ih =>
      have parts := Nat.div_add_mod uval nbase.toNat
      have own := Nat.mod_lt uval (show 0 < nbase.toNat by decide)
      have last : uval - uval / nbase.toNat * nbase.toNat = uval % nbase.toNat := by
        rw [mul_comm]
        omega
      have base : (nbase.toNat : Int) = nbase := rfl
      have digitRange : 0 ≤ ((uval % nbase.toNat : Nat) : Int) ∧
          ((uval % nbase.toNat : Nat) : Int) < nbase := by
        omega
      rw [storeDigits, last]
      by_cases more : uval / nbase.toNat ≠ 0
      · have rest : uval / nbase.toNat < nbase.toNat ^ unused := by
          rw [Nat.div_lt_iff_lt_mul (by decide), ← pow_succ]
          exact small
        have room : 0 < unused := by
          by_contra none
          rw [Nat.eq_zero_of_not_pos none, pow_zero] at rest
          exact more (Nat.lt_one_iff.mp rest)
        obtain ⟨front, left, run, length, range, number⟩ := ih room rest
        rw [if_pos more]
        refine ⟨front ++ [((uval % nbase.toNat : Nat) : Int)], left, ?_, ?_, ?_, ?_⟩
        · rw [run, List.append_assoc]
          rfl
        · rw [List.length_append, List.length_singleton]
          omega
        · exact Radix.digits_append.mpr
            ⟨range, Radix.digits_cons.mpr ⟨digitRange, Radix.Digits.nil⟩⟩
        · rw [Radix.number_concat, number, ← base]
          exact_mod_cast (by rw [mul_comm]; exact parts)
      · rw [if_neg more]
        refine ⟨[((uval % nbase.toNat : Nat) : Int)], unused, rfl, Nat.add_comm 1 unused,
          Radix.digits_cons.mpr ⟨digitRange, Radix.Digits.nil⟩, ?_⟩
        rw [not_not.mp more] at parts
        have single := @Radix.number_concat nbase [] ((uval % nbase.toNat : Nat) : Int)
        rw [List.nil_append, Radix.number_nil, zero_mul, zero_add] at single
        rw [single]
        omega

theorem natAbs_unsigned (val : BitVec 64) :
    (if val.toInt < 0 then (-val).toNat else val.toNat) = val.toInt.natAbs := by
  have bound := val.isLt
  rw [BitVec.toNat_neg, BitVec.toInt_eq_toNat_cond]
  split_ifs <;> omega

theorem fromInt64_spec (val : BitVec 64) :
    ∃ x, Numeric.fromInt64 val = .ok x ∧ x.WellFormed ∧ x.PlacesFit ∧ x.value = val.toInt := by
  rw [Numeric.fromInt64, int64ToNumericvar]
  dsimp only
  rw [natAbs_unsigned]
  by_cases zero : val = 0
  · rw [if_pos zero, zero]
    exact ⟨_, rfl, ⟨by decide, by decide, by decide⟩, ⟨by decide, by decide⟩,
      Numeric.value_of_nil rfl⟩
  · have nonzero : val.toInt ≠ 0 := by
      intro contra
      exact zero (BitVec.toInt_inj.mp contra)
    have small : val.toInt.natAbs < nbase.toNat ^ 5 := by
      have fits := fitsInt64_toInt val
      rw [FitsInt64] at fits
      have power : nbase.toNat ^ 5 = 10 ^ 20 := rfl
      omega
    obtain ⟨digits, left, run, length, range, number⟩ :=
      @storeDigits_spec 5 _ [] (by decide) small
    rw [List.append_nil] at run
    have count : ((20 : Int).tdiv decDigits).toNat = 5 := rfl
    rw [if_neg zero, count, run, ok_bind]
    have magnitude : Radix.magnitude nbase digits (digits.length - 1) = val.toInt.natAbs := by
      rw [Radix.magnitude_eq nbase_ne_zero, number]
      simp
    have some : ¬∀ digit ∈ digits, digit = 0 := by
      intro zeros
      rw [Radix.magnitude_of_zeros _ _ zeros] at magnitude
      exact nonzero (Int.natAbs_eq_zero.mp (by exact_mod_cast magnitude.symm))
    refine ⟨_, rfl, ⟨range, ?_, fun zeros => absurd zeros some⟩, ⟨?_, ?_⟩, ?_⟩
    · by_cases negative : val.toInt < 0
      · exact Or.inr (if_pos negative)
      · exact Or.inl (if_neg negative)
    · change -536870913 ≤ (digits.length : Int) - 1
      omega
    · change (digits.length : Int) - 1 ≤ 536870909
      omega
    · rw [Numeric.value, Numeric.magnitude]
      dsimp only
      rw [magnitude]
      by_cases negative : val.toInt < 0
      · rw [if_pos (if_pos negative), Nat.cast_natAbs, abs_of_neg negative]
        push_cast
        ring
      · rw [if_neg (by rw [if_neg negative]; decide), Nat.cast_natAbs,
          abs_of_nonneg (not_lt.mp negative)]

theorem fromInt64_toInt64 (val : BitVec 64) :
    ∃ x, Numeric.fromInt64 val = .ok x ∧ x.WellFormed ∧ x.value = val.toInt ∧
      x.toInt64 = .ok val.toInt := by
  obtain ⟨x, run, wellFormed, fit, value⟩ := fromInt64_spec val
  refine ⟨x, run, wellFormed, value, ?_⟩
  rw [toInt64_eq wellFormed fit, value, nearest_intCast, int64OrThrow_fits (fitsInt64_toInt val)]

namespace Numeric

/-- Both conversions give the nearest integer if their type holds that, and throw if not. -/
def Converts (x : Numeric) : Prop :=
  x.toInt64 = (if FitsInt64 (nearest x.value) then .ok (nearest x.value) else .error notInt64) ∧
  x.toInt32 = (if FitsInt32 (nearest x.value) then .ok (nearest x.value)
    else .error integerOutOfRange)

theorem converts_iff {x : Numeric} (wellFormed : x.WellFormed) : x.Converts ↔ x.PlacesFit := by
  constructor
  · rintro ⟨converted, _⟩
    by_contra beyond
    rw [toInt64_overflows beyond] at converted
    split at converted
    · cases converted
    · cases converted
  · intro fit
    exact ⟨toInt64_eq wellFormed fit, toInt32_eq wellFormed fit⟩

end Numeric

/-- The nearest integer goes away from zero from a tie. The conversions give it exactly when the
places of the numeric can be counted; each integer of 64 bits has a numeric that is converted
back to it. -/
theorem integer_conversions_iff {x : Numeric} (wellFormed : x.WellFormed) :
    (|x.value - nearest x.value| ≤ 1 / 2 ∧
      (|x.value - nearest x.value| = 1 / 2 → |x.value| < |(nearest x.value : ℚ)|)) ∧
    (x.Converts ↔ x.PlacesFit) ∧
    ∀ val : BitVec 64, ∃ n, Numeric.fromInt64 val = .ok n ∧ n.WellFormed ∧
      n.value = val.toInt ∧ n.toInt64 = .ok val.toInt :=
  ⟨abs_sub_nearest x.value, converts_iff wellFormed, fromInt64_toInt64⟩

theorem integer_conversions_iff_tie :
    let x : Numeric := ⟨0, [21, 4748, 3647, 5000], 2, numericPos, 1⟩
    (|x.value - nearest x.value| ≤ 1 / 2 ∧
      (|x.value - nearest x.value| = 1 / 2 → |x.value| < |(nearest x.value : ℚ)|)) ∧
    (x.Converts ↔ x.PlacesFit) ∧
    ∀ val : BitVec 64, ∃ n, Numeric.fromInt64 val = .ok n ∧ n.WellFormed ∧
      n.value = val.toInt ∧ n.toInt64 = .ok val.toInt :=
  integer_conversions_iff ⟨by decide, by decide, by decide⟩

theorem large_not_converted : ¬∀ x : Numeric, x.WellFormed → x.Converts := by
  intro converts
  have fit := (converts_iff ⟨by decide, by decide, by decide⟩).mp
    (converts ⟨0, [1], 536870911, numericPos, 0⟩ ⟨by decide, by decide, by decide⟩)
  exact absurd fit.2 (by decide)

example : Numeric.toInt64 ⟨0, [21, 4748, 3647, 5000], 2, numericPos, 1⟩ = .ok 2147483648 := by
  decide +kernel

end PqAsync
