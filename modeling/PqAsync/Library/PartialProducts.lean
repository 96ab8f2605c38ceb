import PqAsync.Library.Radix
import Mathlib.Algebra.BigOperators.Group.Finset.Basic
import Mathlib.Algebra.BigOperators.Intervals
import Mathlib.Algebra.BigOperators.Ring.Finset
import Mathlib.Algebra.Order.BigOperators.Group.Finset

/-!
Products of digit strings of which only some digit pairs are multiplied.
-/

namespace Radix

open Finset

def partialProduct (base : Int) (keep : Nat → Nat → Bool) (ds es : List Int) (weight : Int) : ℚ :=
  ∑ i ∈ range ds.length, ∑ j ∈ range es.length,
    if keep i j then ((ds.getD i 0 * es.getD j 0 : Int) : ℚ) * (base : ℚ) ^ (weight - i - j) else 0

/-- What multiplies digits from the first one on, with `n` places for the products of each. -/
def keptNumber (base : Int) (es : List Int) : List Int → Nat → Int
  | [], _ => 0
  | d :: ds, n => d * number base (es.take n) * base ^ (n - es.length) + keptNumber base es ds (n - 1)

variable {base : Int}

theorem sum_magnitude (ds : List Int) (weight : Int) :
    ∑ i ∈ range ds.length, (ds.getD i 0 : ℚ) * (base : ℚ) ^ (weight - i) =
      magnitude base ds weight := by
  induction ds generalizing weight with
  | nil => rfl
  | cons d ds ih =>
      rw [List.length_cons, sum_range_succ', magnitude, ← ih, add_comm]
      congr 1
      · simp
      · refine sum_congr rfl fun i _ => ?_
        have place : weight - (i + 1 : Nat) = weight - 1 - i := by
          push_cast
          ring
        rw [place]
        rfl

theorem sum_magnitude_take (es : List Int) (n : Nat) (weight : Int) :
    (∑ j ∈ range es.length, if j < n then (es.getD j 0 : ℚ) * (base : ℚ) ^ (weight - j) else 0) =
      magnitude base (es.take n) weight := by
  induction es generalizing n weight with
  | nil => rw [List.take_nil]; rfl
  | cons e es ih =>
      rw [List.length_cons, sum_range_succ']
      cases n with
      | zero => simp [magnitude]
      | succ n =>
          rw [List.take_succ_cons, magnitude, ← ih, add_comm]
          congr 1
          · simp
          · refine sum_congr rfl fun j _ => ?_
            have place : weight - (j + 1 : Nat) = weight - 1 - j := by
              push_cast
              ring
            rw [place]
            simp only [Nat.add_lt_add_iff_right]
            rfl

theorem partialProduct_swap {keep : Nat → Nat → Bool} (symmetric : ∀ i j, keep i j = keep j i)
    (ds es : List Int) (weight : Int) :
    partialProduct base keep ds es weight = partialProduct base keep es ds weight := by
  rw [partialProduct, partialProduct, sum_comm]
  refine sum_congr rfl fun j _ => sum_congr rfl fun i _ => ?_
  rw [symmetric, mul_comm (ds.getD i 0), sub_right_comm]

theorem partialProduct_nonneg (positive : 0 < base) (keep : Nat → Nat → Bool) {ds es : List Int}
    (digits1 : Digits base ds) (digits2 : Digits base es) (weight : Int) :
    0 ≤ partialProduct base keep ds es weight := by
  have nonneg {ds : List Int} (digits : Digits base ds) {i : Nat} (inside : i ∈ range ds.length) :
      0 ≤ ds.getD i 0 := by
    have bound := mem_range.mp inside
    rw [List.getD_eq_getElem _ _ bound]
    exact (digits _ (List.getElem_mem bound)).1
  refine sum_nonneg fun i insideI => sum_nonneg fun j insideJ => ?_
  by_cases kept : keep i j
  · rw [if_pos kept]
    exact mul_nonneg (Int.cast_nonneg (mul_nonneg (nonneg digits1 insideI) (nonneg digits2 insideJ)))
      (zpow_pos (Int.cast_pos.mpr positive) _).le
  · rw [if_neg kept]

theorem partialProduct_add_not (nonzero : base ≠ 0) (keep : Nat → Nat → Bool) (ds es : List Int)
    (weight1 weight2 : Int) :
    partialProduct base keep ds es (weight1 + weight2) +
        partialProduct base (fun i j => !keep i j) ds es (weight1 + weight2) =
      magnitude base ds weight1 * magnitude base es weight2 := by
  rw [partialProduct, partialProduct, ← sum_add_distrib, ← sum_magnitude ds, ← sum_magnitude es,
    sum_mul_sum]
  refine sum_congr rfl fun i _ => ?_
  rw [← sum_add_distrib]
  refine sum_congr rfl fun j _ => ?_
  have exponent : weight1 + weight2 - i - j = (weight1 - i) + (weight2 - j) := by ring
  rw [exponent, zpow_add₀ (Int.cast_ne_zero.mpr nonzero)]
  cases keep i j with
  | true =>
      simp only [Bool.not_true, if_true, Bool.false_eq_true, if_false]
      push_cast
      ring
  | false =>
      simp only [Bool.not_false, if_true, Bool.false_eq_true, if_false]
      push_cast
      ring

theorem partialProduct_none {keep : Nat → Nat → Bool} {ds es : List Int}
    (none : ∀ i < ds.length, ∀ j < es.length, keep i j = false) (weight : Int) :
    partialProduct base keep ds es weight = 0 := by
  refine sum_eq_zero fun i insideI => sum_eq_zero fun j insideJ => ?_
  rw [none i (mem_range.mp insideI) j (mem_range.mp insideJ), if_neg Bool.false_ne_true]

theorem keptNumber_zero (es ds : List Int) : keptNumber base es ds 0 = 0 := by
  induction ds with
  | nil => rfl
  | cons d ds ih => rw [keptNumber, ih, List.take_zero, number_nil, mul_zero, zero_mul, add_zero]

theorem keptNumber_lt (large : 1 < base) {ds es : List Int} (digits1 : Digits base ds)
    (digits2 : Digits base es) (n : Nat) : keptNumber base es ds n < base ^ (n + 1) := by
  have positive : 0 < base := by omega
  induction ds generalizing n with
  | nil => exact pow_pos positive _
  | cons d ds ih =>
      cases n with
      | zero =>
          rw [keptNumber_zero]
          exact pow_pos positive _
      | succ n =>
          obtain ⟨own, others⟩ := digits_cons.mp digits1
          have high := number_lt positive (digits2.take (n + 1))
          have rest := ih others n
          have places : (es.take (n + 1)).length + (n + 1 - es.length) = n + 1 := by
            rw [List.length_take]
            omega
          have aligned : number base (es.take (n + 1)) * base ^ (n + 1 - es.length) <
              base ^ (n + 1) := by
            conv_rhs => rw [← places, pow_add]
            exact mul_lt_mul_of_pos_right high (pow_pos positive _)
          have scaled : d * (number base (es.take (n + 1)) * base ^ (n + 1 - es.length)) ≤
              (base - 1) * (base ^ (n + 1) - 1) :=
            mul_le_mul (by omega) (by omega) (mul_nonneg (number_nonneg positive (digits2.take _))
              (pow_pos positive _).le) (by omega)
          have power : base ^ (n + 1 + 1) = base * base ^ (n + 1) := pow_succ' base (n + 1)
          rw [keptNumber, mul_assoc, power, Nat.add_sub_cancel]
          linarith

/-- Seen from its last place, the number is the product of the pairs that stand in the first
`n` places. -/
theorem keptNumber_eq (nonzero : base ≠ 0) (ds es : List Int) (n : Nat) (weight : Int) :
    (keptNumber base es ds n : ℚ) * (base : ℚ) ^ (weight + 1 - n) =
      partialProduct base (fun i j => i + j < n) ds es weight := by
  have nonzeroCast : (base : ℚ) ≠ 0 := Int.cast_ne_zero.mpr nonzero
  induction ds generalizing n weight with
  | nil => simp [keptNumber, partialProduct]
  | cons d ds ih =>
      cases n with
      | zero =>
          rw [keptNumber_zero, partialProduct_none (by simp)]
          simp
      | succ n =>
          have first : (∑ j ∈ range es.length, if decide (0 + j < n + 1) then
                (((d :: ds).getD 0 0 * es.getD j 0 : Int) : ℚ) *
                  (base : ℚ) ^ (weight - (0 : Nat) - j) else 0) =
              d * magnitude base (es.take (n + 1)) weight := by
            rw [← sum_magnitude_take, mul_sum]
            refine sum_congr rfl fun j _ => ?_
            by_cases kept : j < n + 1
            · simp [kept, mul_assoc]
            · simp [kept]
          have rest : (∑ i ∈ range ds.length, ∑ j ∈ range es.length,
                if decide (i + 1 + j < n + 1) then
                  (((d :: ds).getD (i + 1) 0 * es.getD j 0 : Int) : ℚ) *
                    (base : ℚ) ^ (weight - (i + 1 : Nat) - j) else 0) =
              partialProduct base (fun i j => i + j < n) ds es (weight - 1) := by
            refine sum_congr rfl fun i _ => sum_congr rfl fun j _ => ?_
            have place : weight - (i + 1 : Nat) - j = weight - 1 - i - j := by
              push_cast
              ring
            have bound : decide (i + 1 + j < n + 1) = decide (i + j < n) :=
              decide_eq_decide.mpr (by omega)
            rw [place, bound]
            rfl
          have exponent : weight + 1 - ((n + 1 : Nat) : Int) = weight - 1 + 1 - n := by
            push_cast
            ring
          have aligned : (base : ℚ) ^ (n + 1 - es.length) * (base : ℚ) ^ (weight + 1 - ((n + 1 : Nat) : Int)) =
              (base : ℚ) ^ (weight + 1 - (es.take (n + 1)).length) := by
            rw [← zpow_natCast, ← zpow_add₀ nonzeroCast, List.length_take]
            congr 1
            omega
          rw [partialProduct, List.length_cons, sum_range_succ', first, rest, ← ih, keptNumber,
            magnitude_eq nonzero, ← aligned, ← exponent, Nat.add_sub_cancel]
          push_cast
          ring

end Radix
