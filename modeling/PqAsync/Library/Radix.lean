import Mathlib.Algebra.Order.Field.Rat
import Mathlib.Algebra.Order.Field.Power
import Mathlib.Data.List.GetD
import Mathlib.Data.Rat.Floor
import Mathlib.Tactic.FieldSimp
import Mathlib.Tactic.Linarith
import Mathlib.Tactic.LinearCombination
import Mathlib.Tactic.Positivity
import Mathlib.Tactic.Ring

/-!
Numbers as lists of digits to any base, the most significant digit first.
-/

namespace Radix

def Digits (base : Int) (ds : List Int) : Prop := ∀ d ∈ ds, 0 ≤ d ∧ d < base

instance (base : Int) (ds : List Int) : Decidable (Digits base ds) :=
  inferInstanceAs (Decidable (∀ d ∈ ds, 0 ≤ d ∧ d < base))

def number (base : Int) : List Int → Int
  | [] => 0
  | d :: ds => d * base ^ ds.length + number base ds

def magnitude (base : Int) : List Int → Int → ℚ
  | [], _ => 0
  | d :: ds, weight => d * (base : ℚ) ^ weight + magnitude base ds (weight - 1)

def digitAt (ds : List Int) (index : Int) : Int :=
  if 0 ≤ index ∧ index < ds.length then ds.getD index.toNat 0 else 0

/-- The number that `n` digits to the left of an index form, with zeros outside of the list. -/
def window (base : Int) (ds : List Int) : Nat → Int → Int
  | 0, _ => 0
  | n + 1, index => digitAt ds (index - 1) + base * window base ds n (index - 1)

variable {base : Int}

theorem emod_range (positive : 0 < base) (x : Int) : 0 ≤ x % base ∧ x % base < base :=
  ⟨Int.emod_nonneg x positive.ne', Int.emod_lt_of_pos x positive⟩

theorem Digits.nil : Digits base [] := by
  intro d member
  exact absurd member List.not_mem_nil

theorem digits_cons {d : Int} {ds : List Int} :
    Digits base (d :: ds) ↔ (0 ≤ d ∧ d < base) ∧ Digits base ds := List.forall_mem_cons

theorem digits_append {ds es : List Int} :
    Digits base (ds ++ es) ↔ Digits base ds ∧ Digits base es := List.forall_mem_append

theorem Digits.take {ds : List Int} (digits : Digits base ds) (n : Nat) :
    Digits base (ds.take n) := fun d member => digits d (List.mem_of_mem_take member)

theorem Digits.drop {ds : List Int} (digits : Digits base ds) (n : Nat) :
    Digits base (ds.drop n) := fun d member => digits d (List.mem_of_mem_drop member)

theorem digits_replicate_zero (positive : 0 < base) (n : Nat) :
    Digits base (List.replicate n 0) := by
  intro d member
  rw [List.eq_of_mem_replicate member]
  exact ⟨le_refl 0, positive⟩

@[simp] theorem number_nil : number base [] = 0 := rfl

theorem number_cons (d : Int) (ds : List Int) :
    number base (d :: ds) = d * base ^ ds.length + number base ds := rfl

theorem number_carry {digit carry total : Int} (split : digit + carry * base = total)
    (ds : List Int) (later : Int) :
    number base (digit :: ds) + base ^ (ds.length + 1) * (carry + later) =
      number base ds + base ^ ds.length * (total + base * later) := by
  rw [number_cons, ← split]
  ring

theorem number_append (ds es : List Int) :
    number base (ds ++ es) = number base ds * base ^ es.length + number base es := by
  induction ds with
  | nil => simp
  | cons d ds ih =>
      rw [List.cons_append, number_cons, number_cons, ih, List.length_append, pow_add]
      ring

theorem number_zero_cons (ds : List Int) : number base (0 :: ds) = number base ds := by
  rw [number_cons, zero_mul, zero_add]

theorem number_concat (ds : List Int) (d : Int) :
    number base (ds ++ [d]) = number base ds * base + d := by
  rw [number_append, number_cons]
  simp

theorem number_replicate_zero (n : Nat) : number base (List.replicate n 0) = 0 := by
  induction n with
  | zero => rfl
  | succ n ih => rw [List.replicate_succ, number_cons, ih, zero_mul, zero_add]

theorem number_take_succ {n : Nat} {ds : List Int} (inside : n ≤ ds.length) (d : Int) :
    number base ((d :: ds).take (n + 1)) = d * base ^ n + number base (ds.take n) := by
  rw [List.take_succ_cons, number_cons, List.length_take, min_eq_left inside]

theorem number_nonneg (positive : 0 < base) {ds : List Int} (digits : Digits base ds) :
    0 ≤ number base ds := by
  induction ds with
  | nil => exact le_refl 0
  | cons d ds ih =>
      obtain ⟨own, others⟩ := digits_cons.mp digits
      have power : 0 ≤ base ^ ds.length := (pow_pos positive _).le
      rw [number_cons]
      exact add_nonneg (mul_nonneg own.1 power) (ih others)

theorem number_lt (positive : 0 < base) {ds : List Int} (digits : Digits base ds) :
    number base ds < base ^ ds.length := by
  induction ds with
  | nil => simp
  | cons d ds ih =>
      obtain ⟨own, others⟩ := digits_cons.mp digits
      have power : 0 < base ^ ds.length := pow_pos positive _
      have rest := ih others
      have leading : d * base ^ ds.length ≤ (base - 1) * base ^ ds.length :=
        mul_le_mul_of_nonneg_right (by omega) power.le
      rw [number_cons, List.length_cons, pow_succ]
      linarith

theorem le_number (positive : 0 < base) {d : Int} {ds : List Int} (nonzero : 0 < d)
    (digits : Digits base ds) : base ^ ds.length ≤ number base (d :: ds) := by
  have power : 0 < base ^ ds.length := pow_pos positive _
  have rest := number_nonneg positive digits
  have leading : 1 * base ^ ds.length ≤ d * base ^ ds.length :=
    mul_le_mul_of_nonneg_right nonzero power.le
  rw [number_cons]
  linarith

theorem eq_zero_of_number (positive : 0 < base) {ds : List Int} (digits : Digits base ds)
    (zero : number base ds = 0) : ∀ d ∈ ds, d = 0 := by
  induction ds with
  | nil =>
      intro d member
      exact absurd member List.not_mem_nil
  | cons d ds ih =>
      obtain ⟨own, others⟩ := digits_cons.mp digits
      have first : d = 0 := by
        by_contra nonzero
        have large := le_number positive (lt_of_le_of_ne own.1 (Ne.symm nonzero)) others
        have power : 0 < base ^ ds.length := pow_pos positive _
        omega
      rw [number_cons, first, zero_mul, zero_add] at zero
      intro e member
      rcases List.mem_cons.mp member with same | later
      · rw [same, first]
      · exact ih others zero e later

theorem carry_eq_zero {carry total : Int} {n : Nat} (nonneg : 0 ≤ carry)
    (positive : 0 < base) (bound : carry * base ^ n ≤ total) (fits : total < base ^ n) :
    carry = 0 := by
  have below : carry * base ^ n < 1 * base ^ n := by
    rw [one_mul]
    exact lt_of_le_of_lt bound fits
  have less := lt_of_mul_lt_mul_right below (pow_pos positive n).le
  omega

theorem number_take_drop (ds : List Int) (n : Nat) :
    number base ds =
      number base (ds.take n) * base ^ (ds.drop n).length + number base (ds.drop n) := by
  conv_lhs => rw [← List.take_append_drop n ds]
  exact number_append _ _

theorem number_take_add (ds : List Int) {n m : Nat} (enough : n + m ≤ ds.length) :
    number base (ds.take (n + m)) =
      number base (ds.take n) * base ^ m + number base ((ds.drop n).take m) := by
  have places : ((ds.drop n).take m).length = m := by
    rw [List.length_take, List.length_drop]
    omega
  rw [List.take_add, number_append, places]

theorem number_take (positive : 0 < base) {ds : List Int} (digits : Digits base ds) (n : Nat) :
    number base (ds.take n) = number base ds / base ^ (ds.length - n) := by
  have low := number_nonneg positive (digits.drop n)
  have high := number_lt positive (digits.drop n)
  rw [List.length_drop] at high
  rw [number_take_drop ds n, List.length_drop, add_comm,
    Int.add_mul_ediv_right _ _ (pow_pos positive _).ne', Int.ediv_eq_zero_of_lt low high, zero_add]

theorem magnitude_eq (nonzero : base ≠ 0) (ds : List Int) (weight : Int) :
    magnitude base ds weight = number base ds * (base : ℚ) ^ (weight + 1 - ds.length) := by
  have cast : (base : ℚ) ≠ 0 := Int.cast_ne_zero.mpr nonzero
  induction ds generalizing weight with
  | nil => simp [magnitude]
  | cons d ds ih =>
      have split : weight = (ds.length : Int) + (weight - ds.length) := by ring
      have place : (base : ℚ) ^ weight = (base : ℚ) ^ ds.length *
          (base : ℚ) ^ (weight + 1 - (ds.length + 1 : Nat)) := by
        rw [← zpow_natCast, ← zpow_add₀ cast]
        congr 1
        push_cast
        ring
      rw [magnitude, ih, number_cons, List.length_cons, place]
      push_cast
      ring_nf

theorem magnitude_shift (nonzero : base ≠ 0) (ds : List Int) (weight : Int) (k : Nat) :
    magnitude base ds weight =
      (number base ds * base ^ k : Int) * (base : ℚ) ^ (weight + 1 - ds.length - k) := by
  have cast : (base : ℚ) ≠ 0 := Int.cast_ne_zero.mpr nonzero
  rw [magnitude_eq nonzero, zpow_sub₀ cast (weight + 1 - ds.length) k, zpow_natCast]
  push_cast
  field_simp

theorem magnitude_nonneg (positive : 0 < base) {ds : List Int} (digits : Digits base ds)
    (weight : Int) : 0 ≤ magnitude base ds weight := by
  rw [magnitude_eq positive.ne']
  have whole : (0 : ℚ) ≤ number base ds := Int.cast_nonneg (number_nonneg positive digits)
  have place : (0 : ℚ) < base := Int.cast_pos.mpr positive
  positivity

theorem magnitude_lt (positive : 0 < base) {ds : List Int} (digits : Digits base ds)
    (weight : Int) : magnitude base ds weight < (base : ℚ) ^ (weight + 1) := by
  have place : (0 : ℚ) < base := Int.cast_pos.mpr positive
  have whole : (number base ds : ℚ) < (base : ℚ) ^ ds.length := by
    exact_mod_cast number_lt positive digits
  calc magnitude base ds weight
      = number base ds * (base : ℚ) ^ (weight + 1 - ds.length) := magnitude_eq positive.ne' ds weight
    _ < (base : ℚ) ^ ds.length * (base : ℚ) ^ (weight + 1 - ds.length) :=
        mul_lt_mul_of_pos_right whole (zpow_pos place _)
    _ = (base : ℚ) ^ (weight + 1) := by
        rw [← zpow_natCast, ← zpow_add₀ place.ne']
        congr 1
        ring

theorem magnitude_pos (positive : 0 < base) {ds : List Int} (digits : Digits base ds)
    (weight : Int) (nonzero : ∃ d ∈ ds, d ≠ 0) : 0 < magnitude base ds weight := by
  have place : (0 : ℚ) < base := Int.cast_pos.mpr positive
  have whole : 0 < number base ds := by
    rcases (number_nonneg positive digits).lt_or_eq with larger | zero
    · exact larger
    · obtain ⟨d, member, different⟩ := nonzero
      exact absurd (eq_zero_of_number positive digits zero.symm d member) different
  have cast : (0 : ℚ) < number base ds := Int.cast_pos.mpr whole
  rw [magnitude_eq positive.ne']
  positivity

theorem le_magnitude (positive : 0 < base) {d : Int} {ds : List Int} (nonzero : 0 < d)
    (digits : Digits base ds) (weight : Int) :
    (base : ℚ) ^ weight ≤ magnitude base (d :: ds) weight := by
  have place : (0 : ℚ) < (base : ℚ) ^ weight := zpow_pos (Int.cast_pos.mpr positive) weight
  have one : (1 : ℚ) ≤ d := by exact_mod_cast nonzero
  have rest := magnitude_nonneg positive digits (weight - 1)
  rw [magnitude]
  nlinarith

theorem weight_le_of_magnitude (large : 1 < base) {d : Int} {ds es : List Int} (nonzero : 0 < d)
    (digits : Digits base ds) (others : Digits base es) {weight other : Int}
    (same : magnitude base (d :: ds) weight = magnitude base es other) : weight ≤ other := by
  have positive : 0 < base := by omega
  have low := le_magnitude positive nonzero digits weight
  have high := magnitude_lt positive others other
  rw [same] at low
  have exponents := (zpow_lt_zpow_iff_right₀ (show (1 : ℚ) < base by exact_mod_cast large)).mp
    (low.trans_lt high)
  omega

theorem exists_nonzero {ds : List Int} (some : ds ≠ []) (last : ds.getLast? ≠ Option.some 0) :
    ∃ d ∈ ds, d ≠ 0 := by
  refine ⟨ds.getLast some, List.getLast_mem some, ?_⟩
  intro zero
  apply last
  rw [List.getLast?_eq_some_getLast some, zero]

theorem digits_unique (positive : 0 < base) {ds es : List Int} (digits : Digits base ds)
    (others : Digits base es) (last : ds.getLast? ≠ some 0) (otherLast : es.getLast? ≠ some 0)
    {weight : Int} (same : magnitude base ds weight = magnitude base es weight) : ds = es := by
  induction ds generalizing es weight with
  | nil =>
      by_contra different
      have above := magnitude_pos positive others weight (exists_nonzero (Ne.symm different) otherLast)
      exact absurd same above.ne
  | cons d ds ih =>
      cases es with
      | nil =>
          have above := magnitude_pos positive digits weight (exists_nonzero (by simp) last)
          exact absurd same above.ne'
      | cons e es =>
          obtain ⟨_, rest⟩ := digits_cons.mp digits
          obtain ⟨_, otherRest⟩ := digits_cons.mp others
          have place : (0 : ℚ) < (base : ℚ) ^ weight := zpow_pos (Int.cast_pos.mpr positive) weight
          have low := magnitude_nonneg positive rest (weight - 1)
          have otherLow := magnitude_nonneg positive otherRest (weight - 1)
          have high := magnitude_lt positive rest (weight - 1)
          have otherHigh := magnitude_lt positive otherRest (weight - 1)
          rw [sub_add_cancel] at high otherHigh
          rw [magnitude, magnitude] at same
          have above : (d : ℚ) < e + 1 := lt_of_mul_lt_mul_right (by linarith) place.le
          have below : (e : ℚ) < d + 1 := lt_of_mul_lt_mul_right (by linarith) place.le
          have first : d = e := by
            have high : d < e + 1 := by exact_mod_cast above
            have low : e < d + 1 := by exact_mod_cast below
            omega
          rw [first] at same ⊢
          have shorter {c : Int} {cs : List Int} (whole : (c :: cs).getLast? ≠ some 0) :
              cs.getLast? ≠ some 0 := by
            intro zero
            apply whole
            rw [List.getLast?_cons, zero]
            rfl
          rw [ih rest otherRest (shorter last) (shorter otherLast) (add_left_cancel same)]

theorem magnitude_of_zeros (ds : List Int) (weight : Int) (zeros : ∀ d ∈ ds, d = 0) :
    magnitude base ds weight = 0 := by
  induction ds generalizing weight with
  | nil => rfl
  | cons d ds ih =>
      obtain ⟨first, others⟩ := List.forall_mem_cons.mp zeros
      rw [magnitude, first, ih _ others]
      simp

theorem magnitude_append (ds es : List Int) (weight : Int) :
    magnitude base (ds ++ es) weight =
      magnitude base ds weight + magnitude base es (weight - ds.length) := by
  induction ds generalizing weight with
  | nil => simp [magnitude]
  | cons d ds ih =>
      have shift : weight - 1 - ds.length = weight - (d :: ds).length := by
        rw [List.length_cons]
        push_cast
        ring
      rw [List.cons_append, magnitude, magnitude, ih, shift]
      ring

theorem digitAt_mem {ds : List Int} {index : Int} (low : 0 ≤ index) (high : index < ds.length) :
    digitAt ds index ∈ ds := by
  have bound : index.toNat < ds.length := by omega
  rw [digitAt, if_pos ⟨low, high⟩, List.getD_eq_getElem _ _ bound]
  exact List.getElem_mem bound

theorem digitAt_outside {ds : List Int} {index : Int} (outside : ¬(0 ≤ index ∧ index < ds.length)) :
    digitAt ds index = 0 := if_neg outside

theorem digitAt_range (positive : 0 < base) {ds : List Int} (digits : Digits base ds)
    (index : Int) : 0 ≤ digitAt ds index ∧ digitAt ds index < base := by
  by_cases inside : 0 ≤ index ∧ index < ds.length
  · exact digits _ (digitAt_mem inside.1 inside.2)
  · rw [digitAt_outside inside]
    exact ⟨le_refl 0, positive⟩

theorem digitAt_concat (ds : List Int) (d : Int) : digitAt (ds ++ [d]) ds.length = d := by
  simp [digitAt]

theorem digitAt_append_left (ds es : List Int) {index : Int} (before : index < ds.length) :
    digitAt (ds ++ es) index = digitAt ds index := by
  by_cases low : 0 ≤ index
  · have bound : index.toNat < ds.length := by omega
    rw [digitAt, digitAt, if_pos (by rw [List.length_append]; omega), if_pos ⟨low, before⟩,
      List.getD_append _ _ _ _ bound]
  · rw [digitAt_outside (fun inside => low inside.1), digitAt_outside (fun inside => low inside.1)]

theorem window_append (ds es : List Int) (n : Nat) {index : Int} (before : index ≤ ds.length) :
    window base (ds ++ es) n index = window base ds n index := by
  induction n generalizing index with
  | zero => rfl
  | succ n ih => rw [window, window, digitAt_append_left ds es (by omega), ih (by omega)]

theorem window_nil (n : Nat) (index : Int) : window base [] n index = 0 := by
  induction n generalizing index with
  | zero => rfl
  | succ n ih =>
      rw [window, ih, digitAt_outside (by simp)]
      simp

theorem concat_emod {d : Int} (own : 0 ≤ d ∧ d < base) (whole : Int) (n : Nat) :
    (whole * base + d) % base ^ (n + 1) = d + base * (whole % base ^ n) := by
  have positive : 0 < base := by omega
  have high := Int.emod_lt_of_pos whole (pow_pos positive n)
  have low := Int.emod_nonneg whole (pow_pos positive n).ne'
  have split := Int.mul_ediv_add_emod whole (base ^ n)
  have sum : whole * base + d =
      d + base * (whole % base ^ n) + base ^ (n + 1) * (whole / base ^ n) := by
    rw [pow_succ]
    linear_combination (-base) * split
  rw [sum, Int.add_mul_emod_self_left]
  refine Int.emod_eq_of_lt ?_ ?_
  · exact add_nonneg own.1 (mul_nonneg positive.le low)
  · rw [pow_succ]
    nlinarith

theorem window_eq (positive : 0 < base) {ds : List Int} (digits : Digits base ds) (n k : Nat) :
    window base ds n (ds.length + k) = number base ds * base ^ k % base ^ n := by
  induction n generalizing ds k with
  | zero => simp [window]
  | succ n ih =>
      cases k with
      | succ k =>
          have index : (ds.length : Int) + (k + 1 : Nat) - 1 = ds.length + k := by omega
          have outside : ¬(0 ≤ (ds.length : Int) + k ∧ (ds.length : Int) + k < ds.length) := by omega
          rw [window, index, digitAt_outside outside, ih digits, pow_succ' base n, pow_succ' base k,
            mul_left_comm, Int.mul_emod_mul_of_pos _ _ positive, zero_add]
      | zero =>
          rcases List.eq_nil_or_concat ds with empty | ⟨init, d, split⟩
          · rw [empty, window_nil]
            simp
          · rw [List.concat_eq_append] at split
            obtain ⟨front, last⟩ := digits_append.mp (split ▸ digits)
            have own : 0 ≤ d ∧ d < base := last d (List.mem_singleton_self d)
            have index : ((init ++ [d]).length : Int) + (0 : Nat) - 1 = init.length + (0 : Nat) := by
              simp
            have rest := ih front 0
            rw [split, window, index, window_append init [d] n (by omega), rest]
            have first : digitAt (init ++ [d]) (init.length + (0 : Nat)) = d := by
              simpa using digitAt_concat init d
            rw [first, number_concat, pow_zero, mul_one, mul_one, concat_emod own]

theorem window_eq_number (positive : 0 < base) {ds : List Int} (digits : Digits base ds) {n k : Nat}
    (fits : number base ds * base ^ k < base ^ n) :
    window base ds n (ds.length + k) = number base ds * base ^ k := by
  rw [window_eq positive digits]
  refine Int.emod_eq_of_lt ?_ fits
  exact mul_nonneg (number_nonneg positive digits) (pow_pos positive k).le

theorem window_before (ds : List Int) (n : Nat) {index : Int} (before : index ≤ 0) :
    window base ds n index = 0 := by
  induction n generalizing index with
  | zero => rfl
  | succ n ih => rw [window, ih (by omega), digitAt_outside (by omega), mul_zero, add_zero]

theorem window_floor (positive : 0 < base) {ds : List Int} (digits : Digits base ds)
    (weight index : Int) (n : Nat) :
    window base ds n index =
      ⌊magnitude base ds weight * (base : ℚ) ^ (index - weight - 1)⌋ % base ^ n := by
  have place : (0 : ℚ) < base := Int.cast_pos.mpr positive
  have one : (1 : ℚ) ≤ base := by exact_mod_cast positive
  have nonneg := magnitude_nonneg positive digits weight
  rcases le_or_gt index 0 with before | after
  · have below : magnitude base ds weight * (base : ℚ) ^ (index - weight - 1) < 1 := by
      calc magnitude base ds weight * (base : ℚ) ^ (index - weight - 1)
          < (base : ℚ) ^ (weight + 1) * (base : ℚ) ^ (index - weight - 1) :=
            mul_lt_mul_of_pos_right (magnitude_lt positive digits weight) (zpow_pos place _)
        _ = (base : ℚ) ^ index := by
            rw [← zpow_add₀ place.ne']
            congr 1
            ring
        _ ≤ 1 := zpow_le_one_of_nonpos₀ one before
    have none : ⌊magnitude base ds weight * (base : ℚ) ^ (index - weight - 1)⌋ = 0 :=
      Int.floor_eq_zero_iff.mpr ⟨mul_nonneg nonneg (zpow_pos place _).le, below⟩
    rw [window_before ds n before, none, Int.zero_emod]
  · rcases le_or_gt (ds.length : Int) index with beyond | inside
    · obtain ⟨k, rfl⟩ : ∃ k : Nat, index = ds.length + k := ⟨(index - ds.length).toNat, by omega⟩
      have whole : magnitude base ds weight * (base : ℚ) ^ ((ds.length : Int) + k - weight - 1) =
          (number base ds * base ^ k : Int) := by
        have exponents : weight + 1 - ds.length + (ds.length + k - weight - 1) = (k : Int) := by ring
        rw [magnitude_eq positive.ne', mul_assoc, ← zpow_add₀ place.ne', exponents, zpow_natCast]
        push_cast
        ring
      rw [window_eq positive digits, whole, Int.floor_intCast]
    · obtain ⟨i, rfl⟩ : ∃ i : Nat, index = i := ⟨index.toNat, by omega⟩
      have length : (ds.take i).length = i := by
        rw [List.length_take]
        omega
      have front := digits.take i
      have back := digits.drop i
      have split : window base ds n i = number base (ds.take i) % base ^ n := by
        have own := window_eq positive front n 0
        rw [length, Nat.cast_zero, add_zero, pow_zero, mul_one] at own
        rw [← own]
        conv_lhs => rw [← List.take_append_drop i ds]
        exact window_append _ _ n (by omega)
      have rest := magnitude_nonneg positive back (weight - i)
      have small : magnitude base (ds.drop i) (weight - i) * (base : ℚ) ^ ((i : Int) - weight - 1) <
          1 := by
        calc magnitude base (ds.drop i) (weight - i) * (base : ℚ) ^ ((i : Int) - weight - 1)
            < (base : ℚ) ^ (weight - i + 1) * (base : ℚ) ^ ((i : Int) - weight - 1) :=
              mul_lt_mul_of_pos_right (magnitude_lt positive back _) (zpow_pos place _)
          _ = 1 := by
              rw [← zpow_add₀ place.ne']
              have none : weight - i + 1 + (i - weight - 1) = 0 := by ring
              rw [none, zpow_zero]
      have parts : magnitude base ds weight * (base : ℚ) ^ ((i : Int) - weight - 1) =
          number base (ds.take i) +
            magnitude base (ds.drop i) (weight - i) * (base : ℚ) ^ ((i : Int) - weight - 1) := by
        have whole := @magnitude_append base (ds.take i) (ds.drop i) weight
        rw [List.take_append_drop, length, magnitude_eq positive.ne' (ds.take i), length] at whole
        have exponents : weight + 1 - i + (i - weight - 1) = (0 : Int) := by ring
        rw [whole, add_mul, mul_assoc, ← zpow_add₀ place.ne', exponents, zpow_zero, mul_one]
      have floor : ⌊magnitude base ds weight * (base : ℚ) ^ ((i : Int) - weight - 1)⌋ =
          number base (ds.take i) := by
        rw [parts, Int.floor_intCast_add, Int.floor_eq_zero_iff.mpr
          ⟨mul_nonneg rest (zpow_pos place _).le, small⟩, add_zero]
      rw [split, floor]

theorem number_places (ds : List Int) (start : Int) (n : Nat) :
    number base ((List.range n).map fun i : Nat => digitAt ds (start + i)) =
      window base ds n (start + n) := by
  induction n with
  | zero => rfl
  | succ n ih =>
      have index : start + (n + 1 : Nat) - 1 = start + n := by
        push_cast
        ring
      rw [List.range_succ, List.map_append, List.map_singleton, number_concat, ih, window, index]
      ring

end Radix
