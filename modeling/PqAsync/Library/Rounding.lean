import Mathlib.Data.Rat.Floor
import Mathlib.Algebra.Order.Field.Power
import Mathlib.Tactic.FieldSimp
import Mathlib.Tactic.Linarith
import Mathlib.Tactic.Positivity
import Mathlib.Tactic.Ring

/-!
Rational numbers cut to a number of decimal places, and the remainder of a truncated quotient.
-/

namespace Rounding

def trunc (value : ℚ) : Int := if 0 ≤ value then ⌊value⌋ else ⌈value⌉

def floorAt (value : ℚ) (scale : Int) : ℚ := ⌊value * 10 ^ scale⌋ * 10 ^ (-scale)

def truncAt (value : ℚ) (scale : Int) : ℚ := trunc (value * 10 ^ scale) * 10 ^ (-scale)

/-- The integer nearest to a value, and of two that are as near the one away from zero. -/
def nearest (value : ℚ) : Int := if 0 ≤ value then ⌊value + 1 / 2⌋ else ⌈value - 1 / 2⌉

def nearestAt (value : ℚ) (scale : Int) : ℚ := nearest (value * 10 ^ scale) * 10 ^ (-scale)

theorem ten_pos (scale : Int) : (0 : ℚ) < 10 ^ scale := zpow_pos (by norm_num) scale

theorem ten_add (a b : Int) : (10 : ℚ) ^ (a + b) = 10 ^ a * 10 ^ b := zpow_add₀ (by norm_num) a b

theorem trunc_neg (value : ℚ) : trunc (-value) = -trunc value := by
  rcases lt_trichotomy value 0 with negative | zero | positive
  · rw [trunc, trunc, if_pos (by linarith), if_neg (by linarith), Int.floor_neg]
  · rw [zero]
    simp [trunc]
  · rw [trunc, trunc, if_neg (by linarith), if_pos positive.le, Int.ceil_neg]

theorem trunc_intCast (n : Int) : trunc (n : ℚ) = n := by simp [trunc]

theorem truncAt_of_whole {value : ℚ} {scale whole : Int} (places : value * 10 ^ scale = whole) :
    truncAt value scale = value := by
  rw [truncAt, places, trunc_intCast, ← places, mul_assoc, ← ten_add, add_neg_cancel, zpow_zero,
    mul_one]

theorem truncAt_of_nonneg {value : ℚ} (nonneg : 0 ≤ value) (scale : Int) :
    truncAt value scale = floorAt value scale := by
  rw [truncAt, floorAt, trunc, if_pos (mul_nonneg nonneg (ten_pos scale).le)]

theorem truncAt_neg (value : ℚ) (scale : Int) : truncAt (-value) scale = -truncAt value scale := by
  rw [truncAt, truncAt, neg_mul, trunc_neg]
  push_cast
  ring

theorem truncAt_zero (value : ℚ) : truncAt value 0 = trunc value := by simp [truncAt]

theorem floorAt_of_whole {value : ℚ} {scale whole : Int} (places : value * 10 ^ scale = whole) :
    floorAt value scale = value := by
  rw [floorAt, places, Int.floor_intCast, ← places, mul_assoc, ← ten_add, add_neg_cancel, zpow_zero,
    mul_one]

theorem floorAt_eq_zero {value : ℚ} {scale : Int} (nonneg : 0 ≤ value)
    (small : value * 10 ^ scale < 1) : floorAt value scale = 0 := by
  have zero : ⌊value * 10 ^ scale⌋ = 0 := by
    rw [Int.floor_eq_zero_iff]
    exact ⟨mul_nonneg nonneg (ten_pos scale).le, small⟩
  rw [floorAt, zero, Int.cast_zero, zero_mul]

theorem floorAt_floorAt (value : ℚ) {fine coarse : Int} (order : coarse ≤ fine) :
    floorAt (floorAt value fine) coarse = floorAt value coarse := by
  obtain ⟨n, places⟩ : ∃ n : Nat, fine = coarse + n := ⟨(fine - coarse).toNat, by omega⟩
  have power : (10 : ℚ) ^ (-fine) * 10 ^ coarse = ((10 ^ n : Int) : ℚ)⁻¹ := by
    rw [← ten_add, places]
    have exponent : -(coarse + (n : Int)) + coarse = -(n : Int) := by ring
    rw [exponent, zpow_neg, zpow_natCast]
    push_cast
    rfl
  have scaled : value * 10 ^ coarse = value * 10 ^ fine / ((10 ^ n : Int) : ℚ) := by
    rw [places, ten_add, zpow_natCast]
    push_cast
    field_simp
  have nonneg : (0 : Int) ≤ 10 ^ n := by positivity
  rw [floorAt, floorAt, floorAt, mul_assoc, power, ← div_eq_mul_inv, scaled,
    Int.floor_div_cast_of_nonneg nonneg, Int.floor_div_cast_of_nonneg nonneg, Int.floor_intCast]

theorem sub_trunc_range (value : ℚ) :
    (0 ≤ value → 0 ≤ value - trunc value) ∧ (value ≤ 0 → value - trunc value ≤ 0) ∧
      |value - trunc value| < 1 := by
  by_cases nonneg : 0 ≤ value
  · have low := Int.floor_le value
    have high := Int.lt_floor_add_one value
    rw [trunc, if_pos nonneg]
    refine ⟨fun _ => by linarith, ?_, abs_lt.mpr ⟨by linarith, by linarith⟩⟩
    intro nonpos
    have zero : value = 0 := le_antisymm nonpos nonneg
    rw [zero]
    simp
  · have low := Int.le_ceil value
    have high := Int.ceil_lt_add_one value
    rw [trunc, if_neg nonneg]
    refine ⟨fun contra => absurd contra nonneg, fun _ => by linarith, ?_⟩
    exact abs_lt.mpr ⟨by linarith, by linarith⟩

theorem remainder_nonneg {x y : ℚ} (nonzero : y ≠ 0) (nonneg : 0 ≤ x) :
    0 ≤ x - trunc (x / y) * y := by
  obtain ⟨ofNonneg, ofNonpos, _⟩ := sub_trunc_range (x / y)
  have whole : x - trunc (x / y) * y = (x / y - trunc (x / y)) * y := by
    rw [sub_mul, div_mul_cancel₀ x nonzero]
  rw [whole]
  rcases lt_or_gt_of_ne nonzero with negative | positive
  · exact mul_nonneg_of_nonpos_of_nonpos
      (ofNonpos (div_nonpos_of_nonneg_of_nonpos nonneg negative.le)) negative.le
  · exact mul_nonneg (ofNonneg (div_nonneg nonneg positive.le)) positive.le

theorem remainder_nonpos {x y : ℚ} (nonzero : y ≠ 0) (nonpos : x ≤ 0) :
    x - trunc (x / y) * y ≤ 0 := by
  have mirrored := remainder_nonneg nonzero (neg_nonneg.mpr nonpos)
  rw [neg_div, trunc_neg] at mirrored
  push_cast at mirrored
  linarith

theorem abs_remainder_lt {x y : ℚ} (nonzero : y ≠ 0) : |x - trunc (x / y) * y| < |y| := by
  obtain ⟨_, _, small⟩ := sub_trunc_range (x / y)
  have whole : x - trunc (x / y) * y = (x / y - trunc (x / y)) * y := by
    rw [sub_mul, div_mul_cancel₀ x nonzero]
  rw [whole, abs_mul]
  exact mul_lt_of_lt_one_left (abs_pos.mpr nonzero) small

theorem nearest_of_nonneg {value : ℚ} (nonneg : 0 ≤ value) : nearest value = ⌊value + 1 / 2⌋ :=
  if_pos nonneg

theorem nearest_neg (value : ℚ) : nearest (-value) = -nearest value := by
  rcases lt_trichotomy value 0 with negative | zero | positive
  · rw [nearest, nearest, if_pos (by linarith), if_neg (by linarith), ← Int.floor_neg]
    congr 1
    ring
  · have none : nearest 0 = 0 := by norm_num [nearest]
    rw [zero, neg_zero, none, neg_zero]
  · rw [nearest, nearest, if_neg (by linarith), if_pos positive.le, ← Int.ceil_neg]
    congr 1
    ring

theorem nearest_intCast (n : Int) : nearest (n : ℚ) = n := by
  have half : ⌊(1 : ℚ) / 2⌋ = 0 := by norm_num
  rcases le_total 0 n with nonneg | nonpos
  · rw [nearest_of_nonneg (by exact_mod_cast nonneg), Int.floor_intCast_add, half, add_zero]
  · have mirrored := nearest_neg (n : ℚ)
    rw [← Int.cast_neg, nearest_of_nonneg (by exact_mod_cast neg_nonneg.mpr nonpos),
      Int.floor_intCast_add, half] at mirrored
    omega

theorem nearestAt_neg (value : ℚ) (scale : Int) :
    nearestAt (-value) scale = -nearestAt value scale := by
  rw [nearestAt, nearestAt, neg_mul, nearest_neg]
  push_cast
  ring

theorem nearestAt_zero (value : ℚ) : nearestAt value 0 = nearest value := by simp [nearestAt]

theorem nearestAt_of_nonneg {value : ℚ} (nonneg : 0 ≤ value) (scale : Int) :
    nearestAt value scale = ⌊value * 10 ^ scale + 1 / 2⌋ * 10 ^ (-scale) := by
  rw [nearestAt, nearest_of_nonneg (mul_nonneg nonneg (ten_pos scale).le)]

theorem nearestAt_of_whole {value : ℚ} {scale whole : Int} (places : value * 10 ^ scale = whole) :
    nearestAt value scale = value := by
  rw [nearestAt, places, nearest_intCast, ← places, mul_assoc, ← ten_add, add_neg_cancel, zpow_zero,
    mul_one]

theorem nearestAt_add_iff {value more : ℚ} (nonneg : 0 ≤ value) (some : 0 ≤ more) (scale : Int) :
    nearestAt (value + more) scale = nearestAt value scale ↔
      Int.fract (value * 10 ^ scale + 1 / 2) + more * 10 ^ scale < 1 := by
  have positive := ten_pos scale
  have added := mul_nonneg some positive.le
  have unit : (10 : ℚ) ^ (-scale) ≠ 0 := (ten_pos (-scale)).ne'
  have sum : (value + more) * 10 ^ scale + 1 / 2 =
      value * 10 ^ scale + 1 / 2 + more * 10 ^ scale := by ring
  have low := Int.floor_le (value * 10 ^ scale + 1 / 2)
  rw [nearestAt_of_nonneg (add_nonneg nonneg some), nearestAt_of_nonneg nonneg,
    mul_left_inj' unit, Int.cast_inj, sum, Int.floor_eq_iff, Int.fract]
  constructor
  · rintro ⟨_, high⟩
    linarith
  · intro small
    exact ⟨by linarith, by linarith⟩

theorem abs_sub_nearest_of_nonneg {value : ℚ} (nonneg : 0 ≤ value) :
    |value - nearest value| ≤ 1 / 2 ∧
      (|value - nearest value| = 1 / 2 → |value| < |(nearest value : ℚ)|) := by
  have low := Int.floor_le (value + 1 / 2)
  have high := Int.lt_floor_add_one (value + 1 / 2)
  rw [nearest_of_nonneg nonneg]
  refine ⟨abs_le.mpr ⟨by linarith, by linarith⟩, ?_⟩
  intro tie
  have above : value < ⌊value + 1 / 2⌋ := by
    rcases (abs_eq (by norm_num)).mp tie with below | above
    · linarith
    · linarith
  rw [abs_of_nonneg nonneg, abs_of_nonneg (nonneg.trans above.le)]
  exact above

theorem abs_sub_nearest (value : ℚ) : |value - nearest value| ≤ 1 / 2 ∧
    (|value - nearest value| = 1 / 2 → |value| < |(nearest value : ℚ)|) := by
  rcases le_total 0 value with nonneg | nonpos
  · exact abs_sub_nearest_of_nonneg nonneg
  · have mirrored := abs_sub_nearest_of_nonneg (neg_nonneg.mpr nonpos)
    rw [nearest_neg] at mirrored
    push_cast at mirrored
    rwa [← neg_sub', abs_neg, abs_neg, abs_neg] at mirrored

theorem floor_add_half {whole half : Int} (positive : 0 < half) {rest : ℚ}
    (fraction : 0 ≤ rest ∧ rest < 1) :
    ⌊(whole + rest) / (2 * half : Int) + 1 / 2⌋ =
      whole / (2 * half) + if half ≤ whole % (2 * half) then 1 else 0 := by
  have parts := Int.mul_ediv_add_emod whole (2 * half)
  have low := Int.emod_nonneg whole (show 2 * half ≠ 0 by omega)
  have high := Int.emod_lt_of_pos whole (show 0 < 2 * half by omega)
  generalize whole / (2 * half) = quotient at parts ⊢
  generalize whole % (2 * half) = remainder at parts low high ⊢
  have divisor : (0 : ℚ) < half := by exact_mod_cast positive
  have split : (whole + rest) / (2 * half : Int) + 1 / 2 =
      quotient + (remainder + rest + half) / (2 * half) := by
    have cast : (2 * half * quotient + remainder : ℚ) = whole := by exact_mod_cast parts
    rw [← cast]
    push_cast
    field_simp
    ring
  rw [split, Int.floor_intCast_add]
  congr 1
  by_cases up : half ≤ remainder
  · have above : (half : ℚ) ≤ remainder := by exact_mod_cast up
    have below : (remainder : ℚ) + 1 ≤ 2 * half := by exact_mod_cast high
    rw [if_pos up, Int.floor_eq_iff]
    constructor
    · rw [le_div_iff₀ (by linarith)]
      push_cast
      linarith
    · rw [div_lt_iff₀ (by linarith)]
      push_cast
      linarith
  · have below : (remainder : ℚ) + 1 ≤ half := by exact_mod_cast not_le.mp up
    have above : (0 : ℚ) ≤ remainder := by exact_mod_cast low
    rw [if_neg up, Int.floor_eq_zero_iff]
    constructor
    · exact div_nonneg (by linarith) (by linarith)
    · rw [div_lt_one (by linarith)]
      linarith

theorem trunc_natCast_div (n d : Nat) : trunc ((n : ℚ) / d) = (n : Int).tdiv d := by
  have nonneg : (0 : ℚ) ≤ (n : ℚ) / d := by positivity
  rw [trunc, if_pos nonneg, Rat.floor_natCast_div_natCast]
  rfl

theorem trunc_intCast_div (x y : Int) : trunc ((x : ℚ) / y) = x.tdiv y := by
  obtain ⟨n, same | opposite⟩ := Int.eq_nat_or_neg x
  · obtain ⟨d, sameD | oppositeD⟩ := Int.eq_nat_or_neg y
    · rw [same, sameD]
      exact trunc_natCast_div n d
    · rw [same, oppositeD, Int.tdiv_neg, Int.cast_neg, div_neg, trunc_neg]
      exact congrArg _ (trunc_natCast_div n d)
  · obtain ⟨d, sameD | oppositeD⟩ := Int.eq_nat_or_neg y
    · rw [opposite, sameD, Int.neg_tdiv, Int.cast_neg, neg_div, trunc_neg]
      exact congrArg _ (trunc_natCast_div n d)
    · rw [opposite, oppositeD, Int.neg_tdiv_neg, Int.cast_neg, Int.cast_neg, neg_div_neg_eq]
      exact trunc_natCast_div n d

theorem div_mul_eq_iff {n d : Nat} (positive : 0 < d) (scale : Nat) :
    n / d * scale = n * scale / d ↔ n % d * scale < d := by
  have split : n * scale = d * (n / d * scale) + n % d * scale := by
    rw [← Nat.mul_assoc, ← Nat.add_mul, Nat.div_add_mod]
  rw [split, Nat.mul_add_div positive]
  constructor
  · intro same
    have none : n % d * scale / d = 0 := by omega
    rwa [Nat.div_eq_zero_iff_lt positive] at none
  · intro below
    rw [Nat.div_eq_of_lt below, Nat.add_zero]

theorem exists_sign_tdiv (x y : Int) : ∃ sign : Int, (sign = 1 ∨ sign = -1) ∧
    ∀ scale : Nat, (x * scale).tdiv y = sign * ((x.natAbs * scale / y.natAbs : Nat) : Int) := by
  have whole (n d scale : Nat) : ((n : Int) * scale).tdiv d = ((n * scale / d : Nat) : Int) := rfl
  obtain ⟨n, same | opposite⟩ := Int.eq_nat_or_neg x
  · obtain ⟨d, sameD | oppositeD⟩ := Int.eq_nat_or_neg y
    · refine ⟨1, Or.inl rfl, fun scale => ?_⟩
      rw [same, sameD, whole, Int.one_mul, Int.natAbs_natCast, Int.natAbs_natCast]
    · refine ⟨-1, Or.inr rfl, fun scale => ?_⟩
      rw [same, oppositeD, Int.tdiv_neg, whole, Int.neg_one_mul, Int.natAbs_natCast,
        Int.natAbs_neg, Int.natAbs_natCast]
  · obtain ⟨d, sameD | oppositeD⟩ := Int.eq_nat_or_neg y
    · refine ⟨-1, Or.inr rfl, fun scale => ?_⟩
      rw [opposite, sameD, Int.neg_mul, Int.neg_tdiv, whole, Int.neg_one_mul, Int.natAbs_neg,
        Int.natAbs_natCast, Int.natAbs_natCast]
    · refine ⟨1, Or.inl rfl, fun scale => ?_⟩
      rw [opposite, oppositeD, Int.neg_mul, Int.neg_tdiv_neg, whole, Int.one_mul, Int.natAbs_neg,
        Int.natAbs_natCast, Int.natAbs_neg, Int.natAbs_natCast]

theorem tdiv_mul_eq_iff {x y : Int} (nonzero : y ≠ 0) (scale : Nat) :
    x.tdiv y * scale = (x * scale).tdiv y ↔ (x.tmod y).natAbs * scale < y.natAbs := by
  obtain ⟨sign, isSign, atScale⟩ := exists_sign_tdiv x y
  have unscaled := atScale 1
  rw [Nat.cast_one, Int.mul_one, Nat.mul_one] at unscaled
  rw [Int.natAbs_tmod, ← div_mul_eq_iff (Int.natAbs_pos.mpr nonzero), unscaled, atScale,
    Int.mul_assoc, Int.mul_eq_mul_left_iff (by omega), ← Nat.cast_mul, Int.natCast_inj]

theorem tdiv_tdiv (x : Int) (m n : Nat) : (x.tdiv m).tdiv n = x.tdiv (m * n : Nat) := by
  have whole (k : Nat) : ((k : Int).tdiv m).tdiv n = (k : Int).tdiv (m * n : Nat) :=
    congrArg Int.ofNat (Nat.div_div_eq_div_mul k m n)
  obtain ⟨k, rfl | rfl⟩ := Int.eq_nat_or_neg x
  · exact whole k
  · rw [Int.neg_tdiv, Int.neg_tdiv, Int.neg_tdiv, whole]

theorem abs_tmod_lt {x d : Int} (pos : 0 < d) : |x.tmod d| < d :=
  abs_lt.mpr ⟨Int.lt_tmod_of_pos x pos, Int.tmod_lt_of_pos x pos⟩

theorem mul_tmod_nonneg (x d : Int) : 0 ≤ x * x.tmod d := by
  rcases le_total 0 x with nonneg | nonpos
  · exact mul_nonneg nonneg (Int.tmod_nonneg d nonneg)
  · have opposite := Int.tmod_nonneg d (neg_nonneg.mpr nonpos)
    rw [Int.neg_tmod, neg_nonneg] at opposite
    exact mul_nonneg_of_nonpos_of_nonpos nonpos opposite

/-- Truncation distributes over a sum exactly when the remainders add up to less than the divisor,
and not against the sign of the sum. -/
theorem tdiv_add_iff {x y d : Int} (pos : 0 < d) :
    (x + y).tdiv d = x.tdiv d + y.tdiv d ↔
      |x.tmod d + y.tmod d| < d ∧ 0 ≤ (x + y) * (x.tmod d + y.tmod d) := by
  have first := Int.mul_tdiv_add_tmod x d
  have second := Int.mul_tdiv_add_tmod y d
  have sum := Int.mul_tdiv_add_tmod (x + y) d
  constructor
  · intro same
    have rest : x.tmod d + y.tmod d = (x + y).tmod d := by
      rw [same, mul_add] at sum
      linarith only [first, second, sum]
    rw [rest]
    exact ⟨abs_tmod_lt pos, mul_tmod_nonneg (x + y) d⟩
  · rintro ⟨small, signs⟩
    generalize rest : x.tmod d + y.tmod d = s at small signs
    have difference : d * ((x + y).tdiv d - (x.tdiv d + y.tdiv d)) = s - (x + y).tmod d := by
      rw [mul_sub, mul_add]
      linarith only [first, second, sum, rest]
    -- two remainders of one sign are less than a divisor apart
    have close : |s - (x + y).tmod d| < d := by
      have range := abs_lt.mp (@abs_tmod_lt (x + y) d pos)
      have own := abs_lt.mp small
      rw [abs_lt]
      rcases lt_trichotomy (x + y) 0 with negative | zero | positive
      · have s_nonpos : s ≤ 0 := nonpos_of_mul_nonneg_right signs negative
        have nonpos := Int.tmod_nonneg d (neg_nonneg.mpr negative.le)
        rw [Int.neg_tmod, neg_nonneg] at nonpos
        omega
      · rw [zero, Int.zero_tmod]
        omega
      · have s_nonneg : 0 ≤ s := nonneg_of_mul_nonneg_right signs positive
        have nonneg := Int.tmod_nonneg d positive.le
        omega
    have none := Int.eq_zero_of_abs_lt_dvd ⟨_, difference.symm⟩ close
    rw [none, mul_eq_zero, sub_eq_zero] at difference
    exact difference.resolve_left pos.ne'

theorem tdiv_mul_between (x y : Int) (scale : Nat) :
    0 ≤ x.tdiv y * scale ∧ x.tdiv y * scale ≤ (x * scale).tdiv y ∨
      (x * scale).tdiv y ≤ x.tdiv y * scale ∧ x.tdiv y * scale ≤ 0 := by
  obtain ⟨sign, isSign, atScale⟩ := exists_sign_tdiv x y
  have unscaled := atScale 1
  rw [Nat.cast_one, Int.mul_one, Nat.mul_one] at unscaled
  have cut : x.natAbs / y.natAbs * scale ≤ x.natAbs * scale / y.natAbs := by
    rw [Nat.mul_comm, Nat.mul_comm x.natAbs]
    exact Nat.mul_div_le_mul_div_assoc scale x.natAbs y.natAbs
  rw [unscaled, atScale, Int.mul_assoc, ← Nat.cast_mul]
  rcases isSign with rfl | rfl
  · omega
  · omega

end Rounding
