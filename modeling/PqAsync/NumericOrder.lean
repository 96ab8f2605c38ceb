import PqAsync.Library.ThreeWay
import PqAsync.NumericText
import PqAsync.NumericValue

/-!
The comparison of numerics is the order of their values, whatever their zeros, weights and
display scales are.
-/

namespace PqAsync

open ThreeWay

namespace Numeric

def less (this b : Numeric) : Bool := this.cmp b < 0

def greater (this b : Numeric) : Bool := this.cmp b > 0

def lessEqual (this b : Numeric) : Bool := this.cmp b ≤ 0

def greaterEqual (this b : Numeric) : Bool := this.cmp b ≥ 0

/-- A finite numeric whose digits are in range. Zero digits may stand anywhere, but a zero has
no digits at all. -/
structure Regular (x : Numeric) : Prop where
  digits : Radix.Digits nbase x.digits
  sign : x.sign = numericPos ∨ x.sign = numericNeg
  zero : (∀ digit ∈ x.digits, digit = 0) → x.digits = []

theorem WellFormed.regular {x : Numeric} (wellFormed : x.WellFormed) : x.Regular where
  digits := wellFormed.digits
  sign := wellFormed.sign
  zero zeros := (wellFormed.zero zeros).1

theorem Regular.magnitude_pos {x : Numeric} (regular : x.Regular) (some : x.digits ≠ []) :
    0 < x.magnitude := by
  apply Radix.magnitude_pos nbase_pos regular.digits
  by_contra none
  push Not at none
  exact some (regular.zero none)

theorem value_of_nil {x : Numeric} (empty : x.digits = []) : x.value = 0 := by
  rw [value, magnitude_of_nil empty, neg_zero, ite_self]

theorem ndigits_eq_zero {x : Numeric} : x.ndigits = 0 ↔ x.digits = [] := by
  rw [ndigits, Int.natCast_eq_zero, List.length_eq_zero_iff]

theorem cmpAbs_orders {x y : Numeric} (rangeX : Radix.Digits nbase x.digits)
    (rangeY : Radix.Digits nbase y.digits) : Orders (cmpAbs x y) x.magnitude y.magnitude := by
  rcases cmpAbs_spec rangeX rangeY with ⟨stat, order⟩ | ⟨stat, order⟩ | ⟨stat, order⟩
  · exact .of_gt (by omega) order
  · exact .of_eq stat order
  · exact .of_lt (by omega) order

theorem cmp_orders {x y : Numeric} (regularX : x.Regular) (regularY : y.Regular) :
    Orders (x.cmp y) x.value y.value := by
  rw [cmp]
  by_cases noneX : x.digits = []
  · rw [if_pos (ndigits_eq_zero.mpr noneX), value_of_nil noneX]
    by_cases noneY : y.digits = []
    · rw [if_pos (ndigits_eq_zero.mpr noneY), value_of_nil noneY]
      exact .of_eq rfl rfl
    · have someY := regularY.magnitude_pos noneY
      rw [if_neg (mt ndigits_eq_zero.mp noneY)]
      by_cases negY : y.sign = numericNeg
      · rw [if_pos negY, value_of_neg negY]
        exact .of_gt (by decide) (by linarith)
      · rw [if_neg negY, value, if_neg negY]
        exact .of_lt (by decide) someY
  · have someX := regularX.magnitude_pos noneX
    rw [if_neg (mt ndigits_eq_zero.mp noneX)]
    by_cases noneY : y.digits = []
    · rw [if_pos (ndigits_eq_zero.mpr noneY), value_of_nil noneY]
      rcases regularX.sign with posX | negX
      · rw [if_pos posX, value_of_pos posX]
        exact .of_gt (by decide) someX
      · rw [if_neg (by rw [negX]; decide), value_of_neg negX]
        exact .of_lt (by decide) (by linarith)
    · have someY := regularY.magnitude_pos noneY
      rw [if_neg (mt ndigits_eq_zero.mp noneY)]
      rcases regularX.sign with posX | negX
      · rw [if_pos posX, value_of_pos posX]
        rcases regularY.sign with posY | negY
        · rw [if_neg (by rw [posY]; decide), value_of_pos posY]
          exact cmpAbs_orders regularX.digits regularY.digits
        · rw [if_pos negY, value_of_neg negY]
          exact .of_gt (by decide) (by linarith)
      · rw [if_neg (by rw [negX]; decide), value_of_neg negX]
        rcases regularY.sign with posY | negY
        · rw [if_pos posY, value_of_pos posY]
          exact .of_lt (by decide) (by linarith)
        · rw [if_neg (by rw [negY]; decide), value_of_neg negY]
          exact (cmpAbs_orders regularY.digits regularX.digits).reverse fun _ _ => neg_lt_neg_iff

structure OperatorsOrder (x y : Numeric) : Prop where
  equal : x.equal y = decide (x.value = y.value)
  notEqual : x.notEqual y = decide (x.value ≠ y.value)
  less : x.less y = decide (x.value < y.value)
  greater : x.greater y = decide (x.value > y.value)
  lessEqual : x.lessEqual y = decide (x.value ≤ y.value)
  greaterEqual : x.greaterEqual y = decide (x.value ≥ y.value)

theorem operators_order {x y : Numeric} (orders : Orders (x.cmp y) x.value y.value) :
    OperatorsOrder x y where
  equal := by
    rw [Numeric.equal, Bool.eq_iff_iff, beq_iff_eq, decide_eq_true_iff]
    exact orders.same
  notEqual := by
    rw [Numeric.notEqual, Bool.eq_iff_iff, bne_iff_ne, decide_eq_true_iff]
    exact not_congr orders.same
  less := decide_eq_decide.mpr orders.below
  greater := decide_eq_decide.mpr orders.above
  lessEqual := decide_eq_decide.mpr orders.le_iff
  greaterEqual := decide_eq_decide.mpr orders.ge_iff

structure TotalOrder (x y z : Numeric) : Prop where
  refl : x.lessEqual x = true
  antisymm : x.lessEqual y = true → y.lessEqual x = true → x.equal y = true
  trans : x.lessEqual y = true → y.lessEqual z = true → x.lessEqual z = true
  total : x.lessEqual y = true ∨ y.lessEqual x = true
  less : x.less y = true ↔ x.lessEqual y = true ∧ x.equal y = false
  greater : x.greater y = y.less x
  greaterEqual : x.greaterEqual y = y.lessEqual x
  notEqual : x.notEqual y = !x.equal y

theorem total_order {x y z : Numeric} (regularX : x.Regular) (regularY : y.Regular)
    (regularZ : z.Regular) : TotalOrder x y z := by
  have xx := operators_order (cmp_orders regularX regularX)
  have xy := operators_order (cmp_orders regularX regularY)
  have yx := operators_order (cmp_orders regularY regularX)
  have yz := operators_order (cmp_orders regularY regularZ)
  have xz := operators_order (cmp_orders regularX regularZ)
  constructor
  · rw [xx.lessEqual]
    exact decide_eq_true le_rfl
  · rw [xy.lessEqual, yx.lessEqual, xy.equal]
    simp only [decide_eq_true_iff]
    exact le_antisymm
  · rw [xy.lessEqual, yz.lessEqual, xz.lessEqual]
    simp only [decide_eq_true_iff]
    exact le_trans
  · rw [xy.lessEqual, yx.lessEqual]
    simp only [decide_eq_true_iff]
    exact le_total x.value y.value
  · rw [xy.less, xy.lessEqual, xy.equal]
    simp only [decide_eq_true_iff, decide_eq_false_iff_not]
    exact lt_iff_le_and_ne
  · rw [xy.greater, yx.less]
  · rw [xy.greaterEqual, yx.lessEqual]
  · rw [xy.notEqual, xy.equal, decide_not]

theorem cmp_dscale (x y : Numeric) (dscaleX dscaleY : Int) :
    cmp { x with dscale := dscaleX } { y with dscale := dscaleY } = cmp x y := rfl

/-- A comparison has the sign of the difference of the values, so that the operators are a total
order of the values. -/
theorem cmp_value_order {x y z : Numeric} (regularX : x.Regular) (regularY : y.Regular)
    (regularZ : z.Regular) :
    Orders (x.cmp y) x.value y.value ∧ OperatorsOrder x y ∧ TotalOrder x y z ∧
      ∀ dscaleX dscaleY : Int,
        cmp { x with dscale := dscaleX } { y with dscale := dscaleY } = cmp x y :=
  ⟨cmp_orders regularX regularY, operators_order (cmp_orders regularX regularY),
    total_order regularX regularY regularZ, cmp_dscale x y⟩

theorem cmp_value_order_zeros :
    let x : Numeric := ⟨0, [0, 12, 0], 1, numericPos, 0⟩
    let y : Numeric := ⟨0, [12], 0, numericNeg, 2⟩
    let z : Numeric := ⟨0, [], 3, numericNeg, 5⟩
    Orders (x.cmp y) x.value y.value ∧ OperatorsOrder x y ∧ TotalOrder x y z ∧
      ∀ dscaleX dscaleY : Int,
        cmp { x with dscale := dscaleX } { y with dscale := dscaleY } = cmp x y :=
  cmp_value_order ⟨by decide, by decide, by decide⟩ ⟨by decide, by decide, by decide⟩
    ⟨by decide, by decide, by decide⟩

end Numeric

end PqAsync
