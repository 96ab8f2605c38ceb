import PqAsync.MoneySums
import PqAsync.Library.Rounding

/-!
Products and quotients of money that have the same number of fractional digits, against those of
the amounts.
-/

namespace PqAsync.Money

open Rounding

theorem quotient_ok {x y v : BitVec 64} :
    quotient x y = .ok v ↔
      y.toInt ≠ 0 ∧ FitsInt64 (x.toInt.tdiv y.toInt) ∧ v.toInt = x.toInt.tdiv y.toInt := by
  have zero : y = 0 ↔ y.toInt = 0 := BitVec.toInt_inj.symm
  by_cases none : y = 0
  · rw [quotient, if_pos none]
    simp [zero.mp none]
  · rw [quotient, if_neg none, checkedInt_ok]
    simp [mt zero.mpr none]

theorem mulAssign_eq (a b : Money) :
    a.mulAssign b = a.mul b >>= fun r => r.toFracDigits a.fracDigits := by
  simp only [mulAssign, mul, bind_assoc, pure_bind]

theorem divAssign_eq (a b : Money) :
    a.divAssign b = a.div b >>= fun r => r.toFracDigits a.fracDigits := by
  simp only [divAssign, div, bind_assoc, pure_bind]

section

variable {a b : Money} (same : a.fracDigits = b.fracDigits)

include same

theorem mul_ok {r : Money} :
    a.mul b = .ok r ↔ a.fracDigits ≤ 18 ∧ FitsInt64 (a.val.toInt * b.val.toInt) ∧
      r.val.toInt = (a.val.toInt * b.val.toInt).tdiv (10 ^ a.fracDigits) ∧
      r.fracDigits = a.fracDigits := by
  rw [mul, ← same, toFracDigits_same, Results.ok_bind, Results.bind_ok]
  constructor
  · rintro ⟨product, productDone, rest⟩
    obtain ⟨pow, powDone, rest⟩ := Results.bind_ok.mp rest
    obtain ⟨val, valDone, same⟩ := Results.bind_ok.mp rest
    cases same
    obtain ⟨fits, productIs⟩ := checkedInt_ok.mp productDone
    obtain ⟨small, powIs⟩ := getPow_ok.mp powDone
    obtain ⟨_, _, valIs⟩ := quotient_ok.mp valDone
    rw [productIs, powIs] at valIs
    exact ⟨small, fits, valIs, rfl⟩
  · rintro ⟨small, fits, valIs, digits⟩
    obtain ⟨product, productIs⟩ := exists_toInt fits
    obtain ⟨pow, powDone, powIs⟩ := exists_getPow small
    refine ⟨product, checkedInt_ok.mpr ⟨fits, productIs⟩, Results.bind_ok.mpr ⟨pow, powDone,
      Results.bind_ok.mpr ⟨r.val, quotient_ok.mpr ⟨?_, ?_, ?_⟩, ?_⟩⟩⟩
    · rw [powIs]
      exact (pow_pos _).ne'
    · rw [powIs, productIs]
      exact fits_tdiv fits (pow_pos _)
    · rw [powIs, productIs, valIs]
    · rw [← digits]
      rfl

theorem div_ok {r : Money} :
    a.div b = .ok r ↔ b.val.toInt ≠ 0 ∧ FitsInt64 (a.val.toInt.tdiv b.val.toInt) ∧
      a.fracDigits ≤ 18 ∧ FitsInt64 (a.val.toInt.tdiv b.val.toInt * 10 ^ a.fracDigits) ∧
      r.val.toInt = a.val.toInt.tdiv b.val.toInt * 10 ^ a.fracDigits ∧
      r.fracDigits = a.fracDigits := by
  rw [div, ← same, toFracDigits_same, Results.ok_bind, Results.bind_ok]
  constructor
  · rintro ⟨whole, wholeDone, rest⟩
    obtain ⟨nonzero, wholeFits, wholeIs⟩ := quotient_ok.mp wholeDone
    obtain ⟨small, fits, valIs, digits⟩ := (changed_ok getPow_ok (whole.toInt * ·)).mp rest
    rw [wholeIs] at fits valIs
    exact ⟨nonzero, wholeFits, small, fits, valIs, digits⟩
  · rintro ⟨nonzero, wholeFits, small, fits, valIs, digits⟩
    obtain ⟨whole, wholeIs⟩ := exists_toInt wholeFits
    rw [← wholeIs] at fits valIs
    exact ⟨whole, quotient_ok.mpr ⟨nonzero, wholeFits, wholeIs⟩,
      (changed_ok getPow_ok (whole.toInt * ·)).mpr ⟨small, fits, valIs, digits⟩⟩

theorem mulAssign_of_same : a.mulAssign b = a.mul b := by
  rw [mulAssign_eq]
  cases done : a.mul b with
  | error failure => rfl
  | ok r => rw [Results.ok_bind, ← ((mul_ok same).mp done).2.2.2, toFracDigits_same]

theorem divAssign_of_same : a.divAssign b = a.div b := by
  rw [divAssign_eq]
  cases done : a.div b with
  | error failure => rfl
  | ok r => rw [Results.ok_bind, ← ((div_ok same).mp done).2.2.2.2.2, toFracDigits_same]

end

/-- An operator gives the raw value `x`, which stands for `exact` cut to the precision of the left
operand. -/
structure Gives (a : Money) (result : Except WireError Money) (x : Int) (exact : ℚ) : Prop where
  value : ∃ r, result = .ok r ∧ r.fracDigits = a.fracDigits ∧ r.val.toInt = x
  cut : (x / 10 ^ a.fracDigits : ℚ) = truncAt exact a.fracDigits

def ExactProduct (a b : Money) : Prop :=
  Gives a (a.mul b) ((a.val.toInt * b.val.toInt).tdiv (10 ^ a.fracDigits)) (a.amount * b.amount)

def ExactQuotient (a b : Money) : Prop :=
  Gives a (a.div b) ((a.val.toInt * 10 ^ a.fracDigits).tdiv b.val.toInt) (a.amount / b.amount)

/-- The scaled rest of the raw quotient stays below the divisor. -/
def RestBelow (a b : Money) : Prop :=
  (a.val.toInt.tmod b.val.toInt).natAbs * 10 ^ a.fracDigits < b.val.toInt.natAbs

instance (a b : Money) : Decidable (RestBelow a b) := inferInstanceAs (Decidable (_ < _))

theorem truncAt_scaled {x y : Int} {digits : Nat} {exact : ℚ}
    (ratio : exact * 10 ^ digits = x / y) :
    truncAt exact digits = x.tdiv y / 10 ^ digits := by
  rw [truncAt, zpow_natCast, ratio, trunc_intCast_div, zpow_neg, zpow_natCast, div_eq_mul_inv]

section

variable {a b : Money} (same : a.fracDigits = b.fracDigits)

include same

theorem truncAt_product : truncAt (a.amount * b.amount) a.fracDigits =
    (a.val.toInt * b.val.toInt).tdiv (10 ^ a.fracDigits) / 10 ^ a.fracDigits := by
  refine truncAt_scaled ?_
  rw [amount, amount, ← same]
  push_cast
  field_simp

theorem truncAt_quotient : truncAt (a.amount / b.amount) a.fracDigits =
    (a.val.toInt * 10 ^ a.fracDigits).tdiv b.val.toInt / 10 ^ a.fracDigits := by
  refine truncAt_scaled ?_
  rw [amount, amount, ← same]
  push_cast
  field_simp

theorem exactProduct (small : a.fracDigits ≤ 18)
    (fits : FitsInt64 (a.val.toInt * b.val.toInt)) : ExactProduct a b := by
  obtain ⟨val, valIs⟩ := exists_toInt (fits_tdiv fits (pow_pos a.fracDigits))
  exact ⟨⟨⟨val, a.fracDigits⟩, (mul_ok same).mpr ⟨small, fits, valIs, rfl⟩, rfl, valIs⟩,
    (truncAt_product same).symm⟩

end

theorem fits_of_cut {x y : Int} {digits : Nat} (fits : FitsInt64 ((x * 10 ^ digits).tdiv y)) :
    FitsInt64 (x.tdiv y) ∧ FitsInt64 (x.tdiv y * 10 ^ digits) := by
  have between := tdiv_mul_between x y (10 ^ digits)
  push_cast at between
  have scaled : FitsInt64 (x.tdiv y * 10 ^ digits) := by
    obtain ⟨low, high⟩ := fits
    constructor
    · omega
    · omega
  exact ⟨fits_of_scaled scaled, scaled⟩

section

variable {a b : Money} (same : a.fracDigits = b.fracDigits) (nonzero : b.val.toInt ≠ 0)

include same nonzero

theorem exactQuotient_iff (small : a.fracDigits ≤ 18)
    (fits : FitsInt64 ((a.val.toInt * 10 ^ a.fracDigits).tdiv b.val.toInt)) :
    ExactQuotient a b ↔ RestBelow a b := by
  have late := tdiv_mul_eq_iff (x := a.val.toInt) nonzero (10 ^ a.fracDigits)
  push_cast at late
  rw [RestBelow, ← late]
  constructor
  · rintro ⟨⟨r, done, _, valIs⟩, _⟩
    rw [← valIs, ((div_ok same).mp done).2.2.2.2.1]
  · intro equal
    obtain ⟨wholeFits, scaledFits⟩ := fits_of_cut fits
    obtain ⟨val, valIs⟩ := exists_toInt scaledFits
    exact ⟨⟨⟨val, a.fracDigits⟩,
      (div_ok same).mpr ⟨nonzero, wholeFits, small, scaledFits, valIs, rfl⟩, rfl,
      valIs.trans equal⟩, (truncAt_quotient same).symm⟩

end

/-- A product is scaled after it is taken, and exact. A quotient is cut before it is scaled: it
is exact when the scaled rest of the raw quotient stays below the divisor, and not otherwise. The
compound operators agree with the plain ones. -/
theorem products_quotients (a b : Money) (same : a.fracDigits = b.fracDigits)
    (small : a.fracDigits ≤ 18) :
    (FitsInt64 (a.val.toInt * b.val.toInt) → ExactProduct a b) ∧
    (b.val.toInt ≠ 0 → FitsInt64 ((a.val.toInt * 10 ^ a.fracDigits).tdiv b.val.toInt) →
      (ExactQuotient a b ↔ RestBelow a b)) ∧
    a.mulAssign b = a.mul b ∧ a.divAssign b = a.div b := by
  refine ⟨exactProduct same small, ?_, mulAssign_of_same same, divAssign_of_same same⟩
  intro nonzero fits
  exact exactQuotient_iff same nonzero small fits

theorem products_quotients_even : ExactProduct ⟨150, 2⟩ ⟨250, 2⟩ ∧
    ExactQuotient ⟨10000, 2⟩ ⟨200, 2⟩ := by
  obtain ⟨product, _, _⟩ := products_quotients ⟨150, 2⟩ ⟨250, 2⟩ rfl (by decide)
  obtain ⟨_, quotient, _⟩ := products_quotients ⟨10000, 2⟩ ⟨200, 2⟩ rfl (by decide)
  exact ⟨product (by decide), (quotient (by decide) (by decide)).mpr (by decide)⟩

theorem quotient_loses_cents : div ⟨100, 2⟩ ⟨300, 2⟩ = .ok ⟨0, 2⟩ ∧
    FitsInt64 ((100 : BitVec 64).toInt * 10 ^ 2) ∧ ¬ExactQuotient ⟨100, 2⟩ ⟨300, 2⟩ := by
  have done : div ⟨100, 2⟩ ⟨300, 2⟩ = .ok ⟨0, 2⟩ := by decide
  refine ⟨done, by decide, ?_⟩
  rintro ⟨⟨r, other, _, valIs⟩, _⟩
  rw [done] at other
  cases other
  revert valIs
  decide

end PqAsync.Money
