import PqAsync.MoneyAmounts
import PqAsync.Library.Rounding
import Mathlib.Tactic.Ring

/-!
Sums and differences of money against those of the amounts.
-/

namespace PqAsync.Money

def rescale (digits target : Nat) (x : Int) : Int :=
  if digits ≤ target then x * 10 ^ (target - digits) else x.tdiv (10 ^ (digits - target))

theorem toFracDigits_ok {m r : Money} {digits : Nat} (done : m.toFracDigits digits = .ok r) :
    r.val.toInt = rescale m.fracDigits digits m.val.toInt ∧ r.fracDigits = digits := by
  rcases lt_trichotomy m.fracDigits digits with more | same | fewer
  · rw [rescale, if_pos more.le]
    exact ((toFracDigits_up more).mp done).2.2
  · subst same
    rw [toFracDigits_same] at done
    cases done
    rw [rescale, if_pos le_rfl, Nat.sub_self, pow_zero, mul_one]
    exact ⟨rfl, rfl⟩
  · rw [rescale, if_neg (by omega)]
    exact ((toFracDigits_down fewer).mp done).2

theorem add_ok {a b r : Money} (done : a.add b = .ok r) :
    r.val.toInt = rescale a.fracDigits b.fracDigits a.val.toInt + b.val.toInt ∧
      r.fracDigits = b.fracDigits := by
  obtain ⟨t, rescaled, rest⟩ := Results.bind_ok.mp done
  obtain ⟨val, valDone, same⟩ := Results.bind_ok.mp rest
  cases same
  obtain ⟨valIs, digitsAre⟩ := toFracDigits_ok rescaled
  rw [← valIs]
  exact ⟨(checkedInt_ok.mp valDone).2, digitsAre⟩

theorem sub_ok {a b r : Money} (done : a.sub b = .ok r) :
    r.val.toInt = rescale a.fracDigits b.fracDigits a.val.toInt - b.val.toInt ∧
      r.fracDigits = b.fracDigits := by
  obtain ⟨t, rescaled, rest⟩ := Results.bind_ok.mp done
  obtain ⟨val, valDone, same⟩ := Results.bind_ok.mp rest
  cases same
  obtain ⟨valIs, digitsAre⟩ := toFracDigits_ok rescaled
  rw [← valIs]
  exact ⟨(checkedInt_ok.mp valDone).2, digitsAre⟩

theorem addAssign_eq (a b : Money) :
    a.addAssign b = a.add b >>= fun r => r.toFracDigits a.fracDigits := by
  simp only [addAssign, add, bind_assoc, pure_bind]

theorem subAssign_eq (a b : Money) :
    a.subAssign b = a.sub b >>= fun r => r.toFracDigits a.fracDigits := by
  simp only [subAssign, sub, bind_assoc, pure_bind]

/-- The powers, the rescaled amounts and their sum and difference fit 64 bits. -/
structure NoOverflow (a b : Money) : Prop where
  powers : a.fracDigits ≤ b.fracDigits + 18 ∧ b.fracDigits ≤ a.fracDigits + 18
  left : FitsInt64 (a.atScale (max a.fracDigits b.fracDigits))
  right : FitsInt64 (b.atScale (max a.fracDigits b.fracDigits))
  sum : FitsInt64 (a.atScale (max a.fracDigits b.fracDigits) +
    b.atScale (max a.fracDigits b.fracDigits))
  difference : FitsInt64 (a.atScale (max a.fracDigits b.fracDigits) -
    b.atScale (max a.fracDigits b.fracDigits))

/-- What the plain and the compound operators owe two amounts. -/
structure ExactSums (a b : Money) : Prop where
  add : ∃ r, a.add b = .ok r ∧ r.fracDigits = max a.fracDigits b.fracDigits ∧
    r.amount = a.amount + b.amount
  sub : ∃ r, a.sub b = .ok r ∧ r.fracDigits = max a.fracDigits b.fracDigits ∧
    r.amount = a.amount - b.amount
  addAssign : ∃ r, a.addAssign b = .ok r ∧ r.amount = a.amount + b.amount
  subAssign : ∃ r, a.subAssign b = .ok r ∧ r.amount = a.amount - b.amount
  comm : ∃ r swapped, a.add b = .ok r ∧ b.add a = .ok swapped ∧ r.amount = swapped.amount

section

variable {a b : Money} (fewer : a.fracDigits ≤ b.fracDigits)

include fewer

theorem exists_rescaled (fits : NoOverflow a b) :
    ∃ t, a.toFracDigits b.fracDigits = .ok t ∧ t.val.toInt = a.atScale b.fracDigits ∧
      t.fracDigits = b.fracDigits := by
  rcases fewer.lt_or_eq with less | same
  · have scaled := fits.left
    rw [max_eq_right fewer] at scaled
    obtain ⟨val, valIs⟩ := exists_toInt scaled
    have powers := fits.powers.2
    exact ⟨⟨val, b.fracDigits⟩,
      (toFracDigits_up less).mpr ⟨by omega, scaled, valIs, rfl⟩, valIs, rfl⟩
  · rw [← same, atScale_self]
    exact ⟨a, toFracDigits_same a, rfl, rfl⟩

theorem exists_restored {t : Money} {x : Int} (fits : NoOverflow a b)
    (digits : t.fracDigits = b.fracDigits)
    (multiple : t.val.toInt = x * 10 ^ (b.fracDigits - a.fracDigits)) :
    ∃ r, t.toFracDigits a.fracDigits = .ok r ∧ r.val.toInt = x ∧ r.fracDigits = a.fracDigits := by
  rcases fewer.lt_or_eq with less | same
  · have cut : t.val.toInt.tdiv (10 ^ (b.fracDigits - a.fracDigits)) = x := by
      rw [multiple, Int.mul_tdiv_cancel _ (pow_pos _).ne']
    obtain ⟨val, valIs⟩ := exists_toInt (fits_tdiv (fitsInt64_toInt t.val)
      (pow_pos (b.fracDigits - a.fracDigits)))
    have powers := fits.powers.2
    refine ⟨⟨val, a.fracDigits⟩, (toFracDigits_down (by omega)).mpr ⟨by omega, ?_, rfl⟩,
      valIs.trans cut, rfl⟩
    rw [digits]
    exact valIs
  · rw [same, ← digits]
    refine ⟨t, toFracDigits_same t, ?_, rfl⟩
    rw [multiple, same, Nat.sub_self, pow_zero, mul_one]

theorem exists_sameAmount {t : Money} {x : Int} (fits : NoOverflow a b)
    (digits : t.fracDigits = b.fracDigits)
    (multiple : t.val.toInt = x * 10 ^ (b.fracDigits - a.fracDigits)) :
    ∃ r, t.toFracDigits a.fracDigits = .ok r ∧ r.amount = t.amount := by
  obtain ⟨r, restored, rIs, rDigits⟩ := exists_restored fewer fits digits multiple
  refine ⟨r, restored, ?_⟩
  rw [amount_at (rDigits.le.trans fewer), atScale, rIs, rDigits, ← multiple, amount, digits]

theorem amount_add : a.amount + b.amount =
    ((a.atScale b.fracDigits + b.val.toInt : Int) : ℚ) / 10 ^ b.fracDigits := by
  rw [amount_at fewer, amount, Int.cast_add, add_div]

theorem amount_sub : a.amount - b.amount =
    ((a.atScale b.fracDigits - b.val.toInt : Int) : ℚ) / 10 ^ b.fracDigits := by
  rw [amount_at fewer, amount, Int.cast_sub, sub_div]

theorem NoOverflow.sums (fits : NoOverflow a b) :
    FitsInt64 (a.atScale b.fracDigits + b.val.toInt) ∧
      FitsInt64 (a.atScale b.fracDigits - b.val.toInt) := by
  have sum := fits.sum
  have difference := fits.difference
  rw [max_eq_right fewer, atScale_self] at sum difference
  exact ⟨sum, difference⟩

theorem exists_add (fits : NoOverflow a b) :
    ∃ r, a.add b = .ok r ∧ r.fracDigits = b.fracDigits ∧ r.amount = a.amount + b.amount := by
  obtain ⟨t, rescaled, valIs, digits⟩ := exists_rescaled fewer fits
  have sum := (fits.sums fewer).1
  obtain ⟨val, done⟩ := exists_toInt sum
  rw [← valIs] at sum done
  refine ⟨⟨val, t.fracDigits⟩, Results.bind_ok.mpr ⟨t, rescaled, Results.bind_ok.mpr
    ⟨val, checkedInt_ok.mpr ⟨sum, done⟩, rfl⟩⟩, digits, ?_⟩
  rw [amount_add fewer, amount, done, valIs, digits]

theorem exists_sub (fits : NoOverflow a b) :
    ∃ r, a.sub b = .ok r ∧ r.fracDigits = b.fracDigits ∧ r.amount = a.amount - b.amount := by
  obtain ⟨t, rescaled, valIs, digits⟩ := exists_rescaled fewer fits
  have difference := (fits.sums fewer).2
  obtain ⟨val, done⟩ := exists_toInt difference
  rw [← valIs] at difference done
  refine ⟨⟨val, t.fracDigits⟩, Results.bind_ok.mpr ⟨t, rescaled, Results.bind_ok.mpr
    ⟨val, checkedInt_ok.mpr ⟨difference, done⟩, rfl⟩⟩, digits, ?_⟩
  rw [amount_sub fewer, amount, done, valIs, digits]

section

variable {y : Int} (multiple : b.val.toInt = y * 10 ^ (b.fracDigits - a.fracDigits))

include multiple

theorem exists_addAssign (fits : NoOverflow a b) :
    ∃ r, a.addAssign b = .ok r ∧ r.amount = a.amount + b.amount := by
  obtain ⟨t, added, digits, sum⟩ := exists_add fewer fits
  have scaled : t.val.toInt = (a.val.toInt + y) * 10 ^ (b.fracDigits - a.fracDigits) := by
    rw [(add_ok added).1, rescale, if_pos fewer, multiple]
    ring
  obtain ⟨r, restored, same⟩ := exists_sameAmount fewer fits digits scaled
  refine ⟨r, ?_, same.trans sum⟩
  rw [addAssign_eq]
  exact Results.bind_ok.mpr ⟨t, added, restored⟩

theorem exists_subAssign (fits : NoOverflow a b) :
    ∃ r, a.subAssign b = .ok r ∧ r.amount = a.amount - b.amount := by
  obtain ⟨t, subtracted, digits, difference⟩ := exists_sub fewer fits
  have scaled : t.val.toInt = (a.val.toInt - y) * 10 ^ (b.fracDigits - a.fracDigits) := by
    rw [(sub_ok subtracted).1, rescale, if_pos fewer, multiple]
    ring
  obtain ⟨r, restored, same⟩ := exists_sameAmount fewer fits digits scaled
  refine ⟨r, ?_, same.trans difference⟩
  rw [subAssign_eq]
  exact Results.bind_ok.mpr ⟨t, subtracted, restored⟩

theorem exists_swapped (fits : NoOverflow a b) :
    ∃ r, b.add a = .ok r ∧ r.amount = a.amount + b.amount := by
  obtain ⟨t, rescaled, valIs, digits⟩ := exists_restored fewer fits rfl multiple
  have scaled : a.atScale b.fracDigits + b.val.toInt =
      (y + a.val.toInt) * 10 ^ (b.fracDigits - a.fracDigits) := by
    rw [atScale, multiple]
    ring
  have sum : FitsInt64 (y + a.val.toInt) := by
    have cut := fits_tdiv (fits.sums fewer).1 (pow_pos (b.fracDigits - a.fracDigits))
    rwa [scaled, Int.mul_tdiv_cancel _ (pow_pos _).ne'] at cut
  obtain ⟨val, done⟩ := exists_toInt sum
  refine ⟨⟨val, t.fracDigits⟩, Results.bind_ok.mpr ⟨t, rescaled, Results.bind_ok.mpr
    ⟨val, checkedInt_ok.mpr ⟨?_, ?_⟩, rfl⟩⟩, ?_⟩
  · rw [valIs]
    exact sum
  · rw [valIs]
    exact done
  · rw [amount_add fewer, scaled, amount_at (m := ⟨val, t.fracDigits⟩) (digits.le.trans fewer),
      atScale, done, digits]

end

theorem dvd_of_addAssign {r : Money} (done : a.addAssign b = .ok r)
    (exact : r.amount = a.amount + b.amount) :
    10 ^ (b.fracDigits - a.fracDigits) ∣ b.val.toInt := by
  obtain ⟨t, _, rest⟩ := Results.bind_ok.mp done
  obtain ⟨val, _, restored⟩ := Results.bind_ok.mp rest
  have digits := (toFracDigits_ok restored).2
  rw [amount_add fewer, amount_at (digits.le.trans fewer), div_left_inj' (by positivity),
    Int.cast_inj, atScale, atScale, digits] at exact
  refine ⟨r.val.toInt - a.val.toInt, ?_⟩
  rw [mul_sub, mul_comm, exact, mul_comm]
  ring

end

theorem exactSums_iff {a b : Money} (fits : NoOverflow a b) :
    ExactSums a b ↔ a.fracDigits ≤ b.fracDigits ∧
      10 ^ (b.fracDigits - a.fracDigits) ∣ b.val.toInt := by
  constructor
  · intro sums
    obtain ⟨r, done, digits, _⟩ := sums.add
    have fewer : a.fracDigits ≤ b.fracDigits := by
      rw [(add_ok done).2] at digits
      omega
    obtain ⟨s, assigned, exact⟩ := sums.addAssign
    exact ⟨fewer, dvd_of_addAssign fewer assigned exact⟩
  · rintro ⟨fewer, y, multiple⟩
    rw [mul_comm] at multiple
    obtain ⟨r, added, digits, sum⟩ := exists_add fewer fits
    obtain ⟨s, subtracted, sDigits, difference⟩ := exists_sub fewer fits
    obtain ⟨swapped, addedBack, same⟩ := exists_swapped fewer multiple fits
    rw [← max_eq_right fewer] at digits sDigits
    exact ⟨⟨r, added, digits, sum⟩, ⟨s, subtracted, sDigits, difference⟩,
      exists_addAssign fewer multiple fits, exists_subAssign fewer multiple fits,
      ⟨r, swapped, added, addedBack, sum.trans same.symm⟩⟩

/-- Where the last precision is at least the second one, the first amount has nothing in the digits
that the second one lacks and the last one has; where it is less, the digits that the first two lose
on the way to it add up to less than its unit, and not against the sign of their sum. -/
def SumsAssociate (a b c : Money) : Prop :=
  if b.fracDigits ≤ c.fracDigits then
    10 ^ (min a.fracDigits c.fracDigits - b.fracDigits) ∣
      rescale a.fracDigits (min a.fracDigits c.fracDigits) a.val.toInt
  else
    let first := rescale a.fracDigits b.fracDigits a.val.toInt
    let unit := 10 ^ (b.fracDigits - c.fracDigits)
    |first.tmod unit + b.val.toInt.tmod unit| < unit ∧
      0 ≤ (first + b.val.toInt) * (first.tmod unit + b.val.toInt.tmod unit)

theorem rescale_up {digits target : Nat} (more : digits ≤ target) (x : Int) :
    rescale digits target x = x * 10 ^ (target - digits) :=
  if_pos more

theorem rescale_down {digits target : Nat} (fewer : target < digits) (x : Int) :
    rescale digits target x = x.tdiv (10 ^ (digits - target)) :=
  if_neg (Nat.not_le.mpr fewer)

/-- On the way down nothing depends on a stop between. -/
theorem rescale_cut {first second last : Nat} (fewer : last ≤ second) (x : Int) :
    (rescale first second x).tdiv (10 ^ (second - last)) = rescale first last x := by
  obtain ⟨k, rfl⟩ := Nat.exists_eq_add_of_le fewer
  rw [Nat.add_sub_cancel_left]
  rcases Nat.lt_or_ge (last + k) first with further | up
  · rw [rescale_down further, rescale_down (by omega)]
    have cut := Rounding.tdiv_tdiv x (10 ^ (first - (last + k))) (10 ^ k)
    rw [← Nat.pow_add, show first - (last + k) + k = first - last by omega] at cut
    exact_mod_cast cut
  · rw [rescale_up up]
    rcases Nat.lt_or_ge last first with down | both
    · rw [rescale_down down, show k = first - last + (last + k - first) by omega, pow_add]
      rw [show last + (first - last + (last + k - first)) - first = last + k - first by omega]
      exact Int.mul_tdiv_mul_of_pos_left x _ (pow_pos _)
    · rw [rescale_up both, show last + k - first = last - first + k by omega, pow_add, ← mul_assoc]
      exact Int.mul_tdiv_cancel _ (pow_pos k).ne'

/-- What is cut is restored exactly when nothing was there. -/
theorem rescale_restored_iff {first second last : Nat} (more : second ≤ last) (x : Int) :
    rescale first second x * 10 ^ (last - second) = rescale first last x ↔
      10 ^ (min first last - second) ∣ rescale first (min first last) x := by
  rcases Nat.lt_or_ge second first with down | up
  · have between : second ≤ min first last := le_min down.le more
    obtain ⟨k, atMin⟩ := Nat.exists_eq_add_of_le between
    obtain ⟨l, atLast⟩ := Nat.exists_eq_add_of_le (min_le_right first last)
    have restored : rescale first last x = rescale first (min first last) x * 10 ^ l := by
      rcases Nat.le_total first last with fewer | fewer
      · rw [min_eq_left fewer] at atLast ⊢
        rw [rescale_up fewer, rescale_up le_rfl, Nat.sub_self, pow_zero, mul_one,
          show last - first = l by omega]
      · rw [min_eq_right fewer] at atLast ⊢
        rw [show l = 0 by omega, pow_zero, mul_one]
    rw [restored, ← rescale_cut between, show last - second = k + l by omega,
      show min first last - second = k by omega, pow_add, ← mul_assoc,
      mul_left_inj' (pow_pos l).ne']
    exact ⟨fun same => ⟨_, by rw [mul_comm]; exact same.symm⟩, Int.tdiv_mul_cancel⟩
  · rw [Nat.sub_eq_zero_of_le ((min_le_left _ _).trans up), pow_zero]
    refine iff_of_true ?_ (one_dvd _)
    rw [rescale_up up, rescale_up (up.trans more), mul_assoc, ← pow_add,
      show second - first + (last - second) = last - first by omega]

theorem rescale_add_iff (a b c : Money) :
    rescale b.fracDigits c.fracDigits
        (rescale a.fracDigits b.fracDigits a.val.toInt + b.val.toInt) =
      rescale a.fracDigits c.fracDigits a.val.toInt +
        rescale b.fracDigits c.fracDigits b.val.toInt ↔ SumsAssociate a b c := by
  unfold SumsAssociate
  split
  · next more =>
      rw [rescale_up more, rescale_up more, add_mul, add_left_inj]
      exact rescale_restored_iff more a.val.toInt
  · next fewer =>
      have down : c.fracDigits < b.fracDigits := Nat.not_le.mp fewer
      rw [rescale_down down, rescale_down down, ← rescale_cut down.le]
      exact Rounding.tdiv_add_iff (pow_pos _)

theorem sumsAssociate_of_le {a b c : Money} (first : a.fracDigits ≤ b.fracDigits)
    (second : b.fracDigits ≤ c.fracDigits) : SumsAssociate a b c := by
  rw [SumsAssociate, if_pos second, Nat.sub_eq_zero_of_le ((min_le_left _ _).trans first), pow_zero]
  exact one_dvd _

theorem assoc_iff {a b c ab abc bc other : Money} (left : a.add b = .ok ab)
    (leftOuter : ab.add c = .ok abc) (right : b.add c = .ok bc)
    (rightOuter : a.add bc = .ok other) :
    abc.amount = other.amount ↔ SumsAssociate a b c := by
  obtain ⟨abIs, abDigits⟩ := add_ok left
  obtain ⟨abcIs, abcDigits⟩ := add_ok leftOuter
  obtain ⟨bcIs, bcDigits⟩ := add_ok right
  obtain ⟨otherIs, otherDigits⟩ := add_ok rightOuter
  rw [bcDigits] at otherDigits otherIs
  rw [abDigits, abIs] at abcIs
  rw [amount, amount, abcDigits, otherDigits, div_left_inj' (by positivity), Int.cast_inj, abcIs,
    otherIs, bcIs, ← rescale_add_iff]
  omega

/-- Sums are exact, commute and are kept by the compound operators exactly when the left operand
has no more fractional digits than the right one and the right one has nothing in the digits
that the left one lacks. They associate exactly when `SumsAssociate` holds of the digits that are
dropped on the way, as it does for precisions in ascending order. -/
theorem sums_exact (a b c : Money) :
    (NoOverflow a b → (ExactSums a b ↔ a.fracDigits ≤ b.fracDigits ∧
      10 ^ (b.fracDigits - a.fracDigits) ∣ b.val.toInt)) ∧
    (∀ ab abc bc other, a.add b = .ok ab → ab.add c = .ok abc → b.add c = .ok bc →
      a.add bc = .ok other → (abc.amount = other.amount ↔ SumsAssociate a b c)) ∧
    (a.fracDigits ≤ b.fracDigits → b.fracDigits ≤ c.fracDigits → SumsAssociate a b c) := by
  refine ⟨exactSums_iff, ?_, sumsAssociate_of_le⟩
  intro ab abc bc other
  exact assoc_iff

theorem sums_exact_cents : ExactSums ⟨15, 1⟩ ⟨250, 2⟩ :=
  ((sums_exact ⟨15, 1⟩ ⟨250, 2⟩ ⟨0, 0⟩).1
    ⟨by decide, by decide, by decide, by decide, by decide⟩).mpr ⟨by decide, by decide⟩

theorem sums_drop_cents : NoOverflow ⟨250, 2⟩ ⟨1, 0⟩ ∧
    ∃ r, add ⟨250, 2⟩ ⟨1, 0⟩ = .ok r ∧ r.amount ≠ amount ⟨250, 2⟩ + amount ⟨1, 0⟩ := by
  refine ⟨⟨by decide, by decide, by decide, by decide, by decide⟩, ⟨3, 0⟩, by decide, ?_⟩
  have raw : (250 : BitVec 64).toInt = 250 ∧ (1 : BitVec 64).toInt = 1 ∧
      (3 : BitVec 64).toInt = 3 := by decide
  norm_num [amount, raw]

end PqAsync.Money
