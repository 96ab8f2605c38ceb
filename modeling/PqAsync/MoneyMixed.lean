import PqAsync.MoneyNumbers

/-!
The operators of money that take a number, and when they work with exactly its amount.
-/

namespace PqAsync.Money

open Rounding

def Rescales (m : Money) (digits : Nat) : Prop :=
  m.fracDigits ≤ digits + 18 ∧ digits ≤ m.fracDigits + 18 ∧
    FitsInt64 (rescale m.fracDigits digits m.val.toInt)

theorem toFracDigits_iff {m r : Money} {digits : Nat} :
    m.toFracDigits digits = .ok r ↔ m.Rescales digits ∧
      r.val.toInt = rescale m.fracDigits digits m.val.toInt ∧ r.fracDigits = digits := by
  constructor
  · intro done
    obtain ⟨valIs, digitsAre⟩ := toFracDigits_ok done
    refine ⟨⟨?_, ?_, ?_⟩, valIs, digitsAre⟩
    · by_contra far
      have near := ((toFracDigits_down (by omega)).mp done).1
      omega
    · by_contra far
      have near := ((toFracDigits_up (by omega)).mp done).1
      omega
    · rw [← valIs]
      exact fitsInt64_toInt _
  · rintro ⟨⟨below, above, fits⟩, valIs, digitsAre⟩
    rcases lt_trichotomy m.fracDigits digits with more | same | fewer
    · rw [rescale, if_pos more.le] at fits valIs
      exact (toFracDigits_up more).mpr ⟨by omega, fits, valIs, digitsAre⟩
    · rw [rescale, if_pos same.le, same, Nat.sub_self, pow_zero, mul_one,
        BitVec.toInt_inj] at valIs
      have whole : r = m := by
        cases r
        cases m
        simp_all
      rw [whole, ← same, toFracDigits_same]
    · rw [rescale, if_neg (by omega)] at valIs
      exact (toFracDigits_down fewer).mpr ⟨by omega, valIs, digitsAre⟩

theorem rescale_amount (digits target : Nat) (x : Int) :
    (rescale digits target x / 10 ^ target : ℚ) = truncAt (x / 10 ^ digits) target := by
  rw [rescale]
  split
  · next more =>
      have places : (x / 10 ^ digits : ℚ) * 10 ^ (target : Int) =
          (x * 10 ^ (target - digits) : Int) := by
        obtain ⟨extra, rfl⟩ := Nat.exists_eq_add_of_le more
        rw [Nat.add_sub_cancel_left, zpow_natCast, pow_add]
        push_cast
        field_simp
      rw [truncAt, places, trunc_intCast, zpow_neg, zpow_natCast, div_eq_mul_inv]
  · next fewer =>
      have places : (x / 10 ^ digits : ℚ) * 10 ^ (target : Int) =
          (x : ℚ) / (10 ^ (digits - target) : Int) := by
        obtain ⟨extra, rfl⟩ := Nat.exists_eq_add_of_le (not_le.mp fewer).le
        rw [Nat.add_sub_cancel_left, zpow_natCast, pow_add]
        push_cast
        field_simp
      rw [truncAt, places, trunc_intCast_div, zpow_neg, zpow_natCast, div_eq_mul_inv]

section

variable {localeDigits : Nat} {m : Money} {b : Number}

def total (localeDigits : Nat) (m : Money) (b : Number) : Int :=
  rescale m.fracDigits localeDigits m.val.toInt + b.whole * b.power localeDigits

/-- The converted number, the amount and the sum at the precisions that they get fit. -/
def SumFits (localeDigits : Nat) (m : Money) (b : Number) : Prop :=
  b.Converts localeDigits ∧ m.Rescales localeDigits ∧ FitsInt64 (total localeDigits m b) ∧
    FitsInt64 (rescale localeDigits m.fracDigits (total localeDigits m b))

def sum (localeDigits : Nat) (m : Money) (b : Number) : ℚ :=
  truncAt m.amount localeDigits + b.scaled localeDigits

def beyond (digits : Nat) (x : ℚ) : ℚ := x - truncAt x digits

/-- What the sum lacks: the digits of the amount that the locale does not have, what the number
loses when it is converted, and the digits of the sum that the amount does not have. -/
def lost (localeDigits : Nat) (m : Money) (b : Number) : ℚ :=
  beyond localeDigits m.amount + (b.fraction - b.whole * b.excess localeDigits) +
    beyond m.fracDigits (sum localeDigits m b)

theorem total_amount :
    (total localeDigits m b / 10 ^ localeDigits : ℚ) = sum localeDigits m b := by
  rw [total, sum, amount, ← rescale_amount, Number.scaled]
  push_cast
  ring

theorem sum_places (held : b.power localeDigits = 10 ^ localeDigits) : ∃ n : Int,
    sum localeDigits m b * 10 ^ (m.fracDigits : Int) = n := by
  rw [← total_amount, total, held]
  rcases le_total localeDigits m.fracDigits with fewer | more
  · obtain ⟨extra, split⟩ := Nat.exists_eq_add_of_le fewer
    refine ⟨(rescale m.fracDigits localeDigits m.val.toInt + b.whole * 10 ^ localeDigits) *
      10 ^ extra, ?_⟩
    rw [split, zpow_natCast, pow_add]
    push_cast
    field_simp
  · obtain ⟨extra, split⟩ := Nat.exists_eq_add_of_le more
    refine ⟨m.val.toInt + b.whole * 10 ^ m.fracDigits, ?_⟩
    rw [rescale, if_pos more, split, Nat.add_sub_cancel_left, zpow_natCast]
    push_cast
    field_simp
    ring

theorem lost_of_power (held : b.power localeDigits = 10 ^ localeDigits) :
    lost localeDigits m b = beyond localeDigits m.amount + b.fraction := by
  obtain ⟨n, places⟩ := @sum_places localeDigits m b held
  rw [lost, beyond, beyond, truncAt_of_whole places, Number.excess_of_power held]
  ring

theorem addAssignNum_ok {r : Money} : addAssignNum localeDigits m b = .ok r ↔
    SumFits localeDigits m b ∧
      r.val.toInt = rescale localeDigits m.fracDigits (total localeDigits m b) ∧
      r.fracDigits = m.fracDigits := by
  have chained : addAssignNum localeDigits m b = fromNum b localeDigits >>= fun c =>
      m.toFracDigits c.fracDigits >>= fun t =>
        checkedInt 64 (t.val.toInt + c.val.toInt) >>= fun val =>
          toFracDigits { t with val } m.fracDigits := rfl
  rw [chained, Results.bind_ok]
  constructor
  · rintro ⟨c, converted, added⟩
    obtain ⟨converts, valIs, digitsAre⟩ := fromNum_ok.mp converted
    obtain ⟨t, rescaled, rest⟩ := Results.bind_ok.mp added
    obtain ⟨val, valDone, restored⟩ := Results.bind_ok.mp rest
    rw [digitsAre] at rescaled
    obtain ⟨rescales, tIs, tDigits⟩ := toFracDigits_iff.mp rescaled
    rw [tIs, valIs] at valDone
    obtain ⟨fits, sumIs⟩ := checkedInt_ok.mp valDone
    obtain ⟨back, rIs, rDigits⟩ := toFracDigits_iff.mp restored
    have final := back.2.2
    rw [sumIs, tDigits] at rIs final
    exact ⟨⟨converts, rescales, fits, final⟩, rIs, rDigits⟩
  · rintro ⟨⟨converts, rescales, fits, back⟩, valIs, digitsAre⟩
    obtain ⟨below, above, range⟩ := rescales
    obtain ⟨val, raw⟩ := exists_toInt converts.2
    obtain ⟨scaled, scaledIs⟩ := exists_toInt range
    obtain ⟨sum, sumIs⟩ := exists_toInt fits
    refine ⟨⟨val, localeDigits⟩, fromNum_ok.mpr ⟨converts, raw, rfl⟩,
      Results.bind_ok.mpr ⟨⟨scaled, localeDigits⟩,
        toFracDigits_iff.mpr ⟨⟨below, above, range⟩, scaledIs, rfl⟩,
        Results.bind_ok.mpr ⟨sum, ?_, toFracDigits_iff.mpr ⟨⟨above, below, ?_⟩, ?_, digitsAre⟩⟩⟩⟩
    · rw [scaledIs, raw]
      exact checkedInt_ok.mpr ⟨fits, sumIs⟩
    · rw [sumIs]
      exact back
    · rw [sumIs, valIs]

/-- The sum is found, and is that of the amount and the number. -/
def Adds (m : Money) (b : Number) (result : Except WireError Money) : Prop :=
  ∃ r, result = .ok r ∧ r.amount = m.amount + b.value

theorem adds_iff : Adds m b (addAssignNum localeDigits m b) ↔
    SumFits localeDigits m b ∧ lost localeDigits m b = 0 := by
  have cut : (rescale localeDigits m.fracDigits (total localeDigits m b) / 10 ^ m.fracDigits : ℚ) =
      m.amount + b.value - lost localeDigits m b := by
    rw [rescale_amount, total_amount, lost, ← Number.value_sub_scaled, beyond, beyond, sum]
    ring
  constructor
  · rintro ⟨r, done, amountIs⟩
    obtain ⟨fits, valIs, digitsAre⟩ := addAssignNum_ok.mp done
    rw [amount, valIs, digitsAre, cut, sub_eq_self] at amountIs
    exact ⟨fits, amountIs⟩
  · rintro ⟨fits, none⟩
    obtain ⟨val, valIs⟩ := exists_toInt fits.2.2.2
    refine ⟨⟨val, m.fracDigits⟩, addAssignNum_ok.mpr ⟨fits, valIs, rfl⟩, ?_⟩
    rw [amount, valIs, cut, none, sub_zero]

def AddsByPlus (m : Money) (b : Number) : Prop := ∃ call, addNum = some call ∧ Adds m b (call m b)

def Comparison.holds (m : Money) (b : Number) : Comparison → Prop
  | .equal => m.amount = b.value
  | .notEqual => m.amount ≠ b.value
  | .less => m.amount < b.value
  | .greater => m.amount > b.value
  | .lessEqual => m.amount ≤ b.value
  | .greaterEqual => m.amount ≥ b.value

/-- A program can compare the money with the number, and is told what the amounts compare as. -/
def Compares (m : Money) (b : Number) (operator : Comparison) : Prop :=
  ∃ call, compareNum operator = some call ∧
    ∃ told, call m b = .ok told ∧ (told = true ↔ operator.holds m b)

end

section

variable {localeDigits : Nat} {m : Money}

/-- The amount changes by the given number of units of the currency. -/
def Steps (m : Money) (change : ℚ) (result : Except WireError Money) : Prop :=
  ∃ r, result = .ok r ∧ r.fracDigits = m.fracDigits ∧ r.amount = m.amount + change

theorem one_ok {one : BitVec 64} : valFromNum (.int64 1) localeDigits = .ok one ↔
    localeDigits ≤ 18 ∧ one.toInt = 10 ^ localeDigits := by
  have whole : (Number.int64 1).whole = 1 := trunc_intCast 1
  have power : (Number.int64 1).power localeDigits = 10 ^ localeDigits := rfl
  have limit : (Number.int64 1).digitsLimit = 18 := rfl
  rw [valFromNum_ok, Number.Converts, whole, one_mul, power, limit, fits_pow]
  exact and_congr_left fun _ => and_self_iff

theorem stepBy_ok {change : Int → Int → Int} {r : Money} :
    stepBy change localeDigits m = .ok r ↔
      localeDigits ≤ 18 ∧ FitsInt64 (change m.val.toInt (10 ^ localeDigits)) ∧
        r.val.toInt = change m.val.toInt (10 ^ localeDigits) ∧ r.fracDigits = m.fracDigits := by
  exact changed_ok one_ok (change m.val.toInt)

theorem amount_shifted_iff {sign : Int} (nonzero : sign ≠ 0) {r : Money}
    (shifted : r.val.toInt = m.val.toInt + sign * 10 ^ localeDigits)
    (digits : r.fracDigits = m.fracDigits) :
    r.amount = m.amount + sign ↔ localeDigits = m.fracDigits := by
  have apart : r.amount = m.amount + sign * (10 ^ localeDigits / 10 ^ m.fracDigits) := by
    rw [amount, amount, shifted, digits]
    push_cast
    ring
  rw [apart, add_right_inj, mul_eq_left₀ (Int.cast_ne_zero.mpr nonzero),
    div_eq_one_iff_eq (by positivity)]
  exact pow_right_inj₀ (by norm_num) (by norm_num)

theorem steps_iff {change : Int → Int → Int} {sign : Int} (nonzero : sign ≠ 0)
    (acts : ∀ x y, change x y = x + sign * y) :
    Steps m sign (stepBy change localeDigits m) ↔
      localeDigits = m.fracDigits ∧ localeDigits ≤ 18 ∧
        FitsInt64 (change m.val.toInt (10 ^ localeDigits)) := by
  constructor
  · rintro ⟨r, done, digits, changed⟩
    obtain ⟨small, fits, valIs, _⟩ := stepBy_ok.mp done
    rw [acts] at valIs
    exact ⟨(amount_shifted_iff nonzero valIs digits).mp changed, small, fits⟩
  · rintro ⟨same, small, fits⟩
    obtain ⟨val, valIs⟩ := exists_toInt fits
    have done : stepBy change localeDigits m = .ok ⟨val, m.fracDigits⟩ :=
      stepBy_ok.mpr ⟨small, fits, valIs, rfl⟩
    rw [acts] at valIs
    exact ⟨_, done, rfl, (@amount_shifted_iff _ m _ nonzero ⟨val, _⟩ valIs rfl).mpr same⟩

theorem increment_steps_iff : Steps m 1 (m.increment localeDigits) ↔
    localeDigits = m.fracDigits ∧ localeDigits ≤ 18 ∧
      FitsInt64 (m.val.toInt + 10 ^ localeDigits) := by
  have steps := @steps_iff localeDigits m (· + ·) 1 (by decide) (fun x y => by rw [one_mul])
  rwa [Int.cast_one] at steps

theorem decrement_steps_iff : Steps m (-1) (m.decrement localeDigits) ↔
    localeDigits = m.fracDigits ∧ localeDigits ≤ 18 ∧
      FitsInt64 (m.val.toInt - 10 ^ localeDigits) := by
  have steps := @steps_iff localeDigits m (· - ·) (-1) (by decide)
    (fun x y => by rw [neg_one_mul, Int.sub_eq_add_neg])
  rwa [Int.cast_neg, Int.cast_one] at steps

theorem postIncrement_eq : m.postIncrement localeDigits =
    (m.increment localeDigits).map fun r => (m, r) := by
  rw [postIncrement]
  cases m.increment localeDigits with
  | error failure => rfl
  | ok r => rfl

theorem postDecrement_eq : m.postDecrement localeDigits =
    (m.decrement localeDigits).map fun r => (m, r) := by
  rw [postDecrement]
  cases m.decrement localeDigits with
  | error failure => rfl
  | ok r => rfl

end

/-- A number is built or assigned exactly when its fraction is what the rounding of the power
makes up for, nothing where the type holds the power; it is added by `+=` when what is lost adds
up to nothing. By `+` it cannot be added, and it cannot be compared at all. A step is a unit when
the amount has the digits of the locale. -/
theorem number_amounts (localeDigits : Nat) (m : Money) (b : Number) :
    (∀ digits, Builds b (fromNum b digits) ↔
      b.Converts digits ∧ b.fraction = b.whole * b.excess digits) ∧
    (Builds b (ofNum localeDigits b) ↔
      b.Converts localeDigits ∧ b.fraction = b.whole * b.excess localeDigits) ∧
    (Builds b (assignNum localeDigits m b) ↔
      b.Converts localeDigits ∧ b.fraction = b.whole * b.excess localeDigits) ∧
    (Adds m b (addAssignNum localeDigits m b) ↔
      SumFits localeDigits m b ∧ lost localeDigits m b = 0) ∧
    (∀ digits, ((∃ n, b = .float n) → digits ≤ 10) →
      b.excess digits = 0 ∧ lost digits m b = beyond digits m.amount + b.fraction) ∧
    ¬AddsByPlus m b ∧ (∀ operator, ¬Compares m b operator) ∧
    (Steps m 1 (m.increment localeDigits) ↔ localeDigits = m.fracDigits ∧ localeDigits ≤ 18 ∧
      FitsInt64 (m.val.toInt + 10 ^ localeDigits)) ∧
    (Steps m (-1) (m.decrement localeDigits) ↔ localeDigits = m.fracDigits ∧ localeDigits ≤ 18 ∧
      FitsInt64 (m.val.toInt - 10 ^ localeDigits)) ∧
    m.postIncrement localeDigits = (m.increment localeDigits).map (fun r => (m, r)) ∧
    m.postDecrement localeDigits = (m.decrement localeDigits).map (fun r => (m, r)) := by
  refine ⟨builds_iff b, builds_iff b localeDigits, builds_iff b localeDigits, adds_iff, ?_, ?_,
    ?_, increment_steps_iff, decrement_steps_iff, postIncrement_eq, postDecrement_eq⟩
  · intro digits small
    have held := Number.power_exact small
    exact ⟨Number.excess_of_power held, lost_of_power held⟩
  · rintro ⟨call, found, _⟩
    cases found
  · rintro operator ⟨call, found, _⟩
    cases found

theorem number_loses_cents : (Number.double (61 / 50)).value * 10 ^ 2 = 122 ∧
    ¬Builds (.double (61 / 50)) (fromNum (.double (61 / 50)) 2) ∧
    ¬Adds ⟨1354, 2⟩ (.double (61 / 50)) (addAssignNum 2 ⟨1354, 2⟩ (.double (61 / 50))) ∧
    ¬Steps ⟨12540, 3⟩ 1 (increment 2 ⟨12540, 3⟩) := by
  have whole : (Number.double (61 / 50)).whole = 1 := by
    norm_num [Number.whole, Number.value, trunc]
  have raw : (1354 : BitVec 64).toInt = 1354 := by decide
  have kept : beyond 2 (amount ⟨1354, 2⟩) = 0 := by
    have places : amount ⟨1354, 2⟩ * 10 ^ ((2 : Nat) : Int) = (1354 : Int) := by
      norm_num [amount, raw]
    rw [beyond, truncAt_of_whole places, sub_self]
  have fraction : (Number.double (61 / 50)).fraction = 11 / 50 := by
    rw [Number.fraction, whole]
    norm_num [Number.value]
  refine ⟨by norm_num [Number.value], ?_, ?_, ?_⟩
  · rw [builds_iff, Number.excess_of_power rfl, fraction]
    norm_num
  · rw [adds_iff, lost_of_power rfl, kept, fraction]
    norm_num
  · rw [increment_steps_iff]
    decide

end PqAsync.Money
