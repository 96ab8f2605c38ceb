import PqAsync.MoneyAmounts
import Mathlib.Tactic.Ring

/-!
The comparisons of money against the order of the amounts.
-/

namespace PqAsync.Money

def wholePart (m : Money) : Int := m.val.toInt.tdiv (10 ^ m.fracDigits)

def fracPart (m : Money) : Int := m.val.toInt.tmod (10 ^ m.fracDigits)

/-- Each of the six operators gives what the amounts compare as. -/
structure ComparesAs (a b : Money) : Prop where
  equal : a.equal b = .ok (decide (a.amount = b.amount))
  notEqual : a.notEqual b = .ok (decide (a.amount ≠ b.amount))
  less : a.less b = .ok (decide (a.amount < b.amount))
  greater : a.greater b = .ok (decide (a.amount > b.amount))
  lessEqual : a.lessEqual b = .ok (decide (a.amount ≤ b.amount))
  greaterEqual : a.greaterEqual b = .ok (decide (a.amount ≥ b.amount))

/-- A fractional part `x` whose `k` missing digits would carry it past `y`, which has the same
sign and is not below it as a raw number. -/
def Misleads (k : Nat) (x y : Int) : Prop :=
  0 < x ∧ x ≤ y ∧ y ≤ x * 10 ^ k ∨ x < 0 ∧ x * 10 ^ k ≤ y ∧ y ≤ x

instance (k : Nat) (x y : Int) : Decidable (Misleads k x y) :=
  inferInstanceAs (Decidable (_ ∨ _))

def HasParts (m : Money) : Prop := m.fracDigits ≤ 18 ∧ m.val.toInt ≠ -2 ^ 63

instance (m : Money) : Decidable m.HasParts := inferInstanceAs (Decidable (_ ∧ _))

/-- The fractional parts of amounts with the same whole part, of which the first has fewer
digits, do not mislead. -/
def PartsInOrder (a b : Money) : Prop :=
  a.wholePart = b.wholePart → ¬Misleads (b.fracDigits - a.fracDigits) a.fracPart b.fracPart

instance (a b : Money) : Decidable (PartsInOrder a b) := inferInstanceAs (Decidable (_ → _))

def Comparable (a b : Money) : Prop :=
  a.fracDigits = b.fracDigits ∨
    a.HasParts ∧ b.HasParts ∧
      (a.fracDigits < b.fracDigits ∧ FitsInt64 (a.atScale b.fracDigits) ∧ PartsInOrder a b ∨
        b.fracDigits < a.fracDigits ∧
          (10 ^ (a.fracDigits - b.fracDigits) ∣ a.val.toInt ∨
            a.val.toInt.tdiv (10 ^ (a.fracDigits - b.fracDigits)) ≠ b.val.toInt) ∧
          PartsInOrder b a)

instance (a b : Money) : Decidable (Comparable a b) := inferInstanceAs (Decidable (_ ∨ _))

theorem fits_natAbs (v : BitVec 64) : FitsInt64 v.toInt.natAbs ↔ v.toInt ≠ -2 ^ 63 := by
  obtain ⟨low, high⟩ := fitsInt64_toInt v
  constructor
  · rintro ⟨_, above⟩ least
    omega
  · intro different
    constructor
    · omega
    · omega

theorem signed_tmod (x m : Int) :
    (if x < 0 then -((x.natAbs : Int).tmod m) else (x.natAbs : Int).tmod m) = x.tmod m := by
  split
  · next negative => rw [Int.ofNat_natAbs_of_nonpos negative.le, Int.neg_tmod, neg_neg]
  · next positive => rw [Int.natAbs_of_nonneg (not_lt.mp positive)]

theorem decimalPartsTo_ok {m : Money} {parts : Int × Int} :
    m.decimalPartsTo = .ok parts ↔ m.HasParts ∧ parts = (m.wholePart, m.fracPart) := by
  rw [decimalPartsTo, Results.bind_ok]
  constructor
  · rintro ⟨pow, powDone, rest⟩
    obtain ⟨abs, absDone, same⟩ := Results.bind_ok.mp rest
    obtain ⟨small, powIs⟩ := getPow_ok.mp powDone
    obtain ⟨fits, absIs⟩ := checkedInt_ok.mp absDone
    cases same
    rw [powIs, absIs, signed_tmod]
    exact ⟨⟨small, (fits_natAbs m.val).mp fits⟩, rfl⟩
  · rintro ⟨⟨small, different⟩, rfl⟩
    obtain ⟨pow, powDone, powIs⟩ := exists_getPow small
    obtain ⟨abs, absIs⟩ := exists_toInt ((fits_natAbs m.val).mpr different)
    refine ⟨pow, powDone, Results.bind_ok.mpr ⟨abs, ?_, ?_⟩⟩
    · exact checkedInt_ok.mpr ⟨(fits_natAbs m.val).mpr different, absIs⟩
    · simp only [powIs, absIs, signed_tmod]
      rfl

theorem decide_eq_ite_iff {condition p q r : Prop} [Decidable condition] [Decidable p]
    [Decidable q] [Decidable r] :
    decide p = (if condition then decide q else decide r) ↔
      (p ↔ if condition then q else r) := by
  split
  · exact decide_eq_decide
  · exact decide_eq_decide

theorem compareBy_ok {relation : Int → Int → Bool} {a b : Money} {result : Bool}
    (different : a.fracDigits ≠ b.fracDigits) :
    compareBy relation a b = .ok result ↔
      a.HasParts ∧ b.HasParts ∧ result =
        if a.wholePart = b.wholePart then relation a.fracPart b.fracPart
        else relation a.wholePart b.wholePart := by
  rw [compareBy, if_neg different, Results.bind_ok]
  constructor
  · rintro ⟨partsA, doneA, rest⟩
    obtain ⟨partsB, doneB, same⟩ := Results.bind_ok.mp rest
    obtain ⟨hasA, rfl⟩ := decimalPartsTo_ok.mp doneA
    obtain ⟨hasB, rfl⟩ := decimalPartsTo_ok.mp doneB
    cases same
    exact ⟨hasA, hasB, rfl⟩
  · rintro ⟨hasA, hasB, rfl⟩
    exact ⟨_, decimalPartsTo_ok.mpr ⟨hasA, rfl⟩,
      Results.bind_ok.mpr ⟨_, decimalPartsTo_ok.mpr ⟨hasB, rfl⟩, rfl⟩⟩

theorem compareBy_swap {relation : Int → Int → Bool} {a b : Money} {result : Bool}
    (different : a.fracDigits ≠ b.fracDigits) :
    compareBy relation a b = .ok result ↔
      compareBy (fun x y => relation y x) b a = .ok result := by
  rw [compareBy_ok different, compareBy_ok different.symm]
  simp only [@eq_comm _ a.wholePart, and_left_comm]

section

variable {a b : Money}

def OrdersAs (a b : Money) : Prop :=
  a.less b = .ok (decide (a.amount < b.amount)) ∧
    a.greater b = .ok (decide (a.amount > b.amount)) ∧
    a.lessEqual b = .ok (decide (a.amount ≤ b.amount)) ∧
    a.greaterEqual b = .ok (decide (a.amount ≥ b.amount))

theorem less_swap (different : a.fracDigits ≠ b.fracDigits) {result : Bool} :
    a.less b = .ok result ↔ b.greater a = .ok result := compareBy_swap different

theorem lessEqual_swap (different : a.fracDigits ≠ b.fracDigits) {result : Bool} :
    a.lessEqual b = .ok result ↔ b.greaterEqual a = .ok result := compareBy_swap different

theorem ordersAs_swap (different : a.fracDigits ≠ b.fracDigits) :
    OrdersAs a b ↔ OrdersAs b a := by
  constructor
  · rintro ⟨less, greater, lessEqual, greaterEqual⟩
    exact ⟨(less_swap different.symm).mpr greater, (less_swap different).mp less,
      (lessEqual_swap different.symm).mpr greaterEqual, (lessEqual_swap different).mp lessEqual⟩
  · rintro ⟨less, greater, lessEqual, greaterEqual⟩
    exact ⟨(less_swap different).mpr greater, (less_swap different.symm).mp less,
      (lessEqual_swap different).mpr greaterEqual, (lessEqual_swap different.symm).mp lessEqual⟩

variable (fewer : a.fracDigits < b.fracDigits)

include fewer

theorem pow_split : (10 : Int) ^ b.fracDigits =
    10 ^ a.fracDigits * 10 ^ (b.fracDigits - a.fracDigits) := by
  rw [← pow_add, Nat.add_sub_cancel' fewer.le]

theorem wholePart_scaled :
    (a.atScale b.fracDigits).tdiv (10 ^ b.fracDigits) = a.wholePart := by
  rw [pow_split fewer, atScale, Int.mul_tdiv_mul_of_pos_left _ _ (pow_pos _)]
  rfl

theorem lt_of_wholePart_lt (below : a.wholePart < b.wholePart) :
    a.atScale b.fracDigits < b.val.toInt := by
  by_contra above
  have cut := Int.tdiv_le_tdiv (pow_pos b.fracDigits) (not_lt.mp above)
  rw [wholePart_scaled fewer] at cut
  exact absurd below (not_lt.mpr cut)

theorem gt_of_wholePart_gt (above : b.wholePart < a.wholePart) :
    b.val.toInt < a.atScale b.fracDigits := by
  by_contra below
  have cut := Int.tdiv_le_tdiv (pow_pos b.fracDigits) (not_lt.mp below)
  rw [wholePart_scaled fewer] at cut
  exact absurd above (not_lt.mpr cut)

theorem sub_of_wholePart_eq (same : a.wholePart = b.wholePart) :
    a.atScale b.fracDigits - b.val.toInt =
      a.fracPart * 10 ^ (b.fracDigits - a.fracDigits) - b.fracPart := by
  have splitA := Int.mul_tdiv_add_tmod a.val.toInt (10 ^ a.fracDigits)
  have splitB := Int.mul_tdiv_add_tmod b.val.toInt (10 ^ b.fracDigits)
  rw [← wholePart, ← fracPart] at splitA splitB
  rw [atScale, ← splitA, ← splitB, same, pow_split fewer]
  ring

theorem not_misleads_iff (x y : Int) :
    ¬Misleads (b.fracDigits - a.fracDigits) x y ↔
      (x < y ↔ x * 10 ^ (b.fracDigits - a.fracDigits) < y) ∧
        (y < x ↔ y < x * 10 ^ (b.fracDigits - a.fracDigits)) := by
  have large : (10 : Int) ^ 1 ≤ 10 ^ (b.fracDigits - a.fracDigits) :=
    pow_le_pow_right₀ (by decide) (by omega)
  rw [Misleads]
  rcases lt_trichotomy x 0 with negative | zero | positive
  · have scaled : x * 10 ^ (b.fracDigits - a.fracDigits) ≤ x * 10 ^ 1 :=
      mul_le_mul_of_nonpos_left large negative.le
    omega
  · rw [zero, zero_mul]
    omega
  · have scaled : x * 10 ^ 1 ≤ x * 10 ^ (b.fracDigits - a.fracDigits) :=
      mul_le_mul_of_nonneg_left large positive.le
    omega

theorem chosen_lt_iff (inOrder : PartsInOrder a b) :
    (if a.wholePart = b.wholePart then a.fracPart < b.fracPart
      else a.wholePart < b.wholePart) ↔ a.atScale b.fracDigits < b.val.toInt := by
  split
  · next same =>
      have parts := (not_misleads_iff fewer _ _).mp (inOrder same)
      have difference := sub_of_wholePart_eq fewer same
      rw [parts.1]
      omega
  · next different =>
      constructor
      · exact lt_of_wholePart_lt fewer
      · intro below
        by_contra above
        have beyond := gt_of_wholePart_gt fewer (by omega)
        omega

theorem chosen_gt_iff (inOrder : PartsInOrder a b) :
    (if a.wholePart = b.wholePart then b.fracPart < a.fracPart
      else b.wholePart < a.wholePart) ↔ b.val.toInt < a.atScale b.fracDigits := by
  split
  · next same =>
      have parts := (not_misleads_iff fewer _ _).mp (inOrder same)
      have difference := sub_of_wholePart_eq fewer same
      rw [parts.2]
      omega
  · next different =>
      constructor
      · exact gt_of_wholePart_gt fewer
      · intro above
        by_contra below
        have under := lt_of_wholePart_lt fewer (by omega)
        omega

theorem ordersAs_iff : OrdersAs a b ↔ a.HasParts ∧ b.HasParts ∧ PartsInOrder a b := by
  have different : a.fracDigits ≠ b.fracDigits := fewer.ne
  have lt := amount_lt_iff fewer.le (le_refl b.fracDigits)
  have gt := amount_lt_iff (le_refl b.fracDigits) fewer.le
  rw [atScale_self] at lt gt
  constructor
  · rintro ⟨less, greater, _, _⟩
    obtain ⟨hasA, hasB, less⟩ := (compareBy_ok different).mp less
    obtain ⟨_, _, greater⟩ := (compareBy_ok different).mp greater
    refine ⟨hasA, hasB, ?_⟩
    intro same
    rw [if_pos same, decide_eq_decide, lt] at less
    rw [if_pos same, decide_eq_decide, gt_iff_lt, gt] at greater
    have difference := sub_of_wholePart_eq fewer same
    rw [not_misleads_iff fewer]
    omega
  · rintro ⟨hasA, hasB, inOrder⟩
    have below := chosen_lt_iff fewer inOrder
    have above := chosen_gt_iff fewer inOrder
    refine ⟨(compareBy_ok different).mpr ⟨hasA, hasB, ?_⟩,
      (compareBy_ok different).mpr ⟨hasA, hasB, ?_⟩,
      (compareBy_ok different).mpr ⟨hasA, hasB, ?_⟩,
      (compareBy_ok different).mpr ⟨hasA, hasB, ?_⟩⟩
    · rw [decide_eq_ite_iff, lt, ← below]
    · rw [decide_eq_ite_iff, gt_iff_lt, gt, ← above]
    · rw [decide_eq_ite_iff, ← not_lt, gt, ← above]
      split
      · exact not_lt
      · exact not_lt
    · rw [decide_eq_ite_iff, ge_iff_le, ← not_lt, lt, ← below]
      split
      · exact not_lt
      · exact not_lt

end

section

variable {a b : Money}

def EqualsAs (a b : Money) : Prop :=
  a.equal b = .ok (decide (a.amount = b.amount)) ∧
    a.notEqual b = .ok (decide (a.amount ≠ b.amount))

theorem exists_of_equalsAs (equals : EqualsAs a b) :
    ∃ tm, a.toFracDigits b.fracDigits = .ok tm := by
  obtain ⟨tm, done, _⟩ := Results.bind_ok.mp equals.1
  exact ⟨tm, done⟩

theorem equalsAs_iff_of {tm : Money} (done : a.toFracDigits b.fracDigits = .ok tm) :
    EqualsAs a b ↔ (tm.val.toInt = b.val.toInt ↔ a.amount = b.amount) := by
  rw [EqualsAs, Money.equal, Money.notEqual, done, BitVec.toInt_inj]
  by_cases same : tm.val = b.val
  · by_cases amounts : a.amount = b.amount
    · simp [same, amounts, bind, Except.bind, pure, Except.pure]
    · simp [same, amounts, bind, Except.bind, pure, Except.pure]
  · by_cases amounts : a.amount = b.amount
    · simp [same, amounts, bind, Except.bind, pure, Except.pure]
    · simp [same, amounts, bind, Except.bind, pure, Except.pure]

theorem equalsAs_up_iff (fewer : a.fracDigits < b.fracDigits) :
    EqualsAs a b ↔
      b.fracDigits - a.fracDigits ≤ 18 ∧ FitsInt64 (a.atScale b.fracDigits) := by
  constructor
  · intro equals
    obtain ⟨tm, done⟩ := exists_of_equalsAs equals
    obtain ⟨small, fits, _⟩ := (toFracDigits_up fewer).mp done
    exact ⟨small, fits⟩
  · rintro ⟨small, fits⟩
    obtain ⟨val, valIs⟩ := exists_toInt fits
    have done : a.toFracDigits b.fracDigits = .ok ⟨val, b.fracDigits⟩ :=
      (toFracDigits_up fewer).mpr ⟨small, fits, valIs, rfl⟩
    rw [equalsAs_iff_of done, amount_eq_iff fewer.le (le_refl b.fracDigits), atScale_self, valIs]

theorem tdiv_exact_iff {x y d : Int} (positive : 0 < d) :
    (x.tdiv d = y ↔ x = y * d) ↔ d ∣ x ∨ x.tdiv d ≠ y := by
  have divided : x.tdiv d = y → (x = y * d ↔ d ∣ x) := by
    rintro rfl
    constructor
    · intro multiple
      exact Dvd.intro_left _ multiple.symm
    · intro divides
      exact (Int.tdiv_mul_cancel divides).symm
  have whole : x = y * d → x.tdiv d = y := by
    rintro rfl
    exact Int.mul_tdiv_cancel _ positive.ne'
  tauto

theorem equalsAs_down_iff (more : b.fracDigits < a.fracDigits) :
    EqualsAs a b ↔
      a.fracDigits - b.fracDigits ≤ 18 ∧
        (10 ^ (a.fracDigits - b.fracDigits) ∣ a.val.toInt ∨
          a.val.toInt.tdiv (10 ^ (a.fracDigits - b.fracDigits)) ≠ b.val.toInt) := by
  have exact {tm : Money} (done : a.toFracDigits b.fracDigits = .ok tm) :
      EqualsAs a b ↔ 10 ^ (a.fracDigits - b.fracDigits) ∣ a.val.toInt ∨
        a.val.toInt.tdiv (10 ^ (a.fracDigits - b.fracDigits)) ≠ b.val.toInt := by
    rw [equalsAs_iff_of done, amount_eq_iff (le_refl a.fracDigits) more.le, atScale_self, atScale,
      ((toFracDigits_down more).mp done).2.1, tdiv_exact_iff (pow_pos _)]
  constructor
  · intro equals
    obtain ⟨tm, done⟩ := exists_of_equalsAs equals
    exact ⟨((toFracDigits_down more).mp done).1, (exact done).mp equals⟩
  · rintro ⟨small, cut⟩
    obtain ⟨val, valIs⟩ := exists_toInt (fits_tdiv (fitsInt64_toInt a.val) (pow_pos _))
    exact (@exact ⟨val, b.fracDigits⟩
      ((toFracDigits_down more).mpr ⟨small, valIs, rfl⟩)).mpr cut

theorem comparesAs_iff_parts : ComparesAs a b ↔ EqualsAs a b ∧ OrdersAs a b := by
  constructor
  · rintro ⟨equal, notEqual, less, greater, lessEqual, greaterEqual⟩
    exact ⟨⟨equal, notEqual⟩, less, greater, lessEqual, greaterEqual⟩
  · rintro ⟨⟨equal, notEqual⟩, less, greater, lessEqual, greaterEqual⟩
    exact ⟨equal, notEqual, less, greater, lessEqual, greaterEqual⟩

theorem comparesAs_of_same (same : a.fracDigits = b.fracDigits) : ComparesAs a b := by
  have lt := amount_lt_iff same.le (le_refl b.fracDigits)
  have gt := amount_lt_iff (le_refl b.fracDigits) same.le
  have unscaled : a.atScale b.fracDigits = a.val.toInt := by rw [← same, atScale_self]
  rw [unscaled, atScale_self] at lt gt
  have done : a.toFracDigits b.fracDigits = .ok a := by rw [← same, toFracDigits_same]
  refine comparesAs_iff_parts.mpr ⟨(equalsAs_iff_of done).mpr ?_, ?_⟩
  · rw [amount_eq_iff same.le (le_refl b.fracDigits), unscaled, atScale_self]
  · simp only [OrdersAs, less, greater, lessEqual, greaterEqual, compareBy, if_pos same, gt_iff_lt,
      ge_iff_le, ← not_lt, lt, gt, and_self]

theorem comparesAs_iff : ComparesAs a b ↔ Comparable a b := by
  rcases lt_trichotomy a.fracDigits b.fracDigits with fewer | same | more
  · rw [comparesAs_iff_parts, equalsAs_up_iff fewer, ordersAs_iff fewer]
    constructor
    · rintro ⟨⟨_, fits⟩, hasA, hasB, inOrder⟩
      exact Or.inr ⟨hasA, hasB, Or.inl ⟨fewer, fits, inOrder⟩⟩
    · rintro (same | ⟨hasA, hasB, ⟨_, fits, inOrder⟩ | ⟨more, _⟩⟩)
      · omega
      · exact ⟨⟨(Nat.sub_le _ _).trans hasB.1, fits⟩, hasA, hasB, inOrder⟩
      · omega
  · exact iff_of_true (comparesAs_of_same same) (Or.inl same)
  · rw [comparesAs_iff_parts, equalsAs_down_iff more, ordersAs_swap more.ne', ordersAs_iff more]
    constructor
    · rintro ⟨⟨_, cut⟩, hasB, hasA, inOrder⟩
      exact Or.inr ⟨hasA, hasB, Or.inr ⟨more, cut, inOrder⟩⟩
    · rintro (same | ⟨hasA, hasB, ⟨fewer, _⟩ | ⟨_, cut, inOrder⟩⟩)
      · omega
      · omega
      · exact ⟨⟨(Nat.sub_le _ _).trans hasA.1, cut⟩, hasB, hasA, inOrder⟩

/-- What makes the comparisons of three amounts an order of them. -/
structure OrderedTriple (a b c : Money) : Prop where
  equal_symm : a.equal b = b.equal a
  equal_trans : a.equal b = .ok true → b.equal c = .ok true → a.equal c = .ok true
  less_irrefl : a.less a = .ok false
  less_trans : a.less b = .ok true → b.less c = .ok true → a.less c = .ok true
  trichotomy : a.less b = .ok true ∨ a.equal b = .ok true ∨ b.less a = .ok true
  less_iff : a.less b = .ok true ↔ a.lessEqual b = .ok true ∧ a.notEqual b = .ok true

theorem orderedTriple {c : Money} (ab : ComparesAs a b) (ba : ComparesAs b a)
    (bc : ComparesAs b c) (ac : ComparesAs a c) : OrderedTriple a b c where
  equal_symm := by rw [ab.equal, ba.equal, decide_eq_decide.mpr eq_comm]
  equal_trans := by
    simp only [ab.equal, bc.equal, ac.equal, Except.ok.injEq, decide_eq_true_eq]
    exact Eq.trans
  less_irrefl := by
    rw [(comparesAs_of_same (b := a) rfl).less, decide_eq_false (lt_irrefl _)]
  less_trans := by
    simp only [ab.less, bc.less, ac.less, Except.ok.injEq, decide_eq_true_eq]
    exact lt_trans
  trichotomy := by
    simp only [ab.less, ab.equal, ba.less, Except.ok.injEq, decide_eq_true_eq]
    exact lt_trichotomy _ _
  less_iff := by
    simp only [ab.less, ab.lessEqual, ab.notEqual, Except.ok.injEq, decide_eq_true_eq]
    exact lt_iff_le_and_ne

end

/-- The operators compare two amounts rightly exactly when the amounts have the same number of
fractional digits, or neither a digit that a rescale drops nor the scale of their fractional
parts decides. On amounts of that kind they are an order. -/
theorem comparisons_order_amounts (a b c : Money) :
    (ComparesAs a b ↔ Comparable a b) ∧
      (Comparable a b → Comparable b a → Comparable b c → Comparable a c →
        OrderedTriple a b c) := by
  refine ⟨comparesAs_iff, ?_⟩
  intro ab ba bc ac
  exact orderedTriple (comparesAs_iff.mpr ab) (comparesAs_iff.mpr ba) (comparesAs_iff.mpr bc)
    (comparesAs_iff.mpr ac)

theorem comparisons_order_amounts_digits : OrderedTriple ⟨1, 0⟩ ⟨20, 1⟩ ⟨300, 2⟩ :=
  (comparisons_order_amounts ⟨1, 0⟩ ⟨20, 1⟩ ⟨300, 2⟩).2 (by decide) (by decide) (by decide)
    (by decide)

theorem comparisons_lose_digits : ¬ComparesAs ⟨15, 1⟩ ⟨1, 0⟩ := by
  intro compares
  have found : equal ⟨15, 1⟩ ⟨1, 0⟩ = .ok true := by decide
  have raw : (15 : BitVec 64).toInt = 15 ∧ (1 : BitVec 64).toInt = 1 := by decide
  rw [compares.equal, Except.ok.injEq, decide_eq_true_eq] at found
  norm_num [amount, raw] at found

end PqAsync.Money
