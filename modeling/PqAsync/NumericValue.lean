import PqAsync.NumericCore

/-!
What a numeric stands for, and the helpers that keep it: the removal of outer zeros and the
comparison of magnitudes.
-/

namespace PqAsync

theorem nbase_pos : 0 < nbase := by decide

theorem nbase_ne_zero : nbase ≠ 0 := by decide

theorem nbase_cast_pos : (0 : ℚ) < (nbase : ℚ) := Int.cast_pos.mpr nbase_pos

namespace Numeric

def magnitude (var : Numeric) : ℚ := Radix.magnitude nbase var.digits var.weight

def value (var : Numeric) : ℚ :=
  if var.sign = numericNeg then -var.magnitude else var.magnitude

structure WellFormed (var : Numeric) : Prop where
  digits : Radix.Digits nbase var.digits
  sign : var.sign = numericPos ∨ var.sign = numericNeg
  zero : (∀ digit ∈ var.digits, digit = 0) → var.digits = [] ∧ var.sign = numericPos

structure Stripped (var : Numeric) : Prop where
  digits : Radix.Digits nbase var.digits
  sign : var.sign = numericPos ∨ var.sign = numericNeg
  leading : var.digits.head? ≠ some 0
  trailing : var.digits.getLast? ≠ some 0
  zero : var.digits = [] → var.weight = 0 ∧ var.sign = numericPos

theorem Stripped.nonzero {var : Numeric} (stripped : var.Stripped) (some : var.digits ≠ []) :
    ∃ digit ∈ var.digits, digit ≠ 0 := by
  obtain ⟨digit, digits, split⟩ := List.exists_cons_of_ne_nil some
  refine ⟨digit, by simp [split], ?_⟩
  intro zero
  apply stripped.leading
  simp [split, zero]

theorem Stripped.wellFormed {var : Numeric} (stripped : var.Stripped) : var.WellFormed := by
  refine ⟨stripped.digits, stripped.sign, ?_⟩
  intro zeros
  have empty : var.digits = [] := by
    by_contra some
    obtain ⟨digit, member, different⟩ := stripped.nonzero some
    exact different (zeros digit member)
  exact ⟨empty, (stripped.zero empty).2⟩

theorem magnitude_nonneg {var : Numeric} (digits : Radix.Digits nbase var.digits) :
    0 ≤ var.magnitude := Radix.magnitude_nonneg nbase_pos digits var.weight

theorem magnitude_of_nil {var : Numeric} (empty : var.digits = []) : var.magnitude = 0 := by
  rw [magnitude, empty]
  rfl

theorem WellFormed.magnitude_pos {var : Numeric} (wellFormed : var.WellFormed)
    (some : var.digits ≠ []) : 0 < var.magnitude := by
  apply Radix.magnitude_pos nbase_pos wellFormed.digits
  by_contra none
  push Not at none
  exact some (wellFormed.zero none).1

theorem WellFormed.pos_of_neg {var : Numeric} (wellFormed : var.WellFormed)
    (negative : var.sign = numericNeg) : 0 < var.magnitude := by
  apply wellFormed.magnitude_pos
  intro empty
  have positive := (wellFormed.zero (by simp [empty])).2
  rw [negative] at positive
  exact absurd positive (by decide)

theorem value_of_pos {var : Numeric} (positive : var.sign = numericPos) :
    var.value = var.magnitude := by
  rw [value, positive, if_neg (by decide)]

theorem value_of_neg {var : Numeric} (negative : var.sign = numericNeg) :
    var.value = -var.magnitude := by
  rw [value, if_pos negative]

theorem abs_value {x : Numeric} (range : Radix.Digits nbase x.digits) : |x.value| = x.magnitude := by
  have nonneg := magnitude_nonneg range
  rw [value]
  by_cases negative : x.sign = numericNeg
  · rw [if_pos negative, abs_neg, abs_of_nonneg nonneg]
  · rw [if_neg negative, abs_of_nonneg nonneg]

theorem WellFormed.value_eq_zero {var : Numeric} (wellFormed : var.WellFormed) :
    var.value = 0 ↔ var.digits = [] := by
  constructor
  · intro zero
    by_contra some
    have positive := wellFormed.magnitude_pos some
    rcases wellFormed.sign with sign | sign
    · rw [value_of_pos sign] at zero
      linarith
    · rw [value_of_neg sign] at zero
      linarith
  · intro empty
    rw [value, magnitude_of_nil empty]
    simp

theorem WellFormed.sign_neg_iff {var : Numeric} (wellFormed : var.WellFormed) :
    var.sign = numericNeg ↔ var.value < 0 := by
  constructor
  · intro negative
    rw [value_of_neg negative]
    exact neg_neg_of_pos (wellFormed.pos_of_neg negative)
  · intro below
    rcases wellFormed.sign with sign | sign
    · rw [value_of_pos sign] at below
      exact absurd below (not_lt.mpr (magnitude_nonneg wellFormed.digits))
    · exact sign

theorem sign_valid (var1 var2 : Numeric) :
    (if var1.sign = var2.sign then numericPos else numericNeg) = numericPos ∨
      (if var1.sign = var2.sign then numericPos else numericNeg) = numericNeg := by
  by_cases same : var1.sign = var2.sign
  · exact Or.inl (if_pos same)
  · exact Or.inr (if_neg same)

theorem WellFormed.value_signed {op : ℚ → ℚ → ℚ} (left : ∀ a b, op (-a) b = -op a b)
    (right : ∀ a b, op a (-b) = -op a b) {var1 var2 : Numeric} (wellFormed1 : var1.WellFormed)
    (wellFormed2 : var2.WellFormed) :
    op var1.value var2.value =
      if (if var1.sign = var2.sign then numericPos else numericNeg) = numericNeg then
        -(op var1.magnitude var2.magnitude)
      else op var1.magnitude var2.magnitude := by
  have different : numericPos ≠ numericNeg := by decide
  rcases wellFormed1.sign with sign1 | sign1
  · rcases wellFormed2.sign with sign2 | sign2
    · rw [value_of_pos sign1, value_of_pos sign2, sign1, sign2, if_pos rfl, if_neg different]
    · rw [value_of_pos sign1, value_of_neg sign2, sign1, sign2, if_neg different, if_pos rfl,
        right]
  · rcases wellFormed2.sign with sign2 | sign2
    · rw [value_of_neg sign1, value_of_pos sign2, sign1, sign2, if_neg different.symm, if_pos rfl,
        left]
    · rw [value_of_neg sign1, value_of_neg sign2, sign1, sign2, if_pos rfl, if_neg different,
        left, right, neg_neg]

theorem WellFormed.value_mul {var1 var2 : Numeric} (wellFormed1 : var1.WellFormed)
    (wellFormed2 : var2.WellFormed) :
    var1.value * var2.value =
      if (if var1.sign = var2.sign then numericPos else numericNeg) = numericNeg then
        -(var1.magnitude * var2.magnitude)
      else var1.magnitude * var2.magnitude :=
  value_signed neg_mul mul_neg wellFormed1 wellFormed2

theorem WellFormed.value_div {var1 var2 : Numeric} (wellFormed1 : var1.WellFormed)
    (wellFormed2 : var2.WellFormed) :
    var1.value / var2.value =
      if (if var1.sign = var2.sign then numericPos else numericNeg) = numericNeg then
        -(var1.magnitude / var2.magnitude)
      else var1.magnitude / var2.magnitude :=
  value_signed (fun a b => neg_div b a) (fun a _ => div_neg a) wellFormed1 wellFormed2

end Numeric

theorem zeroVar_stripped (dscale : Int) : (zeroVar dscale).Stripped where
  digits := Radix.Digits.nil
  sign := Or.inl rfl
  leading := by simp [zeroVar]
  trailing := by simp [zeroVar]
  zero _ := ⟨rfl, rfl⟩

theorem zeroVar_value (dscale : Int) : (zeroVar dscale).value = 0 :=
  (zeroVar_stripped dscale).wellFormed.value_eq_zero.mpr rfl

section Stripping

theorem stripLeading_spec (digits : List Int) (weight : Int) (spare : Nat) :
    (stripLeading digits weight spare).1 <:+ digits ∧
      (stripLeading digits weight spare).1.head? ≠ some 0 ∧
      Radix.magnitude nbase (stripLeading digits weight spare).1
        (stripLeading digits weight spare).2.1 = Radix.magnitude nbase digits weight := by
  induction digits generalizing weight spare with
  | nil => simp [stripLeading]
  | cons digit digits ih =>
      by_cases zero : digit = 0
      · obtain ⟨suffix, leading, same⟩ := ih (weight - 1) (spare + 1)
        rw [stripLeading, if_pos zero]
        refine ⟨suffix.trans (List.suffix_cons digit digits), leading, ?_⟩
        rw [same, Radix.magnitude, zero]
        simp
      · rw [stripLeading, if_neg zero]
        refine ⟨List.suffix_rfl, ?_, rfl⟩
        intro first
        exact zero (Option.some.inj first)

theorem magnitude_rdropWhile (digits : List Int) (weight : Int) :
    Radix.magnitude nbase (digits.rdropWhile (· = 0)) weight =
      Radix.magnitude nbase digits weight := by
  have split : digits.rdropWhile (· = 0) ++ digits.rtakeWhile (· = 0) = digits :=
    List.rdropWhile_append_rtakeWhile
  have zeros : ∀ digit ∈ digits.rtakeWhile (· = 0), digit = 0 := by
    intro digit member
    simpa using List.mem_rtakeWhile_imp member
  conv_rhs => rw [← split, Radix.magnitude_append, Radix.magnitude_of_zeros _ _ zeros, add_zero]

theorem stripVar_spec (var : Numeric) (digits : Radix.Digits nbase var.digits)
    (sign : var.sign = numericPos ∨ var.sign = numericNeg) :
    (stripVar var).Stripped ∧ (stripVar var).magnitude = var.magnitude ∧
      (stripVar var).dscale = var.dscale ∧
      ((stripVar var).digits ≠ [] → (stripVar var).sign = var.sign) := by
  obtain ⟨suffix, leading, same⟩ := stripLeading_spec var.digits var.weight var.spare
  rw [stripVar]
  generalize stripLeading var.digits var.weight var.spare = front at *
  obtain ⟨rest, weight, spare⟩ := front
  have kept := magnitude_rdropWhile rest weight
  have prefixed : rest.rdropWhile (· = 0) <+: rest := List.rdropWhile_prefix _ _
  have restDigits : Radix.Digits nbase (rest.rdropWhile (· = 0)) := by
    intro digit member
    exact digits digit (suffix.subset (prefixed.subset member))
  have restLeading : (rest.rdropWhile (· = 0)).head? ≠ some 0 := by
    intro first
    obtain ⟨tail, split⟩ := List.head?_eq_some_iff.mp first
    apply leading
    obtain ⟨after, whole⟩ := prefixed
    rw [← whole, split]
    rfl
  have restTrailing : (rest.rdropWhile (· = 0)).getLast? ≠ some 0 := by
    intro final
    obtain ⟨nonempty, last⟩ := List.mem_getLast?_eq_getLast final
    exact List.rdropWhile_last_not _ _ nonempty (by simp [← last])
  dsimp only at kept same ⊢
  by_cases empty : rest.rdropWhile (· = 0) = []
  · rw [if_pos empty]
    rw [empty] at kept restDigits restLeading restTrailing
    refine ⟨⟨?_, Or.inl rfl, ?_, ?_, fun _ => ⟨rfl, rfl⟩⟩, ?_, rfl, ?_⟩
    · rw [empty]
      exact restDigits
    · rw [empty]
      exact restLeading
    · rw [empty]
      exact restTrailing
    · rw [Numeric.magnitude, Numeric.magnitude, ← same, ← kept, empty]
      rfl
    · intro some
      exact absurd empty some
  · rw [if_neg empty]
    refine ⟨⟨restDigits, sign, restLeading, restTrailing, fun none => absurd none empty⟩, ?_, rfl,
      fun _ => rfl⟩
    rw [Numeric.magnitude, Numeric.magnitude, ← same, ← kept]

theorem stripVar_value {var : Numeric} (digits : Radix.Digits nbase var.digits) {sign : Int}
    (valid : sign = numericPos ∨ sign = numericNeg)
    (kept : var.sign = sign ∨ var.sign = numericPos ∧ var.digits = []) :
    (stripVar var).Stripped ∧
      (stripVar var).value = (if sign = numericNeg then -var.magnitude else var.magnitude) ∧
      (stripVar var).dscale = var.dscale := by
  have own : var.sign = numericPos ∨ var.sign = numericNeg := by
    rcases kept with same | ⟨positive, _⟩
    · rw [same]
      exact valid
    · exact Or.inl positive
  obtain ⟨stripped, same, scale, signKept⟩ := stripVar_spec var digits own
  refine ⟨stripped, ?_, scale⟩
  by_cases empty : (stripVar var).digits = []
  · have zero : var.magnitude = 0 := by
      rw [← same]
      exact Numeric.magnitude_of_nil empty
    rw [stripped.wellFormed.value_eq_zero.mpr empty, zero, neg_zero, ite_self]
  · have signEq : (stripVar var).sign = sign := by
      rcases kept with same | ⟨_, none⟩
      · rw [signKept empty, same]
      · have zero : (stripVar var).magnitude = 0 := by
          rw [same]
          exact Numeric.magnitude_of_nil none
        exact absurd zero (stripped.wellFormed.magnitude_pos empty).ne'
    rw [Numeric.value, signEq, same]

end Stripping

section Comparing

def Compares (stat : Int) (left right : ℚ) : Prop :=
  (stat = 1 ∧ right < left) ∨ (stat = 0 ∧ left = right) ∨ (stat = -1 ∧ left < right)

theorem compareRest_spec {digits1 digits2 : List Int} (range1 : Radix.Digits nbase digits1)
    (range2 : Radix.Digits nbase digits2) (ended : digits1 = [] ∨ digits2 = [])
    (weight1 weight2 : Int) :
    Compares (compareRest digits1 digits2) (Radix.magnitude nbase digits1 weight1)
      (Radix.magnitude nbase digits2 weight2) := by
  rw [compareRest]
  by_cases some1 : digits1.any (· ≠ 0)
  · have nonzero : ∃ digit ∈ digits1, digit ≠ 0 := by simpa using some1
    have empty : digits2 = [] := by
      rcases ended with empty | empty
      · obtain ⟨digit, member, _⟩ := nonzero
        rw [empty] at member
        exact absurd member List.not_mem_nil
      · exact empty
    rw [if_pos some1, empty]
    exact Or.inl ⟨rfl, Radix.magnitude_pos nbase_pos range1 weight1 nonzero⟩
  · have zeros1 : ∀ digit ∈ digits1, digit = 0 := by simpa using some1
    rw [if_neg some1, Radix.magnitude_of_zeros _ _ zeros1]
    by_cases some2 : digits2.any (· ≠ 0)
    · have nonzero : ∃ digit ∈ digits2, digit ≠ 0 := by simpa using some2
      rw [if_pos some2]
      exact Or.inr (Or.inr ⟨rfl, Radix.magnitude_pos nbase_pos range2 weight2 nonzero⟩)
    · have zeros2 : ∀ digit ∈ digits2, digit = 0 := by simpa using some2
      rw [if_neg some2, Radix.magnitude_of_zeros _ _ zeros2]
      exact Or.inr (Or.inl ⟨rfl, rfl⟩)

theorem magnitude_lt_of_digit {digit1 digit2 : Int} {digits1 digits2 : List Int}
    (range1 : Radix.Digits nbase digits1) (range2 : Radix.Digits nbase digits2)
    (less : digit1 < digit2) (weight : Int) :
    Radix.magnitude nbase (digit1 :: digits1) weight <
      Radix.magnitude nbase (digit2 :: digits2) weight := by
  have rest1 := Radix.magnitude_lt nbase_pos range1 (weight - 1)
  have rest2 := Radix.magnitude_nonneg nbase_pos range2 (weight - 1)
  have step : (digit1 : ℚ) + 1 ≤ digit2 := by exact_mod_cast less
  have scaled := mul_le_mul_of_nonneg_right step (zpow_pos nbase_cast_pos weight).le
  rw [sub_add_cancel] at rest1
  rw [Radix.magnitude, Radix.magnitude]
  linarith

theorem compareDigits_spec {digits1 digits2 : List Int} (range1 : Radix.Digits nbase digits1)
    (range2 : Radix.Digits nbase digits2) (weight : Int) :
    Compares (compareDigits digits1 digits2) (Radix.magnitude nbase digits1 weight)
      (Radix.magnitude nbase digits2 weight) := by
  induction digits1 generalizing digits2 weight with
  | nil =>
      rw [compareDigits.eq_2 _ _ (by simp)]
      exact compareRest_spec range1 range2 (Or.inl rfl) weight weight
  | cons digit1 digits1 ih =>
      cases digits2 with
      | nil =>
          rw [compareDigits.eq_2 _ _ (by simp)]
          exact compareRest_spec range1 range2 (Or.inr rfl) weight weight
      | cons digit2 digits2 =>
          obtain ⟨_, rest1⟩ := Radix.digits_cons.mp range1
          obtain ⟨_, rest2⟩ := Radix.digits_cons.mp range2
          rw [compareDigits]
          rcases lt_trichotomy digit1 digit2 with less | same | greater
          · rw [if_pos (by omega), if_neg (by omega)]
            exact Or.inr (Or.inr ⟨rfl, magnitude_lt_of_digit rest1 rest2 less weight⟩)
          · rw [if_neg (by omega), same, Radix.magnitude, Radix.magnitude]
            rcases ih rest1 rest2 (weight - 1) with ⟨stat, order⟩ | ⟨stat, order⟩ | ⟨stat, order⟩
            · exact Or.inl ⟨stat, by linarith⟩
            · exact Or.inr (Or.inl ⟨stat, by linarith⟩)
            · exact Or.inr (Or.inr ⟨stat, by linarith⟩)
          · rw [if_pos (by omega), if_pos (by omega)]
            exact Or.inl ⟨rfl, magnitude_lt_of_digit rest2 rest1 greater weight⟩

theorem skipLeading_none {other : Int} {digits : List Int} (range : Radix.Digits nbase digits)
    {weight : Int} (found : skipLeading other digits weight = none) :
    (nbase : ℚ) ^ (other + 1) ≤ Radix.magnitude nbase digits weight := by
  induction digits generalizing weight with
  | nil => simp [skipLeading] at found
  | cons digit digits ih =>
      obtain ⟨own, rest⟩ := Radix.digits_cons.mp range
      rw [skipLeading] at found
      by_cases above : weight > other
      · rw [if_pos above] at found
        by_cases zero : digit = 0
        · rw [if_neg (by simp [zero])] at found
          rw [Radix.magnitude, zero, Int.cast_zero, zero_mul, zero_add]
          exact ih rest found
        · have place : (nbase : ℚ) ^ (other + 1) ≤ (nbase : ℚ) ^ weight := by
            apply zpow_le_zpow_right₀ _ (by omega)
            norm_num [nbase]
          have large : (1 : ℚ) ≤ digit := by exact_mod_cast (by omega : 1 ≤ digit)
          have scaled := mul_le_mul_of_nonneg_right large (zpow_pos nbase_cast_pos weight).le
          have later := Radix.magnitude_nonneg nbase_pos rest (weight - 1)
          rw [Radix.magnitude]
          linarith
      · rw [if_neg above] at found
        exact absurd found (by simp)

theorem skipLeading_some {other : Int} {digits left : List Int}
    (range : Radix.Digits nbase digits) {weight leftWeight : Int}
    (found : skipLeading other digits weight = some (left, leftWeight)) :
    Radix.Digits nbase left ∧
      Radix.magnitude nbase left leftWeight = Radix.magnitude nbase digits weight ∧
      (left = [] ∨ leftWeight = min weight other) := by
  induction digits generalizing weight with
  | nil =>
      simp only [skipLeading, Option.some.injEq, Prod.mk.injEq] at found
      obtain ⟨empty, _⟩ := found
      rw [← empty]
      exact ⟨range, rfl, Or.inl rfl⟩
  | cons digit digits ih =>
      obtain ⟨own, rest⟩ := Radix.digits_cons.mp range
      rw [skipLeading] at found
      by_cases above : weight > other
      · rw [if_pos above] at found
        by_cases zero : digit = 0
        · rw [if_neg (by simp [zero])] at found
          obtain ⟨leftRange, same, aligned⟩ := ih rest found
          refine ⟨leftRange, ?_, ?_⟩
          · rw [same, Radix.magnitude, zero, Int.cast_zero, zero_mul, zero_add]
          · rcases aligned with empty | aligned
            · exact Or.inl empty
            · exact Or.inr (by omega)
        · rw [if_pos zero] at found
          exact absurd found (by simp)
      · simp only [if_neg above, Option.some.injEq, Prod.mk.injEq] at found
        obtain ⟨all, same⟩ := found
        rw [← all, ← same]
        exact ⟨range, rfl, Or.inr (by omega)⟩

theorem cmpAbs_spec {var1 var2 : Numeric} (range1 : Radix.Digits nbase var1.digits)
    (range2 : Radix.Digits nbase var2.digits) :
    Compares (cmpAbs var1 var2) var1.magnitude var2.magnitude := by
  rw [cmpAbs, cmpAbsCommon, Numeric.magnitude, Numeric.magnitude]
  cases found1 : skipLeading var2.weight var1.digits var1.weight with
  | none =>
      have large := skipLeading_none range1 found1
      have small := Radix.magnitude_lt nbase_pos range2 var2.weight
      exact Or.inl ⟨rfl, lt_of_lt_of_le small large⟩
  | some left1 =>
      obtain ⟨digits1, weight1⟩ := left1
      obtain ⟨leftRange1, same1, aligned1⟩ := skipLeading_some range1 found1
      rw [← same1]
      dsimp only
      cases found2 : skipLeading weight1 var2.digits var2.weight with
      | none =>
          have large := skipLeading_none range2 found2
          have small := Radix.magnitude_lt nbase_pos leftRange1 weight1
          exact Or.inr (Or.inr ⟨rfl, lt_of_lt_of_le small large⟩)
      | some left2 =>
          obtain ⟨digits2, weight2⟩ := left2
          obtain ⟨leftRange2, same2, aligned2⟩ := skipLeading_some range2 found2
          rw [← same2]
          dsimp only
          by_cases same : weight1 = weight2
          · rw [if_pos same, same]
            exact compareDigits_spec leftRange1 leftRange2 weight2
          · have ended : digits1 = [] ∨ digits2 = [] := by
              rcases aligned1 with empty | aligned1
              · exact Or.inl empty
              · rcases aligned2 with empty | aligned2
                · exact Or.inr empty
                · omega
            rw [if_neg same]
            exact compareRest_spec leftRange1 leftRange2 ended weight1 weight2

end Comparing

end PqAsync
