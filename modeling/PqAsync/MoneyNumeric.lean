import PqAsync.MoneyOrder
import PqAsync.MoneyText
import PqAsync.NumericDecimal

/-!
Money as a numeric and back, and its parts as texts, against the amount that it stands for.
-/

namespace PqAsync.Money

open Results Numeric

def signed (negative : Bool) (n : Nat) : Int := if negative then -n else n

/-- What is relied on of the functions that print and read numbers. -/
structure NumberTexts (numToStr : Int → List Char)
    (strToNum : List Char → Except WireError Int) : Prop where
  print {x : Int} : FitsInt64 x → numToStr x = signText (x < 0) ++ Nat.toDigits 10 x.natAbs
  parse {negative : Bool} {digits : List Char} : digits ≠ [] →
    (∀ c ∈ digits, c.isDigit = true) → FitsInt64 (signed negative (Decimal.number digits)) →
    strToNum (signText negative ++ digits) = .ok (signed negative (Decimal.number digits))

structure KeptByNumeric (numToStr : Int → List Char) (strToNum : List Char → Except WireError Int)
    (m : Money) : Prop where
  numeric : ∃ x, m.toNumeric numToStr = .ok x ∧ x.isNan = false ∧ x.value = m.amount
  back : ∃ x r, m.toNumeric numToStr = .ok x ∧ fromNumeric strToNum x m.fracDigits = .ok r ∧
    r.equal m = .ok true
  parts : ∃ whole fraction, m.decimalTexts numToStr = .ok (0 ≤ m.amount, whole, fraction) ∧
    PlainDigits whole fraction ∧ m.fracDigits ≤ fraction.length ∧
    (Decimal.number whole + Decimal.number fraction / 10 ^ fraction.length : ℚ) = |m.amount|

section

variable (m : Money)

def restPart : Nat := (m.val.toInt.tmod (10 ^ m.fracDigits)).natAbs

theorem restPart_eq : m.restPart = m.val.toInt.natAbs % 10 ^ m.fracDigits := by
  rw [restPart, Int.natAbs_tmod, Int.natAbs_pow]
  rfl

theorem wholePart_natAbs : m.wholePart.natAbs = m.val.toInt.natAbs / 10 ^ m.fracDigits := by
  rw [wholePart, Int.natAbs_tdiv, Int.natAbs_pow]
  rfl

theorem restPart_lt : m.restPart < 10 ^ m.fracDigits := by
  rw [restPart_eq]
  exact Nat.mod_lt _ (Nat.pow_pos (by decide))

theorem restPart_of_none (none : m.fracDigits = 0) : m.restPart = 0 := by
  have below := m.restPart_lt
  rw [none] at below
  omega

theorem natAbs_parts : m.wholePart.natAbs * 10 ^ m.fracDigits + m.restPart = m.val.toInt.natAbs := by
  rw [wholePart_natAbs, restPart_eq, Nat.mul_comm, Nat.div_add_mod]

theorem abs_amount : |m.amount| = m.val.toInt.natAbs / 10 ^ m.fracDigits := by
  have positive : (0 : ℚ) < 10 ^ m.fracDigits := by positivity
  rw [amount, abs_div, abs_of_pos positive, Nat.cast_natAbs, Int.cast_abs]

theorem printed_amount :
    (m.wholePart.natAbs + m.restPart / 10 ^ (max m.fracDigits 1) : ℚ) = |m.amount| := by
  have parts : ((m.wholePart.natAbs * 10 ^ m.fracDigits + m.restPart : Nat) : ℚ) =
      m.val.toInt.natAbs := congrArg _ m.natAbs_parts
  push_cast at parts
  rw [abs_amount, ← parts]
  rcases Nat.eq_zero_or_pos m.fracDigits with none | some
  · rw [m.restPart_of_none none, none]
    simp
  · rw [max_eq_left some]
    field_simp

theorem parts_of_nonneg (nonneg : 0 ≤ m.val.toInt) :
    0 ≤ m.wholePart ∧ m.val.toInt = m.wholePart * 10 ^ m.fracDigits + m.restPart := by
  have parts := Int.tdiv_mul_add_tmod m.val.toInt (10 ^ m.fracDigits)
  have rest : 0 ≤ m.val.toInt.tmod (10 ^ m.fracDigits) := Int.tmod_nonneg _ nonneg
  refine ⟨Int.tdiv_nonneg nonneg (pow_pos _).le, ?_⟩
  rw [wholePart, restPart]
  omega

theorem parts_of_neg (negative : m.val.toInt < 0) :
    m.wholePart ≤ 0 ∧ m.val.toInt = m.wholePart * 10 ^ m.fracDigits - m.restPart := by
  have parts := Int.tdiv_mul_add_tmod m.val.toInt (10 ^ m.fracDigits)
  have rest : m.val.toInt.tmod (10 ^ m.fracDigits) ≤ 0 := by
    have opposite : 0 ≤ (-m.val.toInt).tmod (10 ^ m.fracDigits) := Int.tmod_nonneg _ (by omega)
    rw [Int.neg_tmod] at opposite
    omega
  have whole : m.val.toInt.tdiv (10 ^ m.fracDigits) ≤ 0 := by
    have smaller := Int.tdiv_le_tdiv (pow_pos m.fracDigits) negative.le
    rwa [Int.zero_tdiv] at smaller
  refine ⟨whole, ?_⟩
  rw [wholePart, restPart]
  omega

theorem whole_fits : FitsInt64 (m.wholePart * 10 ^ m.fracDigits) := by
  obtain ⟨low, high⟩ := fitsInt64_toInt m.val
  have positive := pow_pos m.fracDigits
  rcases lt_or_ge m.val.toInt 0 with negative | nonneg
  · obtain ⟨below, parts⟩ := m.parts_of_neg negative
    have bound := mul_nonpos_of_nonpos_of_nonneg below positive.le
    constructor
    · omega
    · omega
  · obtain ⟨above, parts⟩ := m.parts_of_nonneg nonneg
    have bound := mul_nonneg above positive.le
    constructor
    · omega
    · omega

end

section

variable {numToStr : Int → List Char} {strToNum : List Char → Except WireError Int}
  (texts : NumberTexts numToStr strToNum) {m : Money}

include texts

theorem print_nat {n : Nat} (fits : FitsInt64 n) : numToStr n = Nat.toDigits 10 n := by
  have positive : ¬(n : Int) < 0 := by omega
  rw [texts.print fits, decide_eq_false positive]
  rfl

def ownText (m : Money) : List Char :=
  decimalText (m.wholePart < 0) (Nat.toDigits 10 m.wholePart.natAbs)
    (Decimal.padded (max m.fracDigits 1) m.restPart)

theorem print_rest (small : m.fracDigits ≤ 18) :
    List.replicate (m.fracDigits - (numToStr m.restPart).length) '0' ++ numToStr m.restPart =
      Decimal.padded (max m.fracDigits 1) m.restPart := by
  have below := m.restPart_lt
  have power : 10 ^ m.fracDigits ≤ 10 ^ 18 := Nat.pow_le_pow_right (by decide) small
  have printed := print_nat texts (n := m.restPart) ⟨by omega, by omega⟩
  rw [printed]
  rcases Nat.eq_zero_or_pos m.fracDigits with none | some
  · rw [m.restPart_of_none none, none]
    rfl
  · rw [max_eq_left some]
    exact Decimal.replicate_toDigits some below

theorem toText_eq (small : m.fracDigits ≤ 18) :
    m.toText numToStr m.fracDigits = .ok m.ownText := by
  obtain ⟨power, powDone, powIs⟩ := exists_getPow small
  have whole := texts.print (fits_tdiv (fitsInt64_toInt m.val) (pow_pos m.fracDigits))
  rw [toText, toFracDigits_same, ok_bind, powDone, ok_bind, powIs]
  change Except.ok (numToStr m.wholePart ++ '.' ::
    (List.replicate (m.fracDigits - (numToStr m.restPart).length) '0' ++ numToStr m.restPart)) = _
  rw [print_rest texts small, wholePart, whole, List.append_assoc]
  rfl

theorem toNumeric_ok {x : Numeric} :
    m.toNumeric numToStr = .ok x ↔ m.fracDigits ≤ 18 ∧ x = ofText m.ownText := by
  rw [toNumeric, bind_ok]
  constructor
  · rintro ⟨str, printed, read⟩
    cases read
    have small : m.fracDigits ≤ 18 := by
      rw [toText, toFracDigits_same, ok_bind] at printed
      obtain ⟨power, powDone, _⟩ := bind_ok.mp printed
      exact (getPow_ok.mp powDone).1
    rw [toText_eq texts small] at printed
    cases printed
    exact ⟨small, rfl⟩
  · rintro ⟨small, rfl⟩
    exact ⟨_, toText_eq texts small, rfl⟩

omit texts

theorem fits_places : m.restPart < 10 ^ (max m.fracDigits 1) :=
  lt_of_lt_of_le m.restPart_lt (Nat.pow_le_pow_right (by decide) (le_max_left _ _))

theorem ownText_value : (ofText m.ownText).value =
    if m.wholePart < 0 then -|m.amount| else |m.amount| := by
  rw [ownText, value_text fits_places, printed_amount]
  simp

theorem ownText_text : (ofText m.ownText).text = m.ownText := by
  refine text_ofText (lt_of_lt_of_le Nat.zero_lt_one (le_max_right _ _)) fits_places ?_
  intro negative
  have below : m.wholePart < 0 := of_decide_eq_true negative
  exact Nat.add_pos_left (Nat.mul_pos (by omega) (Nat.pow_pos (by decide))) _

theorem ownText_split :
    m.ownText.contains '.' = true ∧
      m.ownText.takeWhile (· ≠ '.') =
        signText (m.wholePart < 0) ++ Nat.toDigits 10 m.wholePart.natAbs ∧
      (m.ownText.dropWhile (· ≠ '.')).drop 1 =
        Decimal.padded (max m.fracDigits 1) m.restPart := by
  obtain ⟨_, whole, _⟩ := plainDigits m.wholePart.natAbs (max m.fracDigits 1) m.restPart
  have shape : m.ownText = (signText (m.wholePart < 0) ++ Nat.toDigits 10 m.wholePart.natAbs) ++
      '.' :: Decimal.padded (max m.fracDigits 1) m.restPart := (List.append_assoc _ _ _).symm
  have noPoint : ∀ c ∈ signText (m.wholePart < 0) ++ Nat.toDigits 10 m.wholePart.natAbs,
      decide (c ≠ '.') = true := by
    intro c member
    refine decide_eq_true ?_
    rintro rfl
    rcases List.mem_append.mp member with sign | digit
    · rw [signText] at sign
      split at sign
      · exact absurd (List.mem_singleton.mp sign) (by decide)
      · exact absurd sign List.not_mem_nil
    · exact absurd (whole _ digit) (by decide)
  rw [shape]
  refine ⟨by simp, ?_, ?_⟩
  · rw [List.takeWhile_append_of_pos noPoint]
    simp
  · rw [List.dropWhile_append_of_pos noPoint]
    simp

theorem fitFraction_places : fitFraction m.fracDigits
    (Decimal.padded (max m.fracDigits 1) m.restPart) = Decimal.padded m.fracDigits m.restPart := by
  rw [fitFraction, Decimal.length_padded]
  rcases Nat.eq_zero_or_pos m.fracDigits with none | some
  · rw [none]
    rfl
  · rw [max_eq_left some, if_neg (lt_irrefl _), Nat.sub_self, List.replicate_zero, List.append_nil]

theorem signed_wholePart : signed (m.wholePart < 0)
    (Decimal.number (Nat.toDigits 10 m.wholePart.natAbs)) = m.wholePart := by
  rw [Decimal.number_toDigits, signed]
  by_cases negative : m.wholePart < 0
  · rw [decide_eq_true negative, if_pos rfl]
    omega
  · rw [decide_eq_false negative, if_neg Bool.false_ne_true]
    omega

include texts

theorem fromNumeric_ok (small : m.fracDigits ≤ 18) {r : Money} :
    fromNumeric strToNum (ofText m.ownText) m.fracDigits = .ok r ↔
      ∃ fraction, strToNum (Decimal.padded m.fracDigits m.restPart) = .ok fraction ∧
        FitsInt64 (m.wholePart * 10 ^ m.fracDigits + fraction) ∧
        r.val.toInt = m.wholePart * 10 ^ m.fracDigits + fraction ∧ r.fracDigits = m.fracDigits := by
  obtain ⟨power, powDone, powIs⟩ := exists_getPow small
  obtain ⟨point, front, behind⟩ := @ownText_split m
  obtain ⟨some, whole, _⟩ := plainDigits m.wholePart.natAbs 1 0
  have read : strToNum (signText (m.wholePart < 0) ++ Nat.toDigits 10 m.wholePart.natAbs) =
      .ok m.wholePart := by
    have parsed := @NumberTexts.parse _ _ texts (m.wholePart < 0) _ some whole
    rw [signed_wholePart] at parsed
    exact parsed (fits_tdiv (fitsInt64_toInt m.val) (pow_pos m.fracDigits))
  obtain ⟨scaled, scaledIs⟩ := exists_toInt m.whole_fits
  have scaledDone : checkedInt 64 (m.wholePart * power.toInt) = .ok scaled := by
    rw [powIs]
    exact checkedInt_ok.mpr ⟨m.whole_fits, scaledIs⟩
  have unfolded : fromNumeric strToNum (ofText m.ownText) m.fracDigits = (do
      let fraction ← strToNum (Decimal.padded m.fracDigits m.restPart)
      let val ← checkedInt 64 (scaled.toInt + fraction)
      return { val, fracDigits := m.fracDigits }) := by
    rw [fromNumeric, powDone, ok_bind]
    dsimp only
    rw [ownText_text, if_pos point, front, behind, read, fitFraction_places, ok_bind, scaledDone,
      ok_bind]
  rw [unfolded, scaledIs, bind_ok]
  refine exists_congr fun fraction => and_congr_right fun _ => ?_
  rw [bind_ok]
  constructor
  · rintro ⟨val, added, same⟩
    cases same
    obtain ⟨fits, valIs⟩ := checkedInt_ok.mp added
    exact ⟨fits, valIs, rfl⟩
  · rintro ⟨fits, valIs, digits⟩
    refine ⟨r.val, checkedInt_ok.mpr ⟨fits, valIs⟩, ?_⟩
    rw [← digits]
    rfl

theorem print_parts {power abs : BitVec 64} (powIs : power.toInt = 10 ^ m.fracDigits)
    (absIs : abs.toInt = m.val.toInt.natAbs) :
    numToStr (abs.toInt.tdiv power.toInt) = Nat.toDigits 10 m.wholePart.natAbs ∧
      numToStr (abs.toInt.tmod power.toInt) = Nat.toDigits 10 m.restPart := by
  have fits := fitsInt64_toInt abs
  have whole : abs.toInt.tdiv power.toInt = m.wholePart.natAbs := by
    rw [absIs, powIs, Int.tdiv_eq_ediv_of_nonneg (by omega), wholePart_natAbs]
    push_cast
    rfl
  have rest : abs.toInt.tmod power.toInt = m.restPart := by
    rw [absIs, powIs, Int.tmod_eq_emod_of_nonneg (by omega), restPart_eq]
    push_cast
    rfl
  have parts := m.natAbs_parts
  have positive : 0 < 10 ^ m.fracDigits := Nat.pow_pos (by decide)
  have wholeBound := Nat.le_mul_of_pos_right m.wholePart.natAbs positive
  rw [FitsInt64] at fits
  rw [whole, rest]
  exact ⟨print_nat texts ⟨by omega, by omega⟩, print_nat texts ⟨by omega, by omega⟩⟩

theorem decimalTexts_ok {result : Bool × List Char × List Char} :
    m.decimalTexts numToStr = .ok result ↔
      m.fracDigits ≤ 18 ∧ m.val.toInt ≠ -2 ^ 63 ∧
        result = (decide (0 ≤ m.val.toInt), Nat.toDigits 10 m.wholePart.natAbs,
          Nat.toDigits 10 m.restPart) := by
  rw [decimalTexts, bind_ok]
  constructor
  · rintro ⟨power, powDone, rest⟩
    obtain ⟨small, powIs⟩ := getPow_ok.mp powDone
    obtain ⟨abs, absDone, same⟩ := bind_ok.mp rest
    obtain ⟨fits, absIs⟩ := checkedInt_ok.mp absDone
    obtain ⟨whole, places⟩ := print_parts texts powIs absIs
    cases same
    rw [whole, places]
    exact ⟨small, (fits_natAbs m.val).mp fits, rfl⟩
  · rintro ⟨small, other, rfl⟩
    obtain ⟨power, powDone, powIs⟩ := exists_getPow small
    obtain ⟨abs, absIs⟩ := exists_toInt ((fits_natAbs m.val).mpr other)
    obtain ⟨whole, places⟩ := print_parts texts powIs absIs
    refine ⟨power, powDone, bind_ok.mpr ⟨abs, checkedInt_ok.mpr ⟨(fits_natAbs m.val).mpr other, absIs⟩, ?_⟩⟩
    rw [whole, places]
    rfl

omit texts

theorem le_length_places : m.fracDigits ≤ (Nat.toDigits 10 m.restPart).length ↔
    m.fracDigits ≤ 1 ∨ 10 ^ (m.fracDigits - 1) ≤ m.restPart := by
  by_cases few : m.fracDigits ≤ 1
  · exact iff_of_true (le_trans few Nat.length_toDigits_pos) (Or.inl few)
  · have shorter := @Nat.length_toDigits_le_iff 10 m.restPart (m.fracDigits - 1) (by decide) (by omega)
    omega

theorem texts_amount (padded : m.fracDigits ≤ (Nat.toDigits 10 m.restPart).length) :
    (Decimal.number (Nat.toDigits 10 m.wholePart.natAbs) +
      Decimal.number (Nat.toDigits 10 m.restPart) / 10 ^ (Nat.toDigits 10 m.restPart).length : ℚ) =
        |m.amount| := by
  have some : 0 < max m.fracDigits 1 := lt_of_lt_of_le Nat.zero_lt_one (le_max_right _ _)
  have short := (Nat.length_toDigits_le_iff (by decide) some).mpr (@fits_places m)
  have positive : 0 < (Nat.toDigits 10 m.restPart).length := Nat.length_toDigits_pos
  have length : (Nat.toDigits 10 m.restPart).length = max m.fracDigits 1 := by omega
  rw [length, Decimal.number_toDigits, Decimal.number_toDigits, printed_amount]

end

/-- The amounts that survive: the powers and the absolute value exist, no places of a negative
amount are to be glued back, and the places start with no zero. -/
structure Convertible (strToNum : List Char → Except WireError Int) (m : Money) : Prop where
  power : m.fracDigits ≤ 18
  sign : 0 ≤ m.val.toInt ∨ (10 : Int) ^ m.fracDigits ∣ m.val.toInt
  least : m.val.toInt ≠ -2 ^ 63
  places : m.fracDigits ≤ 1 ∨ 10 ^ (m.fracDigits - 1) ≤ m.val.toInt.natAbs % 10 ^ m.fracDigits
  empty : m.fracDigits = 0 → strToNum [] = .ok 0

section

variable {strToNum : List Char → Except WireError Int} {m : Money}

theorem restPart_eq_zero : m.restPart = 0 ↔ (10 : Int) ^ m.fracDigits ∣ m.val.toInt := by
  rw [restPart, Int.natAbs_eq_zero, Int.dvd_iff_tmod_eq_zero]

theorem amount_nonneg : 0 ≤ m.amount ↔ 0 ≤ m.val.toInt := by
  have positive : (0 : ℚ) < 10 ^ m.fracDigits := by positivity
  rw [amount, le_div_iff₀ positive, zero_mul]
  exact Int.cast_nonneg_iff

theorem equal_same {r : Money} (digits : r.fracDigits = m.fracDigits) :
    r.equal m = .ok true ↔ r.val.toInt = m.val.toInt := by
  rw [equal, ← digits, toFracDigits_same, ok_bind]
  simp [pure, Except.pure, BitVec.toInt_inj]

theorem glued_iff : m.wholePart * 10 ^ m.fracDigits + m.restPart = m.val.toInt ↔
    0 ≤ m.val.toInt ∨ (10 : Int) ^ m.fracDigits ∣ m.val.toInt := by
  rw [← restPart_eq_zero]
  rcases lt_or_ge m.val.toInt 0 with negative | nonneg
  · have parts := (m.parts_of_neg negative).2
    omega
  · have parts := (m.parts_of_nonneg nonneg).2
    omega

theorem value_of_sign (sign : 0 ≤ m.val.toInt ∨ (10 : Int) ^ m.fracDigits ∣ m.val.toInt) :
    (ofText m.ownText).value = m.amount := by
  rw [ownText_value]
  rcases lt_or_ge m.val.toInt 0 with negative | nonneg
  · obtain ⟨whole, parts⟩ := m.parts_of_neg negative
    have rest : m.restPart = 0 :=
      restPart_eq_zero.mpr (sign.resolve_left (not_le.mpr negative))
    have below : m.wholePart < 0 := by
      refine lt_of_le_of_ne whole ?_
      intro zero
      rw [zero, rest] at parts
      omega
    have opposite : m.amount < 0 := lt_of_not_ge (mt amount_nonneg.mp (not_le.mpr negative))
    rw [if_pos below, abs_of_neg opposite, neg_neg]
  · have above := (m.parts_of_nonneg nonneg).1
    rw [if_neg (not_lt.mpr above), abs_of_nonneg (amount_nonneg.mpr nonneg)]

variable {numToStr : Int → List Char} (texts : NumberTexts numToStr strToNum)

include texts

theorem read_places (some : m.fracDigits ≠ 0) (small : m.fracDigits ≤ 18) :
    strToNum (Decimal.padded m.fracDigits m.restPart) = .ok (m.restPart : Int) := by
  have nonempty : Decimal.padded m.fracDigits m.restPart ≠ [] := by
    intro none
    have length := Decimal.length_padded m.fracDigits m.restPart
    rw [none] at length
    exact some length.symm
  have parsed := @NumberTexts.parse _ _ texts false _ nonempty Decimal.isDigit_padded
  rw [Decimal.number_padded, Nat.mod_eq_of_lt m.restPart_lt] at parsed
  have below := m.restPart_lt
  have power : 10 ^ m.fracDigits ≤ 10 ^ 18 := Nat.pow_le_pow_right (by decide) small
  exact parsed ⟨by rw [signed, if_neg Bool.false_ne_true]; omega,
    by rw [signed, if_neg Bool.false_ne_true]; omega⟩

theorem back_iff : (∃ x r, m.toNumeric numToStr = .ok x ∧
      fromNumeric strToNum x m.fracDigits = .ok r ∧ r.equal m = .ok true) ↔
    m.fracDigits ≤ 18 ∧ (0 ≤ m.val.toInt ∨ (10 : Int) ^ m.fracDigits ∣ m.val.toInt) ∧
      (m.fracDigits = 0 → strToNum [] = .ok 0) := by
  constructor
  · rintro ⟨x, r, made, glued, same⟩
    obtain ⟨small, rfl⟩ := (toNumeric_ok texts).mp made
    obtain ⟨fraction, read, _, valIs, digits⟩ := (fromNumeric_ok texts small).mp glued
    have whole := (equal_same digits).mp same
    rw [valIs] at whole
    by_cases none : m.fracDigits = 0
    · have rest := m.restPart_of_none none
      have parts : m.wholePart * 10 ^ m.fracDigits + (m.restPart : Int) = m.val.toInt :=
        glued_iff.mpr (Or.inr (by rw [none, pow_zero]; exact one_dvd _))
      have zero : fraction = 0 := by omega
      refine ⟨small, glued_iff.mp parts, fun _ => ?_⟩
      rw [none, rest, zero] at read
      exact read
    · rw [read_places texts none small] at read
      cases read
      exact ⟨small, glued_iff.mp whole, fun zero => absurd zero none⟩
  · rintro ⟨small, sign, empty⟩
    have parts := glued_iff.mpr sign
    have fits := fitsInt64_toInt m.val
    rw [← parts] at fits
    refine ⟨_, m, (toNumeric_ok texts).mpr ⟨small, rfl⟩, (fromNumeric_ok texts small).mpr
      ⟨m.restPart, ?_, fits, parts.symm, rfl⟩, (equal_same rfl).mpr rfl⟩
    by_cases none : m.fracDigits = 0
    · rw [m.restPart_of_none none, none]
      exact empty none
    · exact read_places texts none small

/-- Exactly the convertible amounts come back from their numerics and have two texts. -/
theorem kept_by_numeric_iff : KeptByNumeric numToStr strToNum m ↔ Convertible strToNum m := by
  constructor
  · intro kept
    obtain ⟨small, sign, empty⟩ := (back_iff texts).mp kept.back
    obtain ⟨whole, fraction, made, _, padded, _⟩ := kept.parts
    obtain ⟨_, other, same⟩ := (decimalTexts_ok texts).mp made
    rw [Prod.mk.injEq, Prod.mk.injEq] at same
    obtain ⟨_, rfl, rfl⟩ := same
    refine ⟨small, sign, other, ?_, empty⟩
    rw [← restPart_eq]
    exact le_length_places.mp padded
  · rintro ⟨small, sign, other, places, empty⟩
    rw [← restPart_eq] at places
    have padded := le_length_places.mpr places
    refine ⟨⟨_, (toNumeric_ok texts).mpr ⟨small, rfl⟩, isNan_text, value_of_sign sign⟩,
      (back_iff texts).mpr ⟨small, sign, empty⟩, ?_⟩
    refine ⟨_, _, (decimalTexts_ok texts).mpr ⟨small, other, ?_⟩, ⟨Nat.toDigits_ne_nil, ?_, ?_⟩,
      padded, texts_amount padded⟩
    · rw [decide_eq_decide.mpr amount_nonneg]
    · intro c member
      exact Nat.isDigit_of_mem_toDigits (by decide) (by decide) member
    · intro c member
      exact Nat.isDigit_of_mem_toDigits (by decide) (by decide) member

end

def printNumber (x : Int) : List Char := signText (x < 0) ++ Nat.toDigits 10 x.natAbs

def readNumber : List Char → Except WireError Int
  | '-' :: digits => .ok (signed true (Decimal.number digits))
  | digits => .ok (signed false (Decimal.number digits))

theorem plainTexts : NumberTexts printNumber readNumber where
  print _ := rfl
  parse {negative digits} some digit _ := by
    obtain ⟨c, rest, rfl⟩ := List.exists_cons_of_ne_nil some
    cases negative with
    | true => rfl
    | false =>
        have first := digit c List.mem_cons_self
        rcases Decimal.isDigit_cases first with rfl | rfl | rfl | rfl | rfl | rfl | rfl | rfl | rfl | rfl
        all_goals rfl

theorem kept_by_numeric_positive : KeptByNumeric printNumber readNumber ⟨1450, 2⟩ :=
  (kept_by_numeric_iff plainTexts).mpr ⟨by decide, by decide, by decide, by decide, by decide⟩

theorem negative_places_added : NumberTexts printNumber readNumber ∧
    (∃ x, toNumeric printNumber ⟨-150, 2⟩ = .ok x ∧
      fromNumeric readNumber x 2 = .ok ⟨-50, 2⟩ ∧ equal ⟨-50, 2⟩ ⟨-150, 2⟩ = .ok false) ∧
    ¬KeptByNumeric printNumber readNumber ⟨-150, 2⟩ := by
  have made : toNumeric printNumber ⟨-150, 2⟩ = .ok (ofText ['-', '1', '.', '5', '0']) := rfl
  have glued : fromNumeric readNumber (ofText ['-', '1', '.', '5', '0']) 2 = .ok ⟨-50, 2⟩ := by
    decide
  have different : equal ⟨-50, 2⟩ ⟨-150, 2⟩ = .ok false := by decide
  refine ⟨plainTexts, ⟨_, made, glued, different⟩, ?_⟩
  rintro ⟨_, ⟨x, r, own, back, same⟩, _⟩
  rw [made] at own
  cases own
  rw [glued] at back
  cases back
  rw [different] at same
  contradiction

end PqAsync.Money
