import PqAsync.NumericOrder
import PqAsync.ParserBuffers
import PqAsync.PrinterBuffers

/-!
Numerics as texts and back: a literal is printed in its canonical form, and a number that is
printed with all of its places is read back, unless an `int` of the parser or of the printer
overflows.
-/

namespace PqAsync

open Buffer Results

/-- `numeric::numeric(const char*)` over the buffers of the parser. -/
def Numeric.ofTextIn (s : List Char) : Except Fault Numeric := do
  let cp := (cString s).dropWhile isSpace
  if startsNan cp then return .nan
  else
    match ← setVarFromStrIn cp with
    | none => return .nan
    | some (value, cp) =>
        return if cp.all isSpace then value else { value with sign := numericNan }

/-- An optional sign, digits, and the digits behind the point if there is one. -/
structure Literal where
  sign : LiteralSign
  whole : List Char
  fraction : List Char
  plain : PlainDigits whole fraction

def withoutZeros (whole : List Char) : List Char :=
  match whole.dropWhile (· = '0') with
  | [] => ['0']
  | c :: digits => c :: digits

namespace Literal

def text (s : Literal) : List Char := s.sign.text ++ (s.whole ++ pointText s.fraction)

def nonzero (s : Literal) : Bool := (s.whole ++ s.fraction).any (· ≠ '0')

def canonical (s : Literal) : List Char :=
  signText (s.sign = .minus && s.nonzero) ++ (withoutZeros s.whole ++ pointText s.fraction)

end Literal

namespace Numeric

/-- The text says that it is no number, or the parser's `int` values fit. -/
def ReadableText (s : List Char) : Prop :=
  startsNan ((cString s).dropWhile isSpace) = false → Readable ((cString s).dropWhile isSpace)

theorem ofTextIn_eq {s : List Char} (readable : ReadableText s) : ofTextIn s = .ok (ofText s) := by
  rw [ReadableText] at readable
  rw [ofTextIn, ofText]
  cases nan : startsNan ((cString s).dropWhile isSpace) with
  | true => rfl
  | false =>
      rw [if_neg Bool.false_ne_true, if_neg Bool.false_ne_true, setVarFromStrIn_eq (readable nan),
        ok_bind]
      cases setVarFromStr ((cString s).dropWhile isSpace) with
      | none => rfl
      | some read => rfl

theorem ofTextIn_overflows {s : List Char} (unreadable : ¬ReadableText s) :
    ofTextIn s = .error .overflow := by
  obtain ⟨number, beyond⟩ := Classical.not_imp.mp unreadable
  rw [ofTextIn, number, if_neg Bool.false_ne_true, setVarFromStrIn_overflows beyond]
  rfl

theorem ofTextIn_ok_iff {s : List Char} {x : Numeric} :
    ofTextIn s = .ok x ↔ ReadableText s ∧ ofText s = x := by
  by_cases readable : ReadableText s
  · rw [ofTextIn_eq readable, Except.ok.injEq, and_iff_right readable]
  · rw [ofTextIn_overflows readable]
    exact iff_of_false (fun read => by cases read) (fun both => readable both.1)

theorem getStrFromVar_ok_iff {x : Numeric} (range : Radix.Digits nbase x.digits)
    (scale : 0 ≤ x.dscale) {text : List Char} :
    getStrFromVar x = .ok text ↔ PrinterFits x.weight x.dscale ∧ x.text = text := by
  by_cases fits : PrinterFits x.weight x.dscale
  · rw [getStrFromVar_eq range scale fits, Except.ok.injEq, and_iff_right fits]
  · rw [getStrFromVar_overflows fits]
    exact iff_of_false (fun read => by cases read) (fun both => fits both.1)

theorem number_fits {digits : List Char} (plain : ∀ c ∈ digits, c.isDigit = true) :
    Decimal.number digits < 10 ^ digits.length := by
  have bound := Decimal.number_padded digits.length (Decimal.number digits)
  rw [Decimal.padded_number plain] at bound
  rw [bound]
  exact Nat.mod_lt _ (Nat.pow_pos (by decide))

theorem withoutZeros_eq {whole : List Char} (digits : ∀ c ∈ whole, c.isDigit = true) :
    withoutZeros whole = Nat.toDigits 10 (Decimal.number whole) := by
  rw [withoutZeros]
  rcases Nat.eq_zero_or_pos (Decimal.number whole) with zero | positive
  · have zeros : whole.dropWhile (fun c => decide (c = '0')) = [] := by
      rw [List.dropWhile_eq_nil_iff]
      intro c member
      exact decide_eq_true ((Decimal.number_eq_zero digits).mp zero c member)
    rw [zeros, zero]
    rfl
  · have rest := Decimal.dropWhile_padded positive (number_fits digits)
    rw [Decimal.padded_number digits] at rest
    rw [rest]
    rcases split : Nat.toDigits 10 (Decimal.number whole) with _ | ⟨c, cs⟩
    · exact absurd split Nat.toDigits_ne_nil
    · rfl

end Numeric

open Numeric

theorem Literal.nonzero_iff (s : Literal) :
    s.nonzero = true ↔ 0 < Decimal.number s.whole * 10 ^ s.fraction.length +
      Decimal.number s.fraction := by
  have plain : ∀ c ∈ s.whole ++ s.fraction, c.isDigit = true :=
    List.forall_mem_append.mpr ⟨s.plain.whole, s.plain.fraction⟩
  rw [← Decimal.number_append, Nat.pos_iff_ne_zero, Ne, Decimal.number_eq_zero plain,
    Literal.nonzero, List.any_eq_true]
  simp

theorem Literal.text_canonical (s : Literal) : (ofText s.text).text = s.canonical := by
  obtain ⟨stripped, value, scale⟩ :=
    @ofText_literal s.sign _ _ _ s.plain (behind_pointText s.fraction)
  have number : ((Decimal.number (s.whole ++ s.fraction) : Nat) : ℚ) / 10 ^ s.fraction.length =
      Decimal.number s.whole + Decimal.number s.fraction / 10 ^ s.fraction.length := by
    rw [Decimal.number_append, div_places]
  have signed : (s.sign = .minus && s.nonzero) = true →
      0 < Decimal.number s.whole * 10 ^ s.fraction.length + Decimal.number s.fraction := by
    intro negative
    rw [Bool.and_eq_true] at negative
    exact s.nonzero_iff.mp negative.2
  have printed := text_of_value stripped scale (number_fits s.plain.fraction) signed (by
    rw [value, number]
    by_cases minus : s.sign = .minus
    · rw [if_pos minus, decide_eq_true minus, Bool.true_and]
      by_cases some : s.nonzero = true
      · rw [if_pos some]
      · have none : Decimal.number s.whole * 10 ^ s.fraction.length +
            Decimal.number s.fraction = 0 := Nat.eq_zero_of_not_pos (mt s.nonzero_iff.mpr some)
        have zero : (Decimal.number s.whole : ℚ) +
            Decimal.number s.fraction / 10 ^ s.fraction.length = 0 := by
          rw [← div_places, none]
          simp
        rw [if_neg some, zero, neg_zero]
    · rw [if_neg minus, decide_eq_false minus, Bool.false_and, if_neg Bool.false_ne_true])
  rw [← withoutZeros_eq s.plain.whole, Decimal.padded_number s.plain.fraction] at printed
  exact printed

/-- The value has no decimal place behind those of the display scale. -/
def Numeric.WithinScale (x : Numeric) : Prop :=
  0 ≤ x.dscale ∧ ∃ whole : Int, x.magnitude * 10 ^ x.dscale = whole

theorem Numeric.WithinScale.placed {x : Numeric} (digits : Radix.Digits nbase x.digits)
    (within : x.WithinScale) : ∃ f N : Nat, Placed x f N := by
  obtain ⟨scale, whole, places⟩ := within
  obtain ⟨f, scaleEq⟩ := Int.eq_ofNat_of_zero_le scale
  have nonneg : 0 ≤ whole := by
    have positive : (0 : ℚ) < 10 ^ x.dscale := zpow_pos (by norm_num) _
    have product := mul_nonneg (magnitude_nonneg digits) positive.le
    rw [places] at product
    exact_mod_cast product
  obtain ⟨N, rfl⟩ := Int.eq_ofNat_of_zero_le nonneg
  rw [scaleEq, zpow_natCast] at places
  exact ⟨f, N, digits, scaleEq, places⟩

theorem Numeric.text_literal {x : Numeric} {f N : Nat} (placed : Placed x f N) :
    PlainDigits (wholeText x.digits x.weight) (Decimal.padded f (N % 10 ^ f)) ∧
      x.text = (if x.sign = numericNeg then LiteralSign.minus else .none).text ++
        (wholeText x.digits x.weight ++ pointText (Decimal.padded f (N % 10 ^ f))) := by
  obtain ⟨some, digits, _⟩ := wholeText_number placed
  refine ⟨⟨some, digits, Decimal.isDigit_padded⟩, ?_⟩
  rw [text_placed placed]
  by_cases negative : x.sign = numericNeg
  · rw [if_pos negative, decide_eq_true negative]
    rfl
  · rw [if_neg negative, decide_eq_false negative]
    rfl

theorem Numeric.ofText_text {x : Numeric} (wellFormed : x.WellFormed) (within : x.WithinScale) :
    (ofText x.text).Stripped ∧ (ofText x.text).value = x.value ∧
      (ofText x.text).dscale = x.dscale := by
  obtain ⟨f, N, placed⟩ := within.placed wellFormed.digits
  obtain ⟨_, _, number⟩ := wholeText_number placed
  obtain ⟨plain, text⟩ := text_literal placed
  have whole : Decimal.number (wholeText x.digits x.weight ++ Decimal.padded f (N % 10 ^ f)) = N := by
    rw [Decimal.number_append, number, Decimal.length_padded, Decimal.number_padded, Nat.mod_mod,
      mul_comm, Nat.div_add_mod]
  obtain ⟨stripped, value, scale⟩ :=
    @ofText_literal (if x.sign = numericNeg then .minus else .none) _ _ _ plain
      (behind_pointText _)
  rw [← text] at stripped value scale
  rw [whole, Decimal.length_padded, ← placed.magnitude_eq] at value
  rw [Decimal.length_padded, ← placed.scale] at scale
  refine ⟨stripped, ?_, scale⟩
  rw [value, Numeric.value]
  by_cases negative : x.sign = numericNeg
  · rw [if_pos negative, if_pos negative, if_pos rfl]
  · rw [if_neg negative, if_neg negative, if_neg (by decide)]

def groups (n : Nat) : Nat := 4 * ((n + 3) / 4)

/-- The digits in front of the point and behind it, either of them filled up to groups of four. -/
def ReadsDigits (whole fraction : Nat) : Prop :=
  groups whole + fraction + 4 < 2 ^ 31 ∧ whole + groups fraction + 4 < 2 ^ 31

section Fitting

variable {sign : LiteralSign} {whole tail fraction : List Char}

theorem readable_literal (plain : PlainDigits whole fraction) (behind : Behind tail fraction) :
    Readable (sign.text ++ (whole ++ tail)) ↔ ReadsDigits whole.length fraction.length := by
  obtain ⟨c, cs, split⟩ := List.exists_cons_of_ne_nil plain.some
  have first : c.isDigit = true := plain.whole c (by rw [split]; exact List.mem_cons_self)
  have noPoint : scanPoint (whole ++ tail) = (false, whole ++ tail) := by
    rw [split]
    rcases Decimal.isDigit_cases first with rfl | rfl | rfl | rfl | rfl | rfl | rfl | rfl | rfl | rfl
    all_goals rfl
  have head : (whole ++ tail).headD '\x00' = c := by rw [split]; rfl
  have scanned := scanDigits_whole plain.whole plain.fraction behind (-1) 0
  obtain ⟨count, _⟩ := scanDigits_counts scanned
  rw [List.length_map, List.length_append] at count
  have some : 0 < whole.length := List.length_pos_of_ne_nil plain.some
  have offset : alignOffset (-1 + whole.length) = (groups whole.length : Int) - whole.length := by
    rw [alignOffset, groups]
    omega
  have place : PlacedFits (whole.length + fraction.length) (-1 + whole.length)
      (0 + fraction.length) (-1 + whole.length) ↔ ReadsDigits whole.length fraction.length := by
    rw [ReadsDigits]
    constructor
    · rintro ⟨_, ⟨_, padded⟩, index⟩
      rw [offset] at padded index
      rw [groups] at padded index ⊢
      rw [groups]
      push_cast at padded index
      omega
    · rintro ⟨padded, index⟩
      rw [groups] at padded
      rw [groups] at index
      refine ⟨⟨by omega, by omega⟩, ⟨by omega, ?_⟩, ?_⟩
      · rw [offset, groups]
        push_cast
        omega
      · rw [offset, groups]
        push_cast
        omega
  rw [Readable, scanSign_literal plain]
  dsimp only
  rw [noPoint]
  dsimp only
  rw [head, ← place]
  constructor
  · intro readable
    have fits := (readable first).placed scanned rfl
    rwa [← count] at fits
  · intro fits _
    refine ⟨?_, ?_⟩
    · obtain ⟨padded, index⟩ := place.mp fits
      rw [groups] at padded
      rw [← count]
      omega
    · intro found dweight dscale rest dweight' dscale' rest' found' moved
      rw [scanned] at found'
      cases found'
      cases moved
      rw [← count]
      exact fits

theorem readableText_literal (plain : PlainDigits whole fraction) (behind : Behind tail fraction) :
    ReadableText (sign.text ++ (whole ++ tail)) ↔
      ReadsDigits whole.length fraction.length := by
  obtain ⟨c, rest, head, start⟩ := @literal_head sign _ tail _ plain
  obtain ⟨notSpace, notNan⟩ := startsText start
  have skipped : (sign.text ++ (whole ++ tail)).dropWhile isSpace = sign.text ++ (whole ++ tail) := by
    rw [head, List.dropWhile_cons_of_neg (by simp [notSpace])]
  have number : startsNan (sign.text ++ (whole ++ tail)) = false := by
    rw [head]
    simp [startsNan, notNan]
  rw [ReadableText, cString_literal plain behind, skipped, ← readable_literal plain behind]
  exact ⟨fun readable => readable number, fun readable _ => readable⟩

end Fitting

/-- The room that the printer allocates for the digits in front of the point: one for a number
between -1 and 1 that is not zero, and otherwise groups of four. -/
def Literal.room (s : Literal) : Nat :=
  if Decimal.number s.whole = 0 ∧ s.nonzero = true then 1
  else groups (withoutZeros s.whole).length

theorem length_wholeText {digits : List Int} (range : Radix.Digits nbase digits) (w : Nat) :
    (wholeText digits w).length =
      (Nat.toDigits 10 (Radix.digitAt digits 0).toNat).length + 4 * w := by
  have own := Radix.digitAt_range nbase_pos range 0
  obtain ⟨d, same⟩ := Int.eq_ofNat_of_zero_le own.1
  rw [wholeText_places, List.length_append, length_placesText, same, Int.toNat_natCast,
    firstDigits_eq (by have high := own.2; rw [nbase] at high; omega)]

theorem groups_wholeText {digits : List Int} (range : Radix.Digits nbase digits) (w : Nat) :
    groups (wholeText digits w).length = 4 * (w + 1) := by
  have some : 0 < (Nat.toDigits 10 (Radix.digitAt digits 0).toNat).length :=
    List.length_pos_of_ne_nil Nat.toDigits_ne_nil
  have length := length_wholeText range w
  have short := @wholeText_length digits w
  rw [groups]
  omega

section

variable {x : Numeric} {f N : Nat} (placed : Placed x f N)

include placed

theorem Placed.weight_low (some : 0 < N) : -(f : Int) < (x.weight + 1) * decDigits := by
  have least : (10 : ℚ) ^ (-(f : Int)) ≤ x.magnitude := by
    rw [placed.magnitude_eq, zpow_neg, zpow_natCast, ← one_div]
    gcongr
    exact_mod_cast some
  have power : ((nbase : Int) : ℚ) ^ (x.weight + 1) = 10 ^ ((x.weight + 1) * decDigits) := by
    rw [nbase_zpow, mul_comm]
    rfl
  have below := placed.magnitude_lt
  rw [power] at below
  exact (zpow_lt_zpow_iff_right₀ (by norm_num)).mp (lt_of_le_of_lt least below)

theorem Placed.whole_pos (stripped : x.Stripped) (some : 0 < N) {w : Nat}
    (weight : x.weight = w) : 0 < N / 10 ^ f := by
  have nonempty : x.digits ≠ [] := by
    intro empty
    have zero := placed.places
    rw [Numeric.magnitude_of_nil empty, zero_mul] at zero
    exact some.ne (by exact_mod_cast zero)
  obtain ⟨digit, digits, split⟩ := List.exists_cons_of_ne_nil nonempty
  have range := stripped.digits
  rw [split] at range
  obtain ⟨own, others⟩ := Radix.digits_cons.mp range
  have leading : 0 < digit := by
    have first := stripped.leading
    rw [split, List.head?_cons] at first
    have different : digit ≠ 0 := fun zero => first (congrArg _ zero)
    omega
  have least := Radix.le_magnitude nbase_pos leading others x.weight
  rw [← split] at least
  have one : (1 : ℚ) ≤ ((nbase : Int) : ℚ) ^ x.weight := by
    rw [weight, zpow_natCast]
    exact one_le_pow₀ (by exact_mod_cast nbase_pos)
  have floor := placed.floor
  have positive : 1 ≤ ⌊x.magnitude⌋ := Int.le_floor.mpr (by exact_mod_cast one.trans least)
  rw [floor] at positive
  exact_mod_cast positive

end

theorem Literal.printerFits_iff (s : Literal) :
    PrinterFits (ofText s.text).weight s.fraction.length ↔
      s.room + s.fraction.length + 6 < 2 ^ 31 := by
  obtain ⟨stripped, value, scale⟩ :=
    @ofText_literal s.sign _ _ _ s.plain (behind_pointText s.fraction)
  rw [← Literal.text] at stripped value scale
  generalize ofText s.text = x at stripped value scale ⊢
  have magnitude : x.magnitude =
      Decimal.number (s.whole ++ s.fraction) / 10 ^ s.fraction.length := by
    rw [← abs_value stripped.digits, value]
    split
    · rw [abs_neg, abs_of_nonneg (by positivity)]
    · rw [abs_of_nonneg (by positivity)]
  have placed : Placed x s.fraction.length (Decimal.number (s.whole ++ s.fraction)) := by
    refine ⟨stripped.digits, scale, ?_⟩
    rw [magnitude, div_mul_cancel₀ _ (by positivity)]
  have whole : Decimal.number (s.whole ++ s.fraction) / 10 ^ s.fraction.length =
      Decimal.number s.whole := by
    rw [Decimal.number_append, mul_comm, Nat.mul_add_div (Nat.pow_pos (by decide)),
      Nat.div_eq_of_lt (number_fits s.plain.fraction), add_zero]
  have nonzero : s.nonzero = true ↔ 0 < Decimal.number (s.whole ++ s.fraction) := by
    rw [s.nonzero_iff, Decimal.number_append]
  by_cases below : x.weight < 0
  · have some : 0 < Decimal.number (s.whole ++ s.fraction) := by
      by_contra none
      have empty : x.value = 0 := by
        rw [value, Nat.eq_zero_of_not_pos none]
        simp
      have zero := (stripped.zero (stripped.wellFormed.value_eq_zero.mp empty)).1
      omega
    have front : Decimal.number s.whole = 0 := whole ▸ placed.whole_below below
    have low := placed.weight_low some
    rw [PrinterFits, wholeRoom_below below, Literal.room, if_pos ⟨front, nonzero.mpr some⟩]
    omega
  · obtain ⟨w, weight⟩ := Int.eq_ofNat_of_zero_le (not_lt.mp below)
    have inside : ¬(Decimal.number s.whole = 0 ∧ s.nonzero = true) := by
      rintro ⟨front, some⟩
      have positive := placed.whole_pos stripped (nonzero.mp some) weight
      rw [whole] at positive
      omega
    have text := wholeText_eq placed (stripped.trimmed (by rw [scale]; omega))
    rw [whole, ← withoutZeros_eq s.plain.whole, weight] at text
    have room := groups_wholeText stripped.digits w
    rw [text] at room
    have four : ((w : Int) + 1) * decDigits = (w + 1) * 4 := rfl
    rw [PrinterFits, weight, wholeRoom_nat, Literal.room, if_neg inside, room, four]
    omega

/-- The digits in front of the point that are printed of a number. -/
def Numeric.wholeLength (x : Numeric) : Nat :=
  if x.weight < 0 then 1
  else (Nat.toDigits 10 (Radix.digitAt x.digits 0).toNat).length + 4 * x.weight.toNat

theorem length_whole {x : Numeric} (range : Radix.Digits nbase x.digits) :
    (wholeText x.digits x.weight).length = x.wholeLength := by
  rw [Numeric.wholeLength]
  by_cases below : x.weight < 0
  · rw [wholeText, if_pos below, if_pos below]
    rfl
  · obtain ⟨w, weight⟩ := Int.eq_ofNat_of_zero_le (not_lt.mp below)
    rw [if_neg below, weight, length_wholeText range, Int.toNat_natCast]

theorem Numeric.readableText_text {x : Numeric} (wellFormed : x.WellFormed)
    (within : x.WithinScale) :
    ReadableText x.text ↔ ReadsDigits x.wholeLength x.dscale.toNat := by
  obtain ⟨f, N, placed⟩ := within.placed wellFormed.digits
  obtain ⟨plain, text⟩ := text_literal placed
  rw [text, readableText_literal plain (behind_pointText _), length_whole wellFormed.digits,
    Decimal.length_padded, placed.scale, Int.toNat_natCast]

def Literal.PrintsCanonical (s : Literal) : Prop :=
  (do let x ← ofTextIn s.text; getStrFromVar x) = .ok s.canonical

def Numeric.ReadsBack (n : Numeric) : Prop :=
  ∃ text read, getStrFromVar n = .ok text ∧ ofTextIn text = .ok read ∧
    read.equal n = true ∧ read.dscale = n.dscale

theorem Literal.printsCanonical_iff (s : Literal) : s.PrintsCanonical ↔
    ReadsDigits s.whole.length s.fraction.length ∧ s.room + s.fraction.length + 6 < 2 ^ 31 := by
  obtain ⟨stripped, _, scale⟩ :=
    @ofText_literal s.sign _ _ _ s.plain (behind_pointText s.fraction)
  rw [← Literal.text] at stripped scale
  have nonneg : 0 ≤ (ofText s.text).dscale := by
    rw [scale]
    omega
  rw [Literal.PrintsCanonical, bind_ok, ← s.printerFits_iff, ← scale,
    ← readableText_literal s.plain (behind_pointText s.fraction), ← Literal.text]
  constructor
  · rintro ⟨x, read, printed⟩
    obtain ⟨readable, rfl⟩ := ofTextIn_ok_iff.mp read
    exact ⟨readable, ((getStrFromVar_ok_iff stripped.digits nonneg).mp printed).1⟩
  · rintro ⟨readable, fits⟩
    exact ⟨_, ofTextIn_eq readable,
      (getStrFromVar_ok_iff stripped.digits nonneg).mpr ⟨fits, s.text_canonical⟩⟩

theorem Numeric.readsBack_iff {n : Numeric} (wellFormed : n.WellFormed) (within : n.WithinScale) :
    n.ReadsBack ↔ PrinterFits n.weight n.dscale ∧ ReadsDigits n.wholeLength n.dscale.toNat := by
  rw [← readableText_text wellFormed within]
  constructor
  · rintro ⟨text, read, printed, parsed, _⟩
    obtain ⟨fits, rfl⟩ := (getStrFromVar_ok_iff wellFormed.digits within.1).mp printed
    exact ⟨fits, (ofTextIn_ok_iff.mp parsed).1⟩
  · rintro ⟨fits, readable⟩
    obtain ⟨stripped, value, scale⟩ := ofText_text wellFormed within
    have orders := cmp_orders stripped.wellFormed.regular wellFormed.regular
    refine ⟨_, _, getStrFromVar_eq wellFormed.digits within.1 fits, ofTextIn_eq readable, ?_, scale⟩
    rw [equal, orders.same.mpr value]
    rfl

/-- A literal is printed in its canonical form, and a number is read back, exactly when the `int`
values of the parser and of the printer fit; and no index leaves its buffer when they do. -/
theorem text_round_trip_iff (s : Literal) {n : Numeric} (wellFormed : n.WellFormed)
    (within : n.WithinScale) :
    (s.PrintsCanonical ↔ ReadsDigits s.whole.length s.fraction.length ∧
      s.room + s.fraction.length + 6 < 2 ^ 31) ∧
    (n.ReadsBack ↔
      PrinterFits n.weight n.dscale ∧ ReadsDigits n.wholeLength n.dscale.toNat) ∧
    (∀ text, (∃ x, ofTextIn text = .ok x) ↔ ReadableText text) ∧
    ∀ x : Numeric, Radix.Digits nbase x.digits → 0 ≤ x.dscale →
      ((∃ text, getStrFromVar x = .ok text) ↔ PrinterFits x.weight x.dscale) := by
  refine ⟨s.printsCanonical_iff, readsBack_iff wellFormed within, ?_, ?_⟩
  · intro text
    constructor
    · rintro ⟨x, read⟩
      exact (ofTextIn_ok_iff.mp read).1
    · intro readable
      exact ⟨_, ofTextIn_eq readable⟩
  · intro x range scale
    constructor
    · rintro ⟨text, printed⟩
      exact ((getStrFromVar_ok_iff range scale).mp printed).1
    · intro fits
      exact ⟨_, getStrFromVar_eq range scale fits⟩

theorem sevenAndAHalf : PlainDigits ['0', '0', '7'] ['5', '0'] :=
  ⟨by decide, List.all_eq_true.mp rfl, List.all_eq_true.mp rfl⟩

theorem text_round_trip_iff_zeros :
    let s : Literal := ⟨.minus, ['0', '0', '7'], ['5', '0'], sevenAndAHalf⟩
    let n : Numeric := ⟨0, [0, 12, 5000, 0], 1, numericPos, 2⟩
    (s.PrintsCanonical ↔ ReadsDigits s.whole.length s.fraction.length ∧
      s.room + s.fraction.length + 6 < 2 ^ 31) ∧
    (n.ReadsBack ↔
      PrinterFits n.weight n.dscale ∧ ReadsDigits n.wholeLength n.dscale.toNat) ∧
    (∀ text, (∃ x, ofTextIn text = .ok x) ↔ ReadableText text) ∧
    ∀ x : Numeric, Radix.Digits nbase x.digits → 0 ≤ x.dscale →
      ((∃ text, getStrFromVar x = .ok text) ↔ PrinterFits x.weight x.dscale) :=
  text_round_trip_iff _ ⟨by decide, by decide, by decide⟩
    ⟨by decide, 1250, by norm_num [Numeric.magnitude, Radix.magnitude, nbase]⟩

theorem Numeric.withinScale_one (w : Nat) : WithinScale ⟨0, [1], w, numericPos, 0⟩ := by
  refine ⟨le_rfl, nbase ^ w, ?_⟩
  rw [zpow_zero, mul_one, Numeric.magnitude, Radix.magnitude, Radix.magnitude, Int.cast_one,
    one_mul, add_zero, zpow_natCast, Int.cast_pow]

theorem large_not_printed :
    ¬∀ n : Numeric, n.WellFormed → n.WithinScale → n.ReadsBack := by
  intro readsBack
  have within := Numeric.withinScale_one 536870911
  have back := readsBack _ ⟨by decide, by decide, by decide⟩ within
  have fits := (readsBack_iff ⟨by decide, by decide, by decide⟩ within).mp back
  exact absurd fits.1.2 (by decide)

example : (Literal.canonical ⟨.minus, ['0', '0', '7'], ['5', '0'], sevenAndAHalf⟩) =
    ['-', '7', '.', '5', '0'] := by
  decide

end PqAsync
