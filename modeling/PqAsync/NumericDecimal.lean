import PqAsync.Library.Decimal
import PqAsync.NumericNan
import Mathlib.Tactic.IntervalCases

/-!
Decimal texts of numerics: what the constructor makes of a plain decimal text, and the text that
is printed for a number with all of its places.
-/

namespace PqAsync

open Results Numeric

section Reading

theorem nbase_pow (n : Nat) : nbase ^ n = 10 ^ (4 * n) := by
  rw [pow_mul]
  rfl

theorem length_packDigits (n : Nat) (ds : List Int) : (packDigits n ds).length = n := by
  induction n generalizing ds with
  | zero => rfl
  | succ n ih => rw [packDigits, List.length_cons, ih]

theorem number_packDigits {n : Nat} {ds : List Int} (short : ds.length ≤ 4 * n) :
    Radix.number nbase (packDigits n ds) = Radix.number 10 ds * 10 ^ (4 * n - ds.length) := by
  induction n generalizing ds with
  | zero =>
      have none : ds = [] := List.length_eq_zero_iff.mp (by omega)
      rw [none]
      rfl
  | succ n ih =>
      have power : (10 : Int) ^ (4 * (n + 1)) = 10000 * 10 ^ (4 * n) := by ring
      rw [packDigits, Radix.number_cons, length_packDigits, nbase_pow, ih (by rw [List.length_drop]; omega)]
      rcases ds with _ | ⟨a, _ | ⟨b, _ | ⟨c, _ | ⟨d, ds⟩⟩⟩⟩
      · simp
      · have places : 4 * (n + 1) - [a].length = 4 * n + 3 := by simp; omega
        rw [places]
        simp [Radix.number_cons]
        ring
      · have places : 4 * (n + 1) - [a, b].length = 4 * n + 2 := by simp; omega
        rw [places]
        simp [Radix.number_cons]
        ring
      · have places : 4 * (n + 1) - [a, b, c].length = 4 * n + 1 := by simp; omega
        rw [places]
        simp [Radix.number_cons]
        ring
      · simp only [List.length_cons] at short
        have places : 4 * (n + 1) - (a :: b :: c :: d :: ds).length = 4 * n - ds.length := by
          simp only [List.length_cons]
          omega
        have whole : (10 : Int) ^ (4 * n) = 10 ^ ds.length * 10 ^ (4 * n - ds.length) := by
          rw [← pow_add]
          congr 1
          omega
        rw [places, whole]
        simp [Radix.number_cons]
        ring

theorem magnitude_packed (decdigits : List Int) (dweight : Int) :
    Radix.magnitude nbase
        (packDigits (((decdigits.length : Int) +
          ((weightOf dweight + 1) * decDigits - (dweight + 1)) + decDigits - 1).tdiv decDigits).toNat
          (List.replicate ((weightOf dweight + 1) * decDigits - (dweight + 1)).toNat 0 ++ decdigits))
        (weightOf dweight) =
      Radix.number 10 decdigits * (10 : ℚ) ^ (dweight + 1 - decdigits.length) := by
  have nonneg := offset_nonneg dweight
  generalize padEq : (weightOf dweight + 1) * decDigits - (dweight + 1) = pad at nonneg ⊢
  obtain ⟨pad, rfl⟩ := Int.eq_ofNat_of_zero_le nonneg
  have four : decDigits = 4 := rfl
  obtain ⟨n, count⟩ : ∃ n : Nat, n =
      (((decdigits.length : Int) + pad + decDigits - 1).tdiv decDigits).toNat := ⟨_, rfl⟩
  have enough : (List.replicate pad (0 : Int) ++ decdigits).length ≤ 4 * n := by
    rw [four, Int.tdiv_eq_ediv_of_nonneg (by omega)] at count
    rw [List.length_append, List.length_replicate]
    omega
  have ten : (10 : ℚ) ≠ 0 := by norm_num
  have number : Radix.number 10 (List.replicate pad (0 : Int) ++ decdigits) =
      Radix.number 10 decdigits := by
    rw [Radix.number_append, Radix.number_replicate_zero]
    ring
  have base (k : Int) : ((nbase : Int) : ℚ) ^ k = 10 ^ (4 * k) := nbase_zpow k
  rw [Int.toNat_natCast, ← count, Radix.magnitude_eq nbase_ne_zero, number_packDigits enough,
    length_packDigits, number, base]
  push_cast
  rw [mul_assoc, ← zpow_natCast, ← zpow_add₀ ten, List.length_append, List.length_replicate]
  rw [List.length_append, List.length_replicate] at enough
  rw [four] at padEq
  congr 2
  push_cast [Nat.cast_sub enough]
  linarith

theorem scanDigits_fraction {fraction : List Char} (digits : ∀ c ∈ fraction, c.isDigit = true)
    (dweight dscale : Int) :
    scanDigits fraction true dweight dscale =
      some (fraction.map digitOf, dweight, dscale + fraction.length, []) := by
  induction fraction generalizing dscale with
  | nil => simp [scanDigits]
  | cons c fraction ih =>
      obtain ⟨first, others⟩ := List.forall_mem_cons.mp digits
      rw [scanDigits, if_pos first, if_pos rfl, ih others]
      simp only [bind, Option.bind, pure, List.map_cons, List.length_cons]
      push_cast
      rw [add_assoc, add_comm 1]

def Behind (tail fraction : List Char) : Prop :=
  (tail = [] ∧ fraction = []) ∨ tail = '.' :: fraction

theorem scanDigits_whole {whole tail fraction : List Char} (digits : ∀ c ∈ whole, c.isDigit = true)
    (digitsBehind : ∀ c ∈ fraction, c.isDigit = true) (behind : Behind tail fraction)
    (dweight dscale : Int) :
    scanDigits (whole ++ tail) false dweight dscale =
      some ((whole ++ fraction).map digitOf, dweight + whole.length, dscale + fraction.length,
        []) := by
  induction whole generalizing dweight with
  | nil =>
      rcases behind with ⟨rfl, rfl⟩ | rfl
      · simp [scanDigits]
      · have notDigit : ¬('.'.isDigit = true) := by decide
        rw [List.nil_append, scanDigits, if_neg notDigit, if_pos rfl, if_neg (by simp),
          scanDigits_fraction digitsBehind]
        simp
  | cons c whole ih =>
      obtain ⟨first, others⟩ := List.forall_mem_cons.mp digits
      rw [List.cons_append, scanDigits, if_pos first, if_neg (by simp), ih others]
      simp only [bind, Option.bind, pure, List.cons_append, List.map_cons, List.length_cons]
      push_cast
      rw [add_assoc, add_comm 1]

theorem number_digitOf {cs : List Char} (digits : ∀ c ∈ cs, c.isDigit = true) :
    Radix.number 10 (cs.map digitOf) = Decimal.number cs := by
  induction cs with
  | nil => rfl
  | cons c cs ih =>
      obtain ⟨_, others⟩ := List.forall_mem_cons.mp digits
      have split : Decimal.number (c :: cs) =
          (c.toNat - '0'.toNat) * 10 ^ cs.length + Decimal.number cs := by
        have single : Decimal.number [c] = c.toNat - '0'.toNat := by
          simp [Decimal.number, Nat.ofDigitChars]
        rw [← single]
        exact Decimal.number_append [c] cs
      rw [List.map_cons, Radix.number_cons, ih others, split, List.length_map, digitOf]
      push_cast
      rfl

inductive LiteralSign
  | none
  | plus
  | minus
  deriving DecidableEq, Repr

namespace LiteralSign

def text : LiteralSign → List Char
  | none => []
  | plus => ['+']
  | minus => ['-']

def code : LiteralSign → Int
  | minus => numericNeg
  | _ => numericPos

end LiteralSign

theorem startsText {c : Char} (start : c.isDigit = true ∨ c = '-' ∨ c = '+') :
    isSpace c = false ∧ c.toLower ≠ 'n' := by
  rcases start with digit | rfl | rfl
  · rcases Decimal.isDigit_cases digit with rfl | rfl | rfl | rfl | rfl | rfl | rfl | rfl | rfl | rfl
    all_goals decide
  · decide
  · decide

def signText (negative : Bool) : List Char := if negative then ['-'] else []

def decimalText (negative : Bool) (whole fraction : List Char) : List Char :=
  signText negative ++ (whole ++ '.' :: fraction)

structure PlainDigits (whole fraction : List Char) : Prop where
  some : whole ≠ []
  whole : ∀ c ∈ whole, c.isDigit = true
  fraction : ∀ c ∈ fraction, c.isDigit = true

section Literals

variable {sign : LiteralSign} {whole tail fraction : List Char}

theorem literal_present (plain : PlainDigits whole fraction) (behind : Behind tail fraction) :
    ∀ c ∈ sign.text ++ (whole ++ tail), c.isDigit = true ∨ c = '-' ∨ c = '+' ∨ c = '.' := by
  intro c member
  rcases List.mem_append.mp member with own | rest
  · cases sign with
    | none => exact absurd own List.not_mem_nil
    | plus => exact Or.inr (Or.inr (Or.inl (List.mem_singleton.mp own)))
    | minus => exact Or.inr (Or.inl (List.mem_singleton.mp own))
  · rcases List.mem_append.mp rest with front | last
    · exact Or.inl (plain.whole c front)
    · rcases behind with ⟨rfl, _⟩ | rfl
      · exact absurd last List.not_mem_nil
      · rcases List.mem_cons.mp last with point | later
        · exact Or.inr (Or.inr (Or.inr point))
        · exact Or.inl (plain.fraction c later)

theorem cString_literal (plain : PlainDigits whole fraction) (behind : Behind tail fraction) :
    cString (sign.text ++ (whole ++ tail)) = sign.text ++ (whole ++ tail) := by
  refine List.takeWhile_eq_self_iff.mpr ?_
  intro c member
  rcases literal_present plain behind c member with digit | rfl | rfl | rfl
  · refine decide_eq_true ?_
    rintro rfl
    exact absurd digit (by decide)
  · decide
  · decide
  · decide

theorem literal_head (plain : PlainDigits whole fraction) :
    ∃ c rest, sign.text ++ (whole ++ tail) = c :: rest ∧ (c.isDigit = true ∨ c = '-' ∨ c = '+') := by
  obtain ⟨c, cs, rfl⟩ := List.exists_cons_of_ne_nil plain.some
  cases sign with
  | none => exact ⟨c, _, rfl, Or.inl (plain.whole c List.mem_cons_self)⟩
  | plus => exact ⟨'+', _, rfl, Or.inr (Or.inr rfl)⟩
  | minus => exact ⟨'-', _, rfl, Or.inr (Or.inl rfl)⟩

theorem scanSign_literal (plain : PlainDigits whole fraction) :
    scanSign (sign.text ++ (whole ++ tail)) = (sign.code, whole ++ tail) := by
  obtain ⟨c, cs, rfl⟩ := List.exists_cons_of_ne_nil plain.some
  cases sign with
  | none =>
      have digit := plain.whole c List.mem_cons_self
      rcases Decimal.isDigit_cases digit with rfl | rfl | rfl | rfl | rfl | rfl | rfl | rfl | rfl | rfl
      all_goals rfl
  | plus => rfl
  | minus => rfl

theorem setVarFromStr_literal (plain : PlainDigits whole fraction) (behind : Behind tail fraction) :
    ∃ digits, Radix.Digits nbase digits ∧
      setVarFromStr (sign.text ++ (whole ++ tail)) =
        some (stripVar { spare := 1, digits, weight := weightOf (-1 + whole.length),
                         sign := sign.code, dscale := fraction.length }, []) ∧
      Radix.magnitude nbase digits (weightOf (-1 + whole.length)) =
        Decimal.number (whole ++ fraction) / 10 ^ fraction.length := by
  have digits : ∀ c ∈ whole ++ fraction, c.isDigit = true :=
    List.forall_mem_append.mpr ⟨plain.whole, plain.fraction⟩
  have scanned := scanDigits_whole plain.whole plain.fraction behind (-1) 0
  obtain ⟨range, _⟩ := scanDigits_range scanned
  have magnitude := magnitude_packed ((whole ++ fraction).map digitOf) (-1 + whole.length)
  have places : (-1 : Int) + whole.length + 1 - ((whole ++ fraction).map digitOf).length =
      -(fraction.length : Int) := by
    rw [List.length_map, List.length_append]
    push_cast
    ring
  rw [number_digitOf digits, places, zpow_neg, zpow_natCast, ← div_eq_mul_inv] at magnitude
  refine ⟨_, packDigits_range _ ?_, ?_, magnitude.trans (by push_cast; rfl)⟩
  · intro digit member
    rcases List.mem_append.mp member with zero | own
    · rw [List.eq_of_mem_replicate zero]
      exact ⟨le_refl 0, by decide⟩
    · exact range digit own
  · obtain ⟨c, cs, split⟩ := List.exists_cons_of_ne_nil plain.some
    have first : c.isDigit = true := plain.whole c (by rw [split]; exact List.mem_cons_self)
    have noPoint : scanPoint (whole ++ tail) = (false, whole ++ tail) := by
      rw [split]
      rcases Decimal.isDigit_cases first with rfl | rfl | rfl | rfl | rfl | rfl | rfl | rfl | rfl | rfl
      all_goals rfl
    have head : (whole ++ tail).headD '\x00' = c := by rw [split]; rfl
    rw [setVarFromStr, scanSign_literal plain]
    dsimp only
    rw [noPoint]
    dsimp only
    rw [head, first, scanned]
    simp [bind, Option.bind, pure, scanExponent]

theorem ofText_literal (plain : PlainDigits whole fraction) (behind : Behind tail fraction) :
    (ofText (sign.text ++ (whole ++ tail))).Stripped ∧
      (ofText (sign.text ++ (whole ++ tail))).value =
        (if sign = .minus then -(Decimal.number (whole ++ fraction) / 10 ^ fraction.length : ℚ)
          else Decimal.number (whole ++ fraction) / 10 ^ fraction.length) ∧
      (ofText (sign.text ++ (whole ++ tail))).dscale = fraction.length := by
  obtain ⟨c, rest, head, start⟩ := @literal_head sign _ tail _ plain
  obtain ⟨notSpace, notNan⟩ := startsText start
  have skipped : (sign.text ++ (whole ++ tail)).dropWhile isSpace = sign.text ++ (whole ++ tail) := by
    rw [head, List.dropWhile_cons_of_neg (by simp [notSpace])]
  have number : startsNan (sign.text ++ (whole ++ tail)) = false := by
    rw [head]
    simp [startsNan, notNan]
  obtain ⟨digits, range, scanned, magnitude⟩ := @setVarFromStr_literal sign _ _ _ plain behind
  have valid : sign.code = numericPos ∨ sign.code = numericNeg := by
    cases sign with
    | none => exact Or.inl rfl
    | plus => exact Or.inl rfl
    | minus => exact Or.inr rfl
  have read : ofText (sign.text ++ (whole ++ tail)) =
      stripVar { spare := 1, digits, weight := weightOf (-1 + whole.length), sign := sign.code,
                 dscale := fraction.length } := by
    rw [ofText, cString_literal plain behind, skipped, if_neg (by simp [number]), scanned]
    rfl
  obtain ⟨stripped, value, scale⟩ := @stripVar_value
    { spare := 1, digits, weight := weightOf (-1 + whole.length), sign := sign.code,
      dscale := fraction.length }
    range _ valid (Or.inl rfl)
  rw [read]
  refine ⟨stripped, ?_, scale⟩
  rw [value, Numeric.magnitude, magnitude]
  cases sign with
  | none => rfl
  | plus => rfl
  | minus => rfl

end Literals

variable {negative : Bool} {whole fraction : List Char}

theorem ofText_decimalText (plain : PlainDigits whole fraction) :
    (ofText (decimalText negative whole fraction)).Stripped ∧
      (ofText (decimalText negative whole fraction)).value =
        (if negative then -(Decimal.number (whole ++ fraction) / 10 ^ fraction.length : ℚ)
          else Decimal.number (whole ++ fraction) / 10 ^ fraction.length) ∧
      (ofText (decimalText negative whole fraction)).dscale = fraction.length := by
  cases negative with
  | true => exact @ofText_literal .minus _ _ _ plain (Or.inr rfl)
  | false => exact @ofText_literal .none _ _ _ plain (Or.inr rfl)

end Reading

section Printing

theorem digitChar_eq {d : Nat} (small : d < 10) : digitChar d = Nat.digitChar d := by
  interval_cases d
  all_goals rfl

theorem fourDigits_eq {d : Nat} (small : d < 10000) : fourDigits d = Decimal.padded 4 d := by
  have thousands : (d : Int).tdiv 1000 = (d / 1000 : Nat) := by
    rw [Int.tdiv_eq_ediv_of_nonneg (by omega)]
    rfl
  have below : (d : Int) - (d / 1000 : Nat) * 1000 = (d % 1000 : Nat) := by omega
  have hundreds : ((d % 1000 : Nat) : Int).tdiv 100 = (d % 1000 / 100 : Nat) := by
    rw [Int.tdiv_eq_ediv_of_nonneg (by omega)]
    rfl
  have belowHundred : ((d % 1000 : Nat) : Int) - (d % 1000 / 100 : Nat) * 100 =
      (d % 1000 % 100 : Nat) := by omega
  have tens : ((d % 1000 % 100 : Nat) : Int).tdiv 10 = (d % 1000 % 100 / 10 : Nat) := by
    rw [Int.tdiv_eq_ediv_of_nonneg (by omega)]
    rfl
  have ones : ((d % 1000 % 100 : Nat) : Int) - (d % 1000 % 100 / 10 : Nat) * 10 =
      (d % 1000 % 100 % 10 : Nat) := by omega
  have first : d / 1000 = d / 10 / 10 / 10 % 10 := by omega
  have second : d % 1000 / 100 = d / 10 / 10 % 10 := by omega
  have third : d % 1000 % 100 / 10 = d / 10 % 10 := by omega
  have fourth : d % 1000 % 100 % 10 = d % 10 := by omega
  rw [fourDigits]
  simp only [thousands, below, hundreds, belowHundred, tens, ones]
  rw [first, second, third, fourth, digitChar_eq (by omega), digitChar_eq (by omega),
    digitChar_eq (by omega), digitChar_eq (by omega)]
  rfl

theorem flatMap_fourDigits {digits : List Int} (range : Radix.Digits nbase digits) :
    digits.flatMap fourDigits =
      Decimal.padded (4 * digits.length) (Radix.number nbase digits).toNat := by
  induction digits with
  | nil => rfl
  | cons d digits ih =>
      obtain ⟨own, others⟩ := Radix.digits_cons.mp range
      have base : nbase = 10000 := rfl
      obtain ⟨d, rfl⟩ := Int.eq_ofNat_of_zero_le own.1
      have low := Radix.number_nonneg nbase_pos others
      have high := Radix.number_lt nbase_pos others
      obtain ⟨rest, restEq⟩ := Int.eq_ofNat_of_zero_le low
      rw [restEq, nbase_pow] at high
      have fits : rest < 10 ^ (4 * digits.length) := by exact_mod_cast high
      have number : (Radix.number nbase (d :: digits)).toNat = d * 10 ^ (4 * digits.length) + rest := by
        rw [Radix.number_cons, restEq, nbase_pow]
        exact_mod_cast Int.toNat_natCast _
      have length : 4 * ((d : Int) :: digits).length = 4 + 4 * digits.length := by
        rw [List.length_cons]
        omega
      rw [List.flatMap_cons, ih others, number, length, Decimal.padded_append fits,
        fourDigits_eq (by omega), restEq, Int.toNat_natCast]

theorem firstDigits_eq {d : Nat} (small : d < 10000) : firstDigits d = Nat.toDigits 10 d := by
  have split : fourDigits d = Decimal.padded 3 (d / 10) ++ [Nat.digitChar (d % 10)] := by
    rw [fourDigits_eq small]
    rfl
  have front : (fourDigits d).take 3 = Decimal.padded 3 (d / 10) := by
    rw [split]
    exact List.take_left' (Decimal.length_padded _ _)
  have last : (fourDigits d).drop 3 = [Nat.digitChar (d % 10)] := by
    rw [split]
    exact List.drop_left' (Decimal.length_padded _ _)
  rw [firstDigits, front, last]
  change List.append _ _ = _
  rw [List.append_eq]
  by_cases short : d < 10
  · rw [Nat.div_eq_of_lt short, Decimal.padded_zero, List.dropWhile_replicate,
      Nat.mod_eq_of_lt short, Nat.toDigits_of_lt_base short]
    simp
  · rw [Decimal.dropWhile_padded (by omega) (by omega),
      Nat.toDigits_of_base_le (n := d) (by decide) (by omega)]

variable {x : Numeric}

theorem places_range (digits : Radix.Digits nbase x.digits) (start : Int) (n : Nat) :
    Radix.Digits nbase ((List.range n).map fun i : Nat => Radix.digitAt x.digits (start + i)) := by
  intro d member
  obtain ⟨i, _, same⟩ := List.mem_map.mp member
  rw [← same]
  exact Radix.digitAt_range nbase_pos digits _

theorem printed_places (digits : Radix.Digits nbase x.digits) (start : Int) (n : Nat) :
    ((List.range n).flatMap fun i : Nat => fourDigits (Radix.digitAt x.digits (start + i))) =
      Decimal.padded (4 * n)
        (⌊x.magnitude * (nbase : ℚ) ^ (start + n - x.weight - 1)⌋ % nbase ^ n).toNat := by
  have list := flatMap_fourDigits (places_range digits start n)
  rw [List.flatMap_map, List.length_map, List.length_range, Radix.number_places,
    Radix.window_floor nbase_pos digits x.weight] at list
  exact list

structure Placed (x : Numeric) (f N : Nat) : Prop where
  digits : Radix.Digits nbase x.digits
  scale : x.dscale = f
  places : x.magnitude * 10 ^ f = N

variable {f N : Nat}

theorem Placed.magnitude_eq (placed : Placed x f N) : x.magnitude = N / 10 ^ f :=
  eq_div_of_mul_eq (by positivity) placed.places

theorem fractionText_eq (placed : Placed x f N) :
    fractionText x.digits x.weight f = Decimal.padded f (N % 10 ^ f) := by
  obtain ⟨e, split⟩ : ∃ e, 4 * ((f + 3) / 4) = f + e := ⟨4 * ((f + 3) / 4) - f, by omega⟩
  have exponent : x.weight + 1 + ((f + 3) / 4 : Nat) - x.weight - 1 = ((f + 3) / 4 : Nat) := by ring
  have whole : x.magnitude * (nbase : ℚ) ^ (((f + 3) / 4 : Nat) : Int) = ((N * 10 ^ e : Nat) : Int) := by
    have power : (nbase : ℚ) ^ ((f + 3) / 4) = 10 ^ f * 10 ^ e := by
      rw [← pow_add, ← split]
      exact_mod_cast nbase_pow ((f + 3) / 4)
    rw [zpow_natCast, power, ← mul_assoc, placed.places]
    push_cast
    ring
  have remainder : (((N * 10 ^ e : Nat) : Int) % nbase ^ ((f + 3) / 4)).toNat =
      N % 10 ^ f * 10 ^ e := by
    rw [nbase_pow, split, pow_add]
    exact_mod_cast congrArg Int.toNat (congrArg Int.ofNat (Nat.mul_mod_mul_right (10 ^ e) N (10 ^ f)))
  rw [fractionText, printed_places placed.digits, exponent, whole, Int.floor_intCast, remainder,
    split, Decimal.take_padded, Nat.mul_div_cancel _ (Nat.pow_pos (by decide))]

theorem first_place (digits : Radix.Digits nbase x.digits) {w W : Nat} (weight : x.weight = w)
    (floor : ⌊x.magnitude⌋ = W) (fits : W < 10 ^ (4 * (w + 1))) :
    Radix.digitAt x.digits 0 = (W / 10 ^ (4 * w) : Nat) := by
  have whole (start : Int) (n : Nat) (exponent : start + n - x.weight - 1 = 0) :
      Radix.number nbase ((List.range n).map fun i : Nat => Radix.digitAt x.digits (start + i)) =
        (W % 10 ^ (4 * n) : Nat) := by
    rw [Radix.number_places, Radix.window_floor nbase_pos digits x.weight, exponent, zpow_zero,
      mul_one, nbase_pow]
    change ⌊x.magnitude⌋ % _ = _
    rw [floor]
    push_cast
    rfl
  have all := whole 0 (w + 1) (by push_cast; rw [weight]; ring)
  have rest := whole 1 w (by rw [weight]; ring)
  have shift : ((List.range w).map Nat.succ).map (fun i : Nat => Radix.digitAt x.digits (0 + i)) =
      (List.range w).map fun i : Nat => Radix.digitAt x.digits (1 + i) := by
    rw [List.map_map]
    refine List.map_congr_left fun i _ => ?_
    have index : (0 : Int) + (i.succ : Nat) = 1 + i := by
      push_cast
      ring
    simp only [Function.comp, index]
  rw [List.range_succ_eq_map, List.map_cons, shift, Radix.number_cons, rest, List.length_map,
    List.length_range, nbase_pow, Nat.mod_eq_of_lt fits] at all
  have parts := Nat.div_add_mod W (10 ^ (4 * w))
  have positive : (0 : Int) < 10 ^ (4 * w) := by positivity
  have same : Radix.digitAt x.digits 0 * 10 ^ (4 * w) =
      (W / 10 ^ (4 * w) : Nat) * 10 ^ (4 * w) := by
    have cast : ((10 ^ (4 * w) * (W / 10 ^ (4 * w)) + W % 10 ^ (4 * w) : Nat) : Int) = W := by
      exact_mod_cast parts
    push_cast at all cast ⊢
    linarith
  exact mul_right_cancel₀ positive.ne' same

theorem Placed.floor (placed : Placed x f N) : ⌊x.magnitude⌋ = (N / 10 ^ f : Nat) := by
  rw [placed.magnitude_eq]
  exact_mod_cast Rat.floor_natCast_div_natCast N (10 ^ f)

theorem Placed.magnitude_lt (placed : Placed x f N) :
    x.magnitude < ((nbase : Int) : ℚ) ^ (x.weight + 1) :=
  Radix.magnitude_lt nbase_pos placed.digits x.weight

theorem Placed.whole_below (placed : Placed x f N) (below : x.weight < 0) : N / 10 ^ f = 0 := by
  have one : (1 : ℚ) ≤ (nbase : ℚ) := by exact_mod_cast nbase_pos
  have power : ((nbase : Int) : ℚ) ^ (x.weight + 1) ≤ 1 := zpow_le_one_of_nonpos₀ one (by omega)
  have small : x.magnitude < 1 := lt_of_lt_of_le placed.magnitude_lt power
  have floor := placed.floor
  rw [Int.floor_eq_zero_iff.mpr ⟨magnitude_nonneg placed.digits, small⟩] at floor
  exact_mod_cast floor.symm

theorem wholeText_below (placed : Placed x f N) (below : x.weight < 0) :
    wholeText x.digits x.weight = Nat.toDigits 10 (N / 10 ^ f) := by
  rw [wholeText, if_pos below, placed.whole_below below]
  rfl

theorem printed_rest (placed : Placed x f N) {w : Nat} (weight : x.weight = w) :
    ((List.range w).flatMap fun d : Nat => fourDigits (Radix.digitAt x.digits (d + 1))) =
      Decimal.padded (4 * w) (N / 10 ^ f % 10 ^ (4 * w)) := by
  have printed := printed_places placed.digits 1 w
  have exponent : (1 : Int) + w - x.weight - 1 = 0 := by rw [weight]; ring
  have rest : ((⌊x.magnitude⌋ : Int) % nbase ^ w).toNat = N / 10 ^ f % 10 ^ (4 * w) := by
    rw [placed.floor, nbase_pow]
    exact_mod_cast Int.toNat_natCast _
  have shift : (fun d : Nat => fourDigits (Radix.digitAt x.digits (d + 1))) =
      fun i : Nat => fourDigits (Radix.digitAt x.digits (1 + i)) := by
    funext i
    rw [add_comm]
  rw [shift, printed, exponent, zpow_zero, mul_one, rest]

theorem wholeText_split (placed : Placed x f N) {w : Nat} (weight : x.weight = w) :
    Radix.digitAt x.digits 0 = (N / 10 ^ f / 10 ^ (4 * w) : Nat) ∧
      wholeText x.digits x.weight = Nat.toDigits 10 (N / 10 ^ f / 10 ^ (4 * w)) ++
        Decimal.padded (4 * w) (N / 10 ^ f % 10 ^ (4 * w)) := by
  have fits : N / 10 ^ f < 10 ^ (4 * (w + 1)) := by
    have bound : ⌊x.magnitude⌋ < nbase ^ (w + 1) := by
      have high := placed.magnitude_lt
      rw [weight] at high
      rw [Int.floor_lt]
      exact_mod_cast high
    rw [placed.floor, nbase_pow] at bound
    exact_mod_cast bound
  have first : Radix.digitAt x.digits 0 = (N / 10 ^ f / 10 ^ (4 * w) : Nat) :=
    first_place placed.digits weight placed.floor fits
  have small : N / 10 ^ f / 10 ^ (4 * w) < 10000 := by
    refine Nat.div_lt_of_lt_mul ?_
    rw [show 4 * (w + 1) = 4 * w + 4 by ring, pow_add] at fits
    exact fits
  refine ⟨first, ?_⟩
  rw [wholeText, if_neg (by omega), weight, Int.toNat_natCast, printed_rest placed weight, first,
    firstDigits_eq small]

theorem wholeText_eq (placed : Placed x f N) (trimmed : x.Trimmed) :
    wholeText x.digits x.weight = Nat.toDigits 10 (N / 10 ^ f) := by
  by_cases below : x.weight < 0
  · exact wholeText_below placed below
  · obtain ⟨w, weight⟩ : ∃ w : Nat, x.weight = w := ⟨x.weight.toNat, by omega⟩
    obtain ⟨first, whole⟩ := wholeText_split placed weight
    rw [whole]
    rcases Nat.eq_zero_or_pos w with none | some
    · rw [none]
      simp [Decimal.padded]
    · have leading : 0 < N / 10 ^ f / 10 ^ (4 * w) := by
        rcases split : x.digits with _ | ⟨d, digits⟩
        · have zero := trimmed.zero split
          omega
        · have head := trimmed.head_pos split
          have own : Radix.digitAt (d :: digits) 0 = d := by
            simp [Radix.digitAt]
          rw [split, own] at first
          omega
      have positive : 0 < 10 ^ (4 * w) := Nat.pow_pos (by decide)
      rw [← Decimal.toDigits_append leading (Nat.mod_lt _ positive), mul_comm, Nat.div_add_mod]

theorem wholeText_number (placed : Placed x f N) :
    wholeText x.digits x.weight ≠ [] ∧ (∀ c ∈ wholeText x.digits x.weight, c.isDigit = true) ∧
      Decimal.number (wholeText x.digits x.weight) = N / 10 ^ f := by
  by_cases below : x.weight < 0
  · rw [wholeText_below placed below]
    exact ⟨Nat.toDigits_ne_nil, fun c member =>
      Nat.isDigit_of_mem_toDigits (by decide) (by decide) member, Decimal.number_toDigits _⟩
  · obtain ⟨w, weight⟩ : ∃ w : Nat, x.weight = w := ⟨x.weight.toNat, by omega⟩
    rw [(wholeText_split placed weight).2]
    refine ⟨List.append_ne_nil_of_left_ne_nil Nat.toDigits_ne_nil _, ?_, ?_⟩
    · exact List.forall_mem_append.mpr ⟨fun c member =>
        Nat.isDigit_of_mem_toDigits (by decide) (by decide) member, Decimal.isDigit_padded⟩
    · rw [Decimal.number_append, Decimal.number_toDigits, Decimal.length_padded,
        Decimal.number_padded, Nat.mod_mod, mul_comm, Nat.div_add_mod]

def pointText : List Char → List Char
  | [] => []
  | c :: fraction => '.' :: c :: fraction

theorem behind_pointText (fraction : List Char) : Behind (pointText fraction) fraction := by
  cases fraction with
  | nil => exact Or.inl ⟨rfl, rfl⟩
  | cons c fraction => exact Or.inr rfl

theorem pointText_padded {g D : Nat} (some : 0 < g) :
    pointText (Decimal.padded g D) = '.' :: Decimal.padded g D := by
  obtain ⟨c, cs, split⟩ := List.exists_cons_of_ne_nil (List.ne_nil_of_length_pos
    (by rw [Decimal.length_padded]; exact some : 0 < (Decimal.padded g D).length))
  rw [split]
  rfl

theorem text_placed (placed : Placed x f N) :
    x.text = signText (x.sign = numericNeg) ++
      (wholeText x.digits x.weight ++ pointText (Decimal.padded f (N % 10 ^ f))) := by
  have point : (if x.dscale > 0 then '.' :: fractionText x.digits x.weight x.dscale.toNat else []) =
      pointText (Decimal.padded f (N % 10 ^ f)) := by
    rw [placed.scale, Int.toNat_natCast, fractionText_eq placed]
    rcases Nat.eq_zero_or_pos f with none | some
    · rw [none]
      rfl
    · rw [if_pos (by omega), pointText_padded some]
  rw [text, point, signText]
  simp

end Printing

section RoundTrip

variable {negative : Bool} {W g D : Nat}

theorem plainDigits (W g D : Nat) : PlainDigits (Nat.toDigits 10 W) (Decimal.padded g D) where
  some := Nat.toDigits_ne_nil
  whole _ member := Nat.isDigit_of_mem_toDigits (by decide) (by decide) member
  fraction := Decimal.isDigit_padded

theorem div_places (W g D : Nat) : ((W * 10 ^ g + D : Nat) : ℚ) / 10 ^ g = W + D / 10 ^ g := by
  have positive : (10 : ℚ) ^ g ≠ 0 := by positivity
  push_cast
  field_simp

theorem value_text (fits : D < 10 ^ g) :
    (ofText (decimalText negative (Nat.toDigits 10 W) (Decimal.padded g D))).value =
      if negative then -(W + D / 10 ^ g : ℚ) else W + D / 10 ^ g := by
  obtain ⟨_, value, _⟩ := @ofText_decimalText negative _ _ (plainDigits W g D)
  have number : Decimal.number (Nat.toDigits 10 W ++ Decimal.padded g D) = W * 10 ^ g + D := by
    rw [Decimal.number_append, Decimal.number_toDigits, Decimal.length_padded,
      Decimal.number_padded, Nat.mod_eq_of_lt fits]
  rw [value, number, Decimal.length_padded, div_places]

theorem isNan_text : (ofText (decimalText negative (Nat.toDigits 10 W)
    (Decimal.padded g D))).isNan = false := by
  obtain ⟨stripped, _, scale⟩ := @ofText_decimalText negative _ _ (plainDigits W g D)
  exact (stripped.finite (by rw [scale]; omega)).not_nan

theorem text_of_value {x : Numeric} (stripped : x.Stripped) (scale : x.dscale = g)
    (fits : D < 10 ^ g) (signed : negative = true → 0 < W * 10 ^ g + D)
    (value : x.value = if negative then -(W + D / 10 ^ g : ℚ) else W + D / 10 ^ g) :
    x.text = signText negative ++ (Nat.toDigits 10 W ++ pointText (Decimal.padded g D)) := by
  have power : (0 : ℚ) < 10 ^ g := by positivity
  have nonneg : (0 : ℚ) ≤ W + D / 10 ^ g := by positivity
  have sign : x.sign = numericNeg ↔ negative = true := by
    rw [stripped.wellFormed.sign_neg_iff, value]
    cases negative with
    | true =>
        have above : (0 : ℚ) < W + D / 10 ^ g := by
          rw [← div_places]
          exact div_pos (by exact_mod_cast signed rfl) power
        exact iff_of_true (neg_neg_of_pos above) rfl
    | false => exact iff_of_false (not_lt.mpr nonneg) Bool.false_ne_true
  have magnitude : x.magnitude = W + D / 10 ^ g := by
    have split : x.value = if x.sign = numericNeg then -x.magnitude else x.magnitude := rfl
    rw [value] at split
    cases negative with
    | true =>
        rw [if_pos (sign.mpr rfl), if_pos rfl] at split
        exact (neg_injective split).symm
    | false =>
        rw [if_neg (fun isNeg => absurd (sign.mp isNeg) Bool.false_ne_true),
          if_neg Bool.false_ne_true] at split
        exact split.symm
  have placed : Placed x g (W * 10 ^ g + D) := by
    refine ⟨stripped.digits, scale, ?_⟩
    rw [magnitude]
    push_cast
    field_simp
  have positive : 0 < 10 ^ g := Nat.pow_pos (by decide)
  have whole : (W * 10 ^ g + D) / 10 ^ g = W := by
    rw [Nat.mul_comm, Nat.mul_add_div positive, Nat.div_eq_of_lt fits, Nat.add_zero]
  have places : (W * 10 ^ g + D) % 10 ^ g = D := by
    rw [Nat.mul_comm, Nat.mul_add_mod, Nat.mod_eq_of_lt fits]
  have same : decide (x.sign = numericNeg) = negative := by
    rw [Bool.eq_iff_iff, decide_eq_true_iff]
    exact sign
  rw [text_placed placed, wholeText_eq placed (stripped.trimmed (by rw [scale]; omega)), whole,
    places, same]

theorem text_ofText (some : 0 < g) (fits : D < 10 ^ g)
    (signed : negative = true → 0 < W * 10 ^ g + D) :
    (ofText (decimalText negative (Nat.toDigits 10 W) (Decimal.padded g D))).text =
      decimalText negative (Nat.toDigits 10 W) (Decimal.padded g D) := by
  obtain ⟨stripped, _, scale⟩ := @ofText_decimalText negative _ _ (plainDigits W g D)
  rw [Decimal.length_padded] at scale
  rw [text_of_value stripped scale fits signed (value_text fits), pointText_padded some]
  rfl

end RoundTrip

end PqAsync
