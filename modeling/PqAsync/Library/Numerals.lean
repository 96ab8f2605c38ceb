import PqAsync.Library.Decimal
import Mathlib.Data.List.TakeWhile
import Mathlib.Data.Rat.Cast.Defs

/-!
Signed decimal numerals: how an integer is printed, and readers of integers, of decimal fractions
and of fields that end at a letter.
-/

namespace Numerals

def integer (x : Int) : List Char := (if x < 0 then ['-'] else []) ++ Nat.toDigits 10 x.natAbs

def readDigits (text : List Char) : Option Nat :=
  if text ≠ [] ∧ text.all Char.isDigit then some (Decimal.number text) else none

def readInteger : List Char → Option Int
  | '-' :: text => (readDigits text).map fun n : Nat => -(n : Int)
  | text => (readDigits text).map fun n : Nat => (n : Int)

def readUnsigned (text : List Char) : Option ℚ :=
  match text.dropWhile (· ≠ '.') with
  | [] => (readDigits text).map fun n : Nat => (n : ℚ)
  | _ :: fraction => do
      let whole ← readDigits (text.takeWhile (· ≠ '.'))
      let places ← readDigits fraction
      return whole + places / 10 ^ fraction.length

def readDecimal : List Char → Option ℚ
  | '-' :: text => (readUnsigned text).map fun x : ℚ => -x
  | text => readUnsigned text

def letter (c : Char) : List Char → Option (List Char)
  | [] => none
  | first :: rest => if first = c then some rest else none

/-- The text in front of the first such letter, and the text behind it. -/
def field (c : Char) (text : List Char) : Option (List Char × List Char) :=
  match text.dropWhile (· ≠ c) with
  | [] => none
  | _ :: rest => some (text.takeWhile (· ≠ c), rest)

def integerField (c : Char) (text : List Char) : Option (Int × List Char) := do
  let (digits, rest) ← field c text
  let x ← readInteger digits
  return (x, rest)

theorem letter_cons (c : Char) (rest : List Char) : letter c (c :: rest) = some rest :=
  if_pos rfl

theorem readDigits_toDigits (n : Nat) : readDigits (Nat.toDigits 10 n) = some n := by
  rw [readDigits, if_pos, Decimal.number_toDigits]
  refine ⟨Nat.toDigits_ne_nil, List.all_eq_true.mpr ?_⟩
  intro c member
  exact Nat.isDigit_of_mem_toDigits (by decide) (by decide) member

theorem toDigits_cons (n : Nat) : ∃ c rest, Nat.toDigits 10 n = c :: rest ∧ c.isDigit = true := by
  obtain ⟨c, rest, shape⟩ := List.exists_cons_of_ne_nil (@Nat.toDigits_ne_nil n 10)
  have member : c ∈ Nat.toDigits 10 n := by
    rw [shape]
    exact List.mem_cons_self
  exact ⟨c, rest, shape, Nat.isDigit_of_mem_toDigits (by decide) (by decide) member⟩

theorem mem_integer {x : Int} {c : Char} (member : c ∈ integer x) : c = '-' ∨ c.isDigit = true := by
  rcases List.mem_append.mp member with sign | digit
  · split at sign
    · exact Or.inl (List.mem_singleton.mp sign)
    · exact absurd sign List.not_mem_nil
  · exact Or.inr (Nat.isDigit_of_mem_toDigits (by decide) (by decide) digit)

theorem integer_neg {x : Int} (negative : x < 0) :
    integer x = '-' :: Nat.toDigits 10 x.natAbs := by
  rw [integer, if_pos negative, List.singleton_append]

theorem integer_nonneg {x : Int} (nonneg : 0 ≤ x) : integer x = Nat.toDigits 10 x.natAbs := by
  rw [integer, if_neg (not_lt.mpr nonneg), List.nil_append]

theorem readInteger_of_digit {c : Char} (digit : c.isDigit = true) (rest : List Char) :
    readInteger (c :: rest) = (readDigits (c :: rest)).map fun n : Nat => (n : Int) := by
  rw [readInteger]
  rintro text same
  cases same
  contradiction

theorem readDecimal_of_digit {c : Char} (digit : c.isDigit = true) (rest : List Char) :
    readDecimal (c :: rest) = readUnsigned (c :: rest) := by
  rw [readDecimal]
  rintro text same
  cases same
  contradiction

@[simp] theorem readInteger_integer (x : Int) : readInteger (integer x) = some x := by
  rcases lt_or_ge x 0 with negative | nonneg
  · rw [integer_neg negative, readInteger, readDigits_toDigits]
    simp only [Option.map_some, Option.some.injEq]
    omega
  · obtain ⟨c, rest, shape, digit⟩ := toDigits_cons x.natAbs
    rw [integer_nonneg nonneg, shape, readInteger_of_digit digit, ← shape, readDigits_toDigits]
    simp only [Option.map_some, Option.some.injEq]
    omega

theorem field_append {c : Char} {front : List Char} (apart : c ∉ front) (rest : List Char) :
    field c (front ++ c :: rest) = some (front, rest) := by
  have kept : ∀ other ∈ front, decide (other ≠ c) = true := by
    intro other member
    exact decide_eq_true fun same => apart (same ▸ member)
  rw [field, List.dropWhile_append_of_pos kept, List.takeWhile_append_of_pos kept,
    List.dropWhile_cons_of_neg (by simp), List.takeWhile_cons_of_neg (by simp), List.append_nil]

theorem integerField_append (c : Char) (other : c ≠ '-' ∧ c.isDigit = false) (x : Int)
    (rest : List Char) : integerField c (integer x ++ c :: rest) = some (x, rest) := by
  have apart : c ∉ integer x := by
    intro member
    rcases mem_integer member with sign | digit
    · exact other.1 sign
    · rw [other.2] at digit
      contradiction
  rw [integerField, field_append apart]
  simp

theorem digits_no_point (n : Nat) : ∀ c ∈ Nat.toDigits 10 n, decide (c ≠ '.') = true := by
  intro c member
  have digit := Nat.isDigit_of_mem_toDigits (by decide) (by decide) member
  refine decide_eq_true fun same => ?_
  rw [same] at digit
  contradiction

theorem readUnsigned_toDigits (n : Nat) : readUnsigned (Nat.toDigits 10 n) = some (n : ℚ) := by
  have whole : (Nat.toDigits 10 n).dropWhile (· ≠ '.') = [] :=
    List.dropWhile_eq_nil_iff.mpr (digits_no_point n)
  rw [readUnsigned, whole]
  simp only [readDigits_toDigits, Option.map_some]

theorem readUnsigned_point (n : Nat) (fraction : List Char) :
    readUnsigned (Nat.toDigits 10 n ++ '.' :: fraction) =
      (readDigits fraction).map fun places : Nat => (n : ℚ) + places / 10 ^ fraction.length := by
  rw [readUnsigned, List.dropWhile_append_of_pos (digits_no_point n),
    List.takeWhile_append_of_pos (digits_no_point n), List.dropWhile_cons_of_neg (by simp),
    List.takeWhile_cons_of_neg (by simp), List.append_nil]
  simp only [readDigits_toDigits]
  cases readDigits fraction with
  | none => rfl
  | some places => rfl

theorem readDigits_sign (text : List Char) : readDigits ('-' :: text) = none := by
  rw [readDigits, if_neg]
  rintro ⟨_, plain⟩
  have sign := List.all_eq_true.mp plain '-' List.mem_cons_self
  contradiction

@[simp] theorem readDecimal_integer (x : Int) : readDecimal (integer x) = some (x : ℚ) := by
  rcases lt_or_ge x 0 with negative | nonneg
  · rw [integer_neg negative, readDecimal, readUnsigned_toDigits, Option.map_some]
    have same : (x.natAbs : Int) = -x := by omega
    rw [← Int.cast_natCast, same, Int.cast_neg, neg_neg]
  · obtain ⟨c, rest, shape, digit⟩ := toDigits_cons x.natAbs
    rw [integer_nonneg nonneg, shape, readDecimal_of_digit digit, ← shape, readUnsigned_toDigits]
    have same : (x.natAbs : Int) = x := by omega
    rw [← Int.cast_natCast, same]

theorem readDecimal_point {x y : Int} (nonneg : 0 ≤ x) (places : 0 ≤ y) :
    readDecimal (integer x ++ '.' :: integer y) =
      some (x + y / 10 ^ (Nat.toDigits 10 y.natAbs).length : ℚ) := by
  obtain ⟨c, rest, shape, digit⟩ := toDigits_cons x.natAbs
  have whole : (x.natAbs : Int) = x := by omega
  have part : (y.natAbs : Int) = y := by omega
  rw [integer_nonneg nonneg, integer_nonneg places, shape, List.cons_append,
    readDecimal_of_digit digit, ← List.cons_append, ← shape, readUnsigned_point,
    readDigits_toDigits, Option.map_some, ← Int.cast_natCast, whole, ← Int.cast_natCast y.natAbs, part]

theorem readDecimal_signed {x y : Int} (negative : y < 0) :
    readDecimal (integer x ++ '.' :: integer y) = none := by
  have unread (n : Nat) : readUnsigned (Nat.toDigits 10 n ++ '.' :: integer y) = none := by
    rw [readUnsigned_point, integer_neg negative, readDigits_sign, Option.map_none]
  rcases lt_or_ge x 0 with sign | nonneg
  · rw [integer_neg sign, List.cons_append, readDecimal, unread, Option.map_none]
  · obtain ⟨c, rest, shape, digit⟩ := toDigits_cons x.natAbs
    rw [integer_nonneg nonneg, shape, List.cons_append, readDecimal_of_digit digit,
      ← List.cons_append, ← shape, unread]

end Numerals
