import Mathlib.Data.Char
import Mathlib.Data.List.Induction
import Mathlib.Data.List.Lex
import Mathlib.Tactic.IntervalCases
import Mathlib.Tactic.Ring

/-!
Decimal texts of natural numbers, with and without zeros in front.
-/

namespace Decimal

/-- The last `k` decimal digits of a number. -/
def padded : Nat → Nat → List Char
  | 0, _ => []
  | k + 1, n => padded k (n / 10) ++ [Nat.digitChar (n % 10)]

def number (digits : List Char) : Nat := Nat.ofDigitChars 10 digits 0

@[simp] theorem length_padded (k n : Nat) : (padded k n).length = k := by
  induction k generalizing n with
  | zero => rfl
  | succ k ih => simp [padded, ih]

theorem padded_add (j k n : Nat) : padded (j + k) n = padded j (n / 10 ^ k) ++ padded k n := by
  induction k generalizing n with
  | zero => simp [padded]
  | succ k ih =>
      rw [← Nat.add_assoc, padded, ih, padded, List.append_assoc, Nat.div_div_eq_div_mul,
        Nat.pow_succ']

theorem padded_mod (k n : Nat) : padded k (n % 10 ^ k) = padded k n := by
  induction k generalizing n with
  | zero => rfl
  | succ k ih =>
      have quotient : n % 10 ^ (k + 1) / 10 = n / 10 % 10 ^ k := by
        rw [Nat.pow_succ', Nat.mod_mul_right_div_self]
      have last : n % 10 ^ (k + 1) % 10 = n % 10 :=
        Nat.mod_mod_of_dvd n (Dvd.intro_left (10 ^ k) rfl)
      rw [padded, padded, quotient, last, ih]

theorem padded_zero (k : Nat) : padded k 0 = List.replicate k '0' := by
  induction k with
  | zero => rfl
  | succ k ih =>
      rw [padded, Nat.zero_div, ih, List.replicate_succ']
      rfl

theorem padded_append {a b j k : Nat} (fits : b < 10 ^ k) :
    padded (j + k) (a * 10 ^ k + b) = padded j a ++ padded k b := by
  have positive : 0 < 10 ^ k := Nat.pow_pos (by decide)
  have quotient : (a * 10 ^ k + b) / 10 ^ k = a := by
    rw [Nat.mul_comm, Nat.mul_add_div positive, Nat.div_eq_of_lt fits, Nat.add_zero]
  have remainder : (a * 10 ^ k + b) % 10 ^ k = b := by
    rw [Nat.mul_comm, Nat.mul_add_mod, Nat.mod_eq_of_lt fits]
  rw [padded_add, quotient, ← padded_mod k (a * 10 ^ k + b), remainder]

theorem take_padded (j k n : Nat) : (padded (j + k) n).take j = padded j (n / 10 ^ k) := by
  rw [padded_add]
  exact List.take_left' (length_padded j _)

theorem isDigit_padded {k n : Nat} : ∀ c ∈ padded k n, c.isDigit = true := by
  induction k generalizing n with
  | zero => exact List.forall_mem_nil _
  | succ k ih =>
      intro c member
      rcases List.mem_append.mp member with front | last
      · exact ih c front
      · rw [List.mem_singleton.mp last, Nat.isDigit_digitChar]
        exact decide_eq_true (Nat.mod_lt n (by decide))

theorem number_append (front back : List Char) :
    number (front ++ back) = number front * 10 ^ back.length + number back := by
  rw [number, Nat.ofDigitChars_append, Nat.ofDigitChars_eq_ofDigitChars_zero, number, number,
    Nat.mul_comm]

theorem number_padded (k n : Nat) : number (padded k n) = n % 10 ^ k := by
  induction k generalizing n with
  | zero => simp [padded, number, Nat.mod_one]
  | succ k ih =>
      have small : n % 10 < 10 := Nat.mod_lt n (by decide)
      have last : number [Nat.digitChar (n % 10)] = n % 10 := by
        rw [number, Nat.ofDigitChars_cons_digitChar_of_lt_ten small]
        simp
      rw [padded, number_append, ih, last, List.length_singleton, pow_one, Nat.pow_succ', Nat.mod_mul]
      ring

theorem number_singleton (c : Char) : number [c] = c.toNat - '0'.toNat := by
  simp [number, Nat.ofDigitChars]

theorem isDigit_cases {c : Char} (digit : c.isDigit = true) :
    c = '0' ∨ c = '1' ∨ c = '2' ∨ c = '3' ∨ c = '4' ∨ c = '5' ∨ c = '6' ∨ c = '7' ∨ c = '8' ∨
      c = '9' := by
  have bounds : '0'.toNat ≤ c.toNat ∧ c.toNat ≤ '9'.toNat := by
    simpa [Char.isDigit, UInt32.le_iff_toNat_le] using digit
  have own : Char.ofNat c.toNat = c := Char.ofNat_toNat c
  generalize c.toNat = n at bounds own
  obtain ⟨low, high⟩ := bounds
  change 48 ≤ n at low
  change n ≤ 57 at high
  interval_cases n
  all_goals
    rw [← own]
    decide

theorem digitChar_number {c : Char} (digit : c.isDigit = true) :
    number [c] < 10 ∧ Nat.digitChar (number [c]) = c := by
  rw [number_singleton]
  rcases isDigit_cases digit with rfl | rfl | rfl | rfl | rfl | rfl | rfl | rfl | rfl | rfl
  all_goals decide

theorem padded_number {digits : List Char} (plain : ∀ c ∈ digits, c.isDigit = true) :
    padded digits.length (number digits) = digits := by
  induction digits using List.reverseRecOn with
  | nil => rfl
  | append_singleton digits c ih =>
      obtain ⟨front, last⟩ := List.forall_mem_append.mp plain
      obtain ⟨small, same⟩ := digitChar_number (last c (List.mem_singleton_self c))
      have value : number (digits ++ [c]) = number digits * 10 + number [c] := by
        rw [number_append, List.length_singleton, pow_one]
      have quotient : number (digits ++ [c]) / 10 = number digits := by omega
      have remainder : number (digits ++ [c]) % 10 = number [c] := by omega
      rw [List.length_append, List.length_singleton, padded, quotient, remainder, ih front, same]

theorem number_eq_zero {digits : List Char} (plain : ∀ c ∈ digits, c.isDigit = true) :
    number digits = 0 ↔ ∀ c ∈ digits, c = '0' := by
  constructor
  · intro zero
    have same := padded_number plain
    rw [zero, padded_zero] at same
    rw [← same]
    exact fun c member => List.eq_of_mem_replicate member
  · intro zeros
    rw [List.eq_replicate_of_mem zeros, ← padded_zero, number_padded, Nat.zero_mod]

@[simp] theorem number_toDigits (n : Nat) : number (Nat.toDigits 10 n) = n :=
  Nat.ofDigitChars_ten_toDigits

theorem toDigits_append {a b k : Nat} (positive : 0 < a) (fits : b < 10 ^ k) :
    Nat.toDigits 10 (a * 10 ^ k + b) = Nat.toDigits 10 a ++ padded k b := by
  induction k generalizing b with
  | zero =>
      have none : b = 0 := by simpa using fits
      simp [none, padded]
  | succ k ih =>
      have split : a * 10 ^ (k + 1) + b = 10 * (a * 10 ^ k + b / 10) + b % 10 := by
        rw [Nat.pow_succ]
        have parts := Nat.div_add_mod b 10
        rw [Nat.mul_add]
        have shift : a * (10 ^ k * 10) = 10 * (a * 10 ^ k) := by ring
        omega
      have small : b / 10 < 10 ^ k := Nat.div_lt_of_lt_mul (by rw [Nat.pow_succ'] at fits; exact fits)
      have above : 0 < a * 10 ^ k + b / 10 :=
        Nat.add_pos_left (Nat.mul_pos positive (Nat.pow_pos (by decide))) _
      rw [split, ← Nat.toDigits_append_toDigits (by decide) above (Nat.mod_lt b (by decide)),
        ih small, Nat.toDigits_of_lt_base (Nat.mod_lt b (by decide)), padded, List.append_assoc]

theorem dropWhile_padded {k n : Nat} (positive : 0 < n) (fits : n < 10 ^ k) :
    (padded k n).dropWhile (· = '0') = Nat.toDigits 10 n := by
  induction k generalizing n with
  | zero =>
      have none : n = 0 := by simpa using fits
      exact absurd none positive.ne'
  | succ k ih =>
      rw [padded, List.dropWhile_append]
      by_cases short : n < 10
      · have none : n / 10 = 0 := Nat.div_eq_of_lt short
        have other : ¬Nat.digitChar n = '0' := by
          rw [Nat.digitChar_eq_zero]
          exact positive.ne'
        rw [none, padded_zero, Nat.mod_eq_of_lt short, Nat.toDigits_of_lt_base short,
          List.dropWhile_replicate]
        simp [other]
      · have small : n / 10 < 10 ^ k :=
          Nat.div_lt_of_lt_mul (by rw [Nat.pow_succ'] at fits; exact fits)
        rw [ih (by omega) small, Nat.toDigits_of_base_le (n := n) (by decide) (by omega)]
        simp

theorem replicate_toDigits {k n : Nat} (some : 0 < k) (fits : n < 10 ^ k) :
    List.replicate (k - (Nat.toDigits 10 n).length) '0' ++ Nat.toDigits 10 n = padded k n := by
  obtain ⟨k, rfl⟩ := Nat.exists_eq_succ_of_ne_zero some.ne'
  clear some
  induction k generalizing n with
  | zero =>
      have small : n < 10 := by simpa using fits
      rw [Nat.toDigits_of_lt_base small]
      simp [padded, Nat.mod_eq_of_lt small]
  | succ k ih =>
      by_cases short : n < 10
      · have none : n / 10 = 0 := Nat.div_eq_of_lt short
        rw [Nat.toDigits_of_lt_base short, padded, none, padded_zero, Nat.mod_eq_of_lt short]
        rfl
      · have small : n / 10 < 10 ^ (k + 1) :=
          Nat.div_lt_of_lt_mul (by rw [Nat.pow_succ'] at fits; exact fits)
        rw [padded, ← ih small, Nat.toDigits_of_base_le (n := n) (by decide) (by omega),
          List.length_append, List.length_singleton, List.append_assoc]
        congr 2
        omega

end Decimal
