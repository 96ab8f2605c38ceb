import Mathlib.Data.Nat.Digits.Defs
import Mathlib.Tactic.Ring

/-!
Numbers as sequences of bytes of a fixed length, in both orders.
-/

namespace Bytes

def littleEndian : Nat → Nat → List UInt8
  | 0, _ => []
  | size + 1, x => UInt8.ofNat x :: littleEndian size (x / 256)

def bigEndian (size x : Nat) : List UInt8 := (littleEndian size x).reverse

def value (bytes : List UInt8) : Nat := Nat.ofDigits 256 (bytes.map UInt8.toNat)

@[simp] theorem length_littleEndian (size x : Nat) : (littleEndian size x).length = size := by
  induction size generalizing x with
  | zero => rfl
  | succ size ih => simp [littleEndian, ih]

@[simp] theorem length_bigEndian (size x : Nat) : (bigEndian size x).length = size := by
  simp [bigEndian]

theorem value_cons (byte : UInt8) (bytes : List UInt8) :
    value (byte :: bytes) = byte.toNat + 256 * value bytes := by
  simp [value, Nat.ofDigits_cons]

theorem value_littleEndian (size x : Nat) : value (littleEndian size x) = x % 256 ^ size := by
  induction size generalizing x with
  | zero => simp [littleEndian, value, Nat.mod_one]
  | succ size ih =>
      rw [littleEndian, value_cons, ih, pow_succ', Nat.mod_mul, UInt8.toNat_ofNat']

theorem littleEndian_append (low high a b : Nat) (bound : a < 256 ^ low) :
    littleEndian (low + high) (a + 256 ^ low * b) = littleEndian low a ++ littleEndian high b := by
  induction low generalizing a with
  | zero =>
      have zero : a = 0 := by simpa using bound
      simp [littleEndian, zero]
  | succ low ih =>
      have quotient : (a + 256 ^ (low + 1) * b) / 256 = a / 256 + 256 ^ low * b := by
        rw [Nat.pow_succ, show 256 ^ low * 256 * b = 256 * (256 ^ low * b) by ring,
          Nat.add_mul_div_left _ _ (by decide)]
      have digit : UInt8.ofNat (a + 256 ^ (low + 1) * b) = UInt8.ofNat a := by
        apply UInt8.toNat_inj.mp
        rw [UInt8.toNat_ofNat', UInt8.toNat_ofNat', Nat.pow_succ,
          show 256 ^ low * 256 * b = 256 * (256 ^ low * b) by ring]
        exact Nat.add_mul_mod_self_left _ _ _
      have smaller : a / 256 < 256 ^ low :=
        Nat.div_lt_of_lt_mul (by rw [Nat.pow_succ] at bound; omega)
      rw [Nat.add_right_comm, littleEndian, digit, quotient, ih (a / 256) smaller, littleEndian,
        List.cons_append]

theorem value_lt (bytes : List UInt8) : value bytes < 256 ^ bytes.length := by
  induction bytes with
  | nil => simp [value]
  | cons byte bytes ih =>
      have bound := byte.toNat_lt
      rw [value_cons, List.length_cons, Nat.pow_succ]
      omega

theorem littleEndian_value (bytes : List UInt8) :
    littleEndian bytes.length (value bytes) = bytes := by
  induction bytes with
  | nil => rfl
  | cons byte bytes ih =>
      have bound := byte.toNat_lt
      have quotient : (byte.toNat + 256 * value bytes) / 256 = value bytes := by omega
      have digit : UInt8.ofNat (byte.toNat + 256 * value bytes) = byte := by
        apply UInt8.toNat_inj.mp
        rw [UInt8.toNat_ofNat']
        omega
      rw [List.length_cons, value_cons, littleEndian, digit, quotient, ih]

theorem bigEndian_append (high low a b : Nat) (bound : b < 256 ^ low) :
    bigEndian (low + high) (b + 256 ^ low * a) = bigEndian high a ++ bigEndian low b := by
  simp [bigEndian, littleEndian_append low high b a bound]

end Bytes
