import PqAsync.MoneySums
import PqAsync.Library.Rounding

/-!
Money from the numbers of the language. A number stands for a rational; the conversion cuts it
before it is scaled, and the scale of an operator is that of the locale.
-/

namespace PqAsync.Money

open Rounding

inductive Number
  | int64 (n : BitVec 64)
  | int32 (n : BitVec 32)
  | float (n : ℚ)
  | double (n : ℚ)
  deriving DecidableEq

namespace Number

def value : Number → ℚ
  | int64 n => n.toInt
  | int32 n => n.toInt
  | float n => n
  | double n => n

/-- `(int64_t)b`, undefined for a number that is out of range. -/
def toInt64 : Number → Except WireError (BitVec 64)
  | int64 n => .ok n
  | int32 n => .ok (n.signExtend 64)
  | float n => checkedInt 64 (trunc n)
  | double n => checkedInt 64 (trunc n)

/-- The number with a significand of 24 binary digits that is nearest to `n`, and the even one
of two that are as near. -/
def nearestFloat (n : Nat) : Nat :=
  let ulp := 2 ^ (n.log2 - 23)
  if 2 * (n % ulp) < ulp ∨ 2 * (n % ulp) = ulp ∧ n / ulp % 2 = 0 then n / ulp * ulp
  else (n / ulp + 1) * ulp

/-- `std::pow((T)10, (T)frac_digits)`, held by the type of the number before it is an
`int64_t`. A `double` holds all powers that fit. -/
def pow : Number → Nat → Except WireError (BitVec 64)
  | int64 _, fracDigits => checkedInt 64 (10 ^ fracDigits)
  | int32 _, fracDigits => (checkedInt 32 (10 ^ fracDigits)).map (BitVec.signExtend 64)
  | float _, fracDigits => checkedInt 64 (nearestFloat (10 ^ fracDigits))
  | double _, fracDigits => checkedInt 64 (10 ^ fracDigits)

end Number

def valFromNum (b : Number) (fracDigits : Nat) : Except WireError (BitVec 64) := do
  let m ← b.pow fracDigits
  let whole ← b.toInt64
  checkedInt 64 (whole.toInt * m.toInt)

def fromNum (b : Number) (fracDigits : Nat) : Except WireError Money := do
  let val ← valFromNum b fracDigits
  return { val, fracDigits }

/-- The constructors from a number, with the fractional digits of the locale. -/
def ofNum (localeDigits : Nat) (b : Number) : Except WireError Money := do
  let val ← valFromNum b localeDigits
  return { val, fracDigits := localeDigits }

/-- Assignments of a number, after which the old number of fractional digits is lost. -/
def assignNum (localeDigits : Nat) (this : Money) (b : Number) : Except WireError Money := do
  let val ← valFromNum b localeDigits
  return { this with val, fracDigits := localeDigits }

/-- `m += b`, where a constructor converts the number. -/
def addAssignNum (localeDigits : Nat) (this : Money) (b : Number) : Except WireError Money := do
  let converted ← ofNum localeDigits b
  this.addAssign converted

/-- `m + b`. The operator of money on the converted number and the one of the numbers on the
converted money are equally good matches: the call is ambiguous, and no program has one. -/
def addNum : Option (Money → Number → Except WireError Money) := none

inductive Comparison
  | equal
  | notEqual
  | less
  | greater
  | lessEqual
  | greaterEqual

/-- `m == b` and the other comparisons, which are ambiguous in the same way. -/
def compareNum : Comparison → Option (Money → Number → Except WireError Bool) := fun _ => none

def stepBy (change : Int → Int → Int) (localeDigits : Nat) (this : Money) :
    Except WireError Money := do
  let one ← valFromNum (.int64 1) localeDigits
  let val ← checkedInt 64 (change this.val.toInt one.toInt)
  return { this with val }

def increment (localeDigits : Nat) (this : Money) : Except WireError Money :=
  stepBy (· + ·) localeDigits this

def decrement (localeDigits : Nat) (this : Money) : Except WireError Money :=
  stepBy (· - ·) localeDigits this

/-- The postfix forms return the old value with the new one. -/
def postIncrement (localeDigits : Nat) (this : Money) : Except WireError (Money × Money) := do
  let t := this
  let this ← this.increment localeDigits
  return (t, this)

def postDecrement (localeDigits : Nat) (this : Money) : Except WireError (Money × Money) := do
  let t := this
  let this ← this.decrement localeDigits
  return (t, this)

namespace Number

def digitsLimit : Number → Nat
  | int32 _ => 9
  | _ => 18

def whole (b : Number) : Int := trunc b.value

def power : Number → Nat → Int
  | float _, digits => nearestFloat (10 ^ digits)
  | _, digits => 10 ^ digits

def Converts (b : Number) (digits : Nat) : Prop :=
  digits ≤ b.digitsLimit ∧ FitsInt64 (b.whole * b.power digits)

def fraction (b : Number) : ℚ := b.value - b.whole

/-- How far the power that the type holds is from the power of ten, in parts of that. -/
def excess (b : Number) (digits : Nat) : ℚ := b.power digits / 10 ^ digits - 1

def scaled (b : Number) (digits : Nat) : ℚ := b.whole * (b.power digits / 10 ^ digits)

theorem nearestFloat_large {n : Nat} (large : 10 ^ 19 ≤ n) : 2 ^ 63 ≤ nearestFloat n := by
  have positive : n ≠ 0 := by omega
  obtain ⟨ulp, ulpEq⟩ : ∃ ulp, ulp = 2 ^ (n.log2 - 23) := ⟨_, rfl⟩
  have fine : ulp * 2 ^ 23 ≤ n := by
    have log : 23 ≤ n.log2 := (Nat.le_log2 positive).mpr (by omega)
    rw [ulpEq, ← pow_add, Nat.sub_add_cancel log]
    exact Nat.log2_self_le positive
  have near : n / ulp * ulp ≤ nearestFloat n := by
    rw [nearestFloat, ← ulpEq]
    split
    · exact le_rfl
    · exact Nat.mul_le_mul_right ulp (Nat.le_succ _)
  have split : ulp * (n / ulp) + n % ulp = n := Nat.div_add_mod n ulp
  have rest : n % ulp < ulp := Nat.mod_lt n (ulpEq ▸ Nat.two_pow_pos _)
  rw [Nat.mul_comm] at split
  omega

theorem nearestFloat_fits {digits : Nat} :
    FitsInt64 (nearestFloat (10 ^ digits)) ↔ digits ≤ 18 := by
  constructor
  · rintro ⟨_, below⟩
    by_contra more
    have large : 10 ^ 19 ≤ 10 ^ digits := Nat.pow_le_pow_right (by decide) (by omega)
    have above := nearestFloat_large large
    omega
  · have each : ∀ digits ≤ 18, FitsInt64 (nearestFloat (10 ^ digits)) := by decide +kernel
    exact each digits

theorem power_exact {b : Number} {digits : Nat} (small : (∃ n, b = float n) → digits ≤ 10) :
    b.power digits = 10 ^ digits := by
  cases b with
  | float n =>
      have each : ∀ digits ≤ 10, (nearestFloat (10 ^ digits) : Int) = 10 ^ digits := by
        decide +kernel
      exact each digits (small ⟨n, rfl⟩)
  | int64 n | int32 n | double n => rfl

theorem excess_of_power {b : Number} {digits : Nat} (held : b.power digits = 10 ^ digits) :
    b.excess digits = 0 := by
  rw [excess, held]
  push_cast
  field_simp
  ring

theorem value_sub_scaled (b : Number) (digits : Nat) :
    b.value - b.scaled digits = b.fraction - b.whole * b.excess digits := by
  rw [fraction, scaled, excess]
  ring

theorem toInt64_ok {b : Number} {n : BitVec 64} :
    b.toInt64 = .ok n ↔ FitsInt64 b.whole ∧ n.toInt = b.whole := by
  cases b with
  | int64 m =>
      rw [toInt64, whole, value, trunc_intCast, Except.ok.injEq, ← BitVec.toInt_inj]
      exact ⟨fun same => ⟨fitsInt64_toInt m, same.symm⟩, fun same => same.2.symm⟩
  | int32 m =>
      have extended : (m.signExtend 64).toInt = m.toInt :=
        BitVec.toInt_signExtend_of_le (by decide)
      have fits := fitsInt64_toInt (m.signExtend 64)
      rw [toInt64, whole, value, trunc_intCast, Except.ok.injEq, ← BitVec.toInt_inj, extended]
      rw [extended] at fits
      exact ⟨fun same => ⟨fits, same.symm⟩, fun same => same.2.symm⟩
  | float q => exact checkedInt_ok
  | double q => exact checkedInt_ok

theorem pow_int32_ok {digits : Nat} {m : BitVec 64} :
    (checkedInt 32 (10 ^ digits)).map (BitVec.signExtend 64) = .ok m ↔
      digits ≤ 9 ∧ m.toInt = 10 ^ digits := by
  have grows {x y : Nat} (more : x ≤ y) : (10 : Int) ^ x ≤ 10 ^ y :=
    pow_le_pow_right₀ (by decide) more
  have positive := pow_pos digits
  rw [checkedInt]
  by_cases small : digits ≤ 9
  · have below := grows small
    have held : (BitVec.ofInt 32 (10 ^ digits)).toInt = 10 ^ digits := by
      rw [BitVec.toInt_ofInt, Int.bmod_eq_of_le]
      · omega
      · omega
    rw [if_pos ⟨by omega, by omega⟩, Results.map_ok]
    constructor
    · rintro ⟨n, same, rfl⟩
      cases same
      rw [BitVec.toInt_signExtend_of_le (by decide), held]
      exact ⟨small, rfl⟩
    · rintro ⟨_, same⟩
      refine ⟨_, rfl, BitVec.toInt_inj.mp ?_⟩
      rw [BitVec.toInt_signExtend_of_le (by decide), held, same]
  · have above := grows (show 10 ≤ digits by omega)
    rw [if_neg (by omega)]
    constructor
    · rintro ⟨⟩
    · rintro ⟨contra, _⟩
      exact absurd contra small

theorem pow_ok {b : Number} {digits : Nat} {m : BitVec 64} :
    b.pow digits = .ok m ↔ digits ≤ b.digitsLimit ∧ m.toInt = b.power digits := by
  cases b with
  | int64 n => exact getPow_ok
  | int32 n =>
      have held : (int32 n).pow digits =
        (checkedInt 32 (10 ^ digits)).map (BitVec.signExtend 64) := rfl
      rw [held, pow_int32_ok]
      rfl
  | float n =>
      rw [pow, checkedInt_ok, nearestFloat_fits]
      rfl
  | double n => exact getPow_ok

theorem power_fits {b : Number} {digits : Nat} (small : digits ≤ b.digitsLimit) :
    FitsInt64 (b.power digits) := by
  cases b with
  | int64 n => exact fits_pow.mpr small
  | int32 n =>
      have few : digits ≤ 9 := small
      exact fits_pow.mpr (few.trans (by decide))
  | float n => exact nearestFloat_fits.mpr small
  | double n => exact fits_pow.mpr small

theorem power_pos {b : Number} {digits : Nat} (small : digits ≤ b.digitsLimit) :
    0 < b.power digits := by
  cases b with
  | int64 n | int32 n | double n => exact pow_pos digits
  | float n =>
      have each : ∀ digits ≤ 18, 0 < nearestFloat (10 ^ digits) := by decide +kernel
      exact Int.natCast_pos.mpr (each digits small)

end Number

theorem valFromNum_ok {b : Number} {digits : Nat} {val : BitVec 64} :
    valFromNum b digits = .ok val ↔
      b.Converts digits ∧ val.toInt = b.whole * b.power digits := by
  rw [valFromNum, Results.bind_ok]
  constructor
  · rintro ⟨m, powDone, rest⟩
    obtain ⟨whole, wholeDone, valDone⟩ := Results.bind_ok.mp rest
    obtain ⟨small, powIs⟩ := Number.pow_ok.mp powDone
    obtain ⟨_, wholeIs⟩ := Number.toInt64_ok.mp wholeDone
    rw [wholeIs, powIs] at valDone
    obtain ⟨fits, valIs⟩ := checkedInt_ok.mp valDone
    exact ⟨⟨small, fits⟩, valIs⟩
  · rintro ⟨⟨small, fits⟩, valIs⟩
    have range := fits_of_mul (Number.power_pos small) fits
    obtain ⟨m, powIs⟩ := exists_toInt (Number.power_fits small)
    obtain ⟨whole, wholeIs⟩ := exists_toInt range
    refine ⟨m, Number.pow_ok.mpr ⟨small, powIs⟩, Results.bind_ok.mpr ⟨whole,
      Number.toInt64_ok.mpr ⟨range, wholeIs⟩, ?_⟩⟩
    rw [wholeIs, powIs]
    exact checkedInt_ok.mpr ⟨fits, valIs⟩

theorem fromNum_ok {b : Number} {digits : Nat} {r : Money} :
    fromNum b digits = .ok r ↔
      b.Converts digits ∧ r.val.toInt = b.whole * b.power digits ∧ r.fracDigits = digits := by
  rw [fromNum, Results.bind_ok]
  constructor
  · rintro ⟨val, valDone, same⟩
    cases same
    obtain ⟨converts, valIs⟩ := valFromNum_ok.mp valDone
    exact ⟨converts, valIs, rfl⟩
  · rintro ⟨converts, valIs, digitsAre⟩
    refine ⟨r.val, valFromNum_ok.mpr ⟨converts, valIs⟩, ?_⟩
    rw [← digitsAre]
    rfl

theorem fromNum_amount {b : Number} {digits : Nat} {r : Money} (done : fromNum b digits = .ok r) :
    r.amount = b.scaled digits := by
  obtain ⟨_, valIs, digitsAre⟩ := fromNum_ok.mp done
  rw [amount, valIs, digitsAre, Number.scaled]
  push_cast
  ring

/-- The money is made, with exactly the amount of the number. -/
def Builds (b : Number) (result : Except WireError Money) : Prop :=
  ∃ r, result = .ok r ∧ r.amount = b.value

theorem builds_iff (b : Number) (digits : Nat) :
    Builds b (fromNum b digits) ↔
      b.Converts digits ∧ b.fraction = b.whole * b.excess digits := by
  have kept : b.fraction = b.whole * b.excess digits ↔ b.scaled digits = b.value := by
    rw [← sub_eq_zero, ← Number.value_sub_scaled, sub_eq_zero, eq_comm]
  rw [kept]
  constructor
  · rintro ⟨r, done, amountIs⟩
    rw [fromNum_amount done] at amountIs
    exact ⟨(fromNum_ok.mp done).1, amountIs⟩
  · rintro ⟨converts, scaledIs⟩
    obtain ⟨val, valIs⟩ := exists_toInt converts.2
    have done : fromNum b digits = .ok ⟨val, digits⟩ := fromNum_ok.mpr ⟨converts, valIs, rfl⟩
    exact ⟨_, done, (fromNum_amount done).trans scaledIs⟩

end PqAsync.Money
