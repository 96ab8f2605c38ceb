import PqAsync.MoneyCore
import PqAsync.CheckedInt
import PqAsync.Library.Results
import Mathlib.Algebra.Order.Field.Rat
import Mathlib.Algebra.Order.Field.Basic
import Mathlib.Tactic.Linarith
import Mathlib.Tactic.FieldSimp
import Mathlib.Tactic.NormNum
import Mathlib.Tactic.Positivity

/-!
What an amount of money denotes, and what a change of its number of fractional digits does
to it.
-/

namespace PqAsync

namespace Money

def amount (m : Money) : ℚ := m.val.toInt / 10 ^ m.fracDigits

theorem pow_pos (n : Nat) : (0 : Int) < 10 ^ n := Int.pow_pos (by decide)

theorem fits_pow {n : Nat} : FitsInt64 (10 ^ n) ↔ n ≤ 18 := by
  constructor
  · rintro ⟨_, high⟩
    by_contra large
    have grown : (10 : Int) ^ 19 ≤ 10 ^ n := pow_le_pow_right₀ (by decide) (by omega)
    omega
  · intro small
    have grown : (10 : Int) ^ n ≤ 10 ^ 18 := pow_le_pow_right₀ (by decide) small
    have positive := pow_pos n
    constructor
    · omega
    · omega

theorem getPow_ok {n : Nat} {m : BitVec 64} :
    getPow n = .ok m ↔ n ≤ 18 ∧ m.toInt = 10 ^ n := by
  rw [getPow, checkedInt_ok, fits_pow]

theorem exists_getPow {n : Nat} (small : n ≤ 18) : ∃ m, getPow n = .ok m ∧ m.toInt = 10 ^ n := by
  obtain ⟨m, is⟩ := exists_toInt (fits_pow.mpr small)
  exact ⟨m, getPow_ok.mpr ⟨small, is⟩, is⟩

theorem fits_of_mul {x factor : Int} (positive : 0 < factor) (fits : FitsInt64 (x * factor)) :
    FitsInt64 x := by
  have cut := fits_tdiv fits positive
  rwa [Int.mul_tdiv_cancel _ positive.ne'] at cut

theorem fits_of_scaled {x : Int} {digits : Nat} (fits : FitsInt64 (x * 10 ^ digits)) :
    FitsInt64 x := fits_of_mul (pow_pos digits) fits

@[simp] theorem toFracDigits_same (m : Money) : m.toFracDigits m.fracDigits = .ok m := by
  rw [toFracDigits, if_pos rfl]

theorem changed_ok {power : Except WireError (BitVec 64)} {n : Nat}
    (powers : ∀ {m}, power = .ok m ↔ n ≤ 18 ∧ m.toInt = 10 ^ n) (change : Int → Int) {digits : Nat}
    {r : Money} :
    (do
      let m ← power
      let val ← checkedInt 64 (change m.toInt)
      return ({ val, fracDigits := digits } : Money)) = .ok r ↔
      n ≤ 18 ∧ FitsInt64 (change (10 ^ n)) ∧ r.val.toInt = change (10 ^ n) ∧ r.fracDigits = digits := by
  rw [Results.bind_ok]
  constructor
  · rintro ⟨pow, powDone, rest⟩
    obtain ⟨val, valDone, same⟩ := Results.bind_ok.mp rest
    cases same
    obtain ⟨small, powIs⟩ := powers.mp powDone
    obtain ⟨fits, valIs⟩ := checkedInt_ok.mp valDone
    rw [powIs] at fits valIs
    exact ⟨small, fits, valIs, rfl⟩
  · rintro ⟨small, fits, valIs, digitsAre⟩
    obtain ⟨pow, powIs⟩ := exists_toInt (fits_pow.mpr small)
    refine ⟨pow, powers.mpr ⟨small, powIs⟩, Results.bind_ok.mpr ⟨r.val, ?_, ?_⟩⟩
    · rw [powIs]
      exact checkedInt_ok.mpr ⟨fits, valIs⟩
    · rw [← digitsAre]
      rfl

theorem toFracDigits_up {m r : Money} {digits : Nat} (more : m.fracDigits < digits) :
    m.toFracDigits digits = .ok r ↔
      digits - m.fracDigits ≤ 18 ∧ FitsInt64 (m.val.toInt * 10 ^ (digits - m.fracDigits)) ∧
        r.val.toInt = m.val.toInt * 10 ^ (digits - m.fracDigits) ∧ r.fracDigits = digits := by
  rw [toFracDigits, if_neg (by omega), if_pos more]
  exact changed_ok getPow_ok (m.val.toInt * ·)

theorem toFracDigits_down {m r : Money} {digits : Nat} (fewer : digits < m.fracDigits) :
    m.toFracDigits digits = .ok r ↔
      m.fracDigits - digits ≤ 18 ∧
        r.val.toInt = m.val.toInt.tdiv (10 ^ (m.fracDigits - digits)) ∧ r.fracDigits = digits := by
  have fits := fits_tdiv (fitsInt64_toInt m.val) (pow_pos (m.fracDigits - digits))
  rw [toFracDigits, if_neg (by omega), if_neg (by omega)]
  refine (changed_ok getPow_ok m.val.toInt.tdiv).trans ?_
  exact and_congr_right fun _ => and_iff_right fits

def atScale (m : Money) (digits : Nat) : Int := m.val.toInt * 10 ^ (digits - m.fracDigits)

theorem atScale_self (m : Money) : m.atScale m.fracDigits = m.val.toInt := by
  rw [atScale, Nat.sub_self, pow_zero, mul_one]

theorem amount_at {m : Money} {digits : Nat} (more : m.fracDigits ≤ digits) :
    m.amount = m.atScale digits / 10 ^ digits := by
  obtain ⟨extra, rfl⟩ := Nat.exists_eq_add_of_le more
  rw [amount, atScale, Nat.add_sub_cancel_left, pow_add]
  push_cast
  field_simp

section

variable {a b : Money} {digits : Nat} (moreA : a.fracDigits ≤ digits)
  (moreB : b.fracDigits ≤ digits)

include moreA moreB

theorem amount_lt_iff : a.amount < b.amount ↔ a.atScale digits < b.atScale digits := by
  rw [amount_at moreA, amount_at moreB, div_lt_div_iff_of_pos_right (by positivity)]
  exact Int.cast_lt

theorem amount_le_iff : a.amount ≤ b.amount ↔ a.atScale digits ≤ b.atScale digits := by
  rw [← not_lt, amount_lt_iff moreB moreA, not_lt]

theorem amount_eq_iff : a.amount = b.amount ↔ a.atScale digits = b.atScale digits := by
  rw [le_antisymm_iff, amount_le_iff moreA moreB, amount_le_iff moreB moreA, ← le_antisymm_iff]

end

end Money

end PqAsync
