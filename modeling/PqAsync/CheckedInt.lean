import PqAsync.DateCore
import Mathlib.Algebra.Order.Ring.Int
import Mathlib.Tactic.NormNum

/-!
Integers that a word holds, for any width and for 64 bits.
-/

namespace PqAsync

def FitsInt (w : Nat) (x : Int) : Prop := -2 ^ (w - 1) ≤ x ∧ x < 2 ^ (w - 1)

instance (w : Nat) (x : Int) : Decidable (FitsInt w x) := inferInstanceAs (Decidable (_ ∧ _))

section

variable {w : Nat} (positive : 0 < w) {x : Int}

include positive

theorem toInt_ofInt_of_fits (fits : FitsInt w x) : (BitVec.ofInt w x).toInt = x := by
  obtain ⟨low, high⟩ := fits
  obtain ⟨k, rfl⟩ : ∃ k, w = k + 1 := ⟨w - 1, by omega⟩
  rw [Nat.add_sub_cancel] at low high
  have double : ((2 ^ (k + 1) : Nat) : Int) = 2 * 2 ^ k := by
    push_cast
    rw [pow_succ, mul_comm]
  rw [BitVec.toInt_ofInt, Int.bmod_eq_of_le]
  · omega
  · omega

theorem checkedInt_ok_iff {v : BitVec w} :
    checkedInt w x = .ok v ↔ FitsInt w x ∧ v.toInt = x := by
  have unfolded : checkedInt w x =
      if FitsInt w x then .ok (BitVec.ofInt w x) else .error .overflow := rfl
  rw [unfolded]
  constructor
  · intro done
    split at done
    · next fits =>
        cases done
        exact ⟨fits, toInt_ofInt_of_fits positive fits⟩
    · contradiction
  · rintro ⟨fits, same⟩
    rw [if_pos fits,
      BitVec.toInt_inj.mp ((toInt_ofInt_of_fits positive fits).trans same.symm)]

end

def FitsInt64 (x : Int) : Prop := -2 ^ 63 ≤ x ∧ x < 2 ^ 63

instance (x : Int) : Decidable (FitsInt64 x) := inferInstanceAs (Decidable (_ ∧ _))

theorem fitsInt64_toInt (v : BitVec 64) : FitsInt64 v.toInt := by
  have below := @BitVec.toInt_lt 64 v
  have above := @BitVec.le_toInt 64 v
  constructor
  · omega
  · omega

theorem toInt_ofInt_fits {x : Int} (fits : FitsInt64 x) : (BitVec.ofInt 64 x).toInt = x :=
  toInt_ofInt_of_fits (by decide) fits

theorem exists_toInt {x : Int} (fits : FitsInt64 x) : ∃ v : BitVec 64, v.toInt = x :=
  ⟨_, toInt_ofInt_fits fits⟩

theorem fits_tdiv {x d : Int} (fits : FitsInt64 x) (positive : 0 < d) : FitsInt64 (x.tdiv d) := by
  have smaller := Int.natAbs_tdiv_le_natAbs x d
  obtain ⟨low, high⟩ := fits
  constructor
  · omega
  · rcases le_total 0 x with sign | sign
    · omega
    · have negative := Int.tdiv_le_tdiv positive sign
      rw [Int.zero_tdiv] at negative
      omega

theorem checkedInt_ok {x : Int} {v : BitVec 64} :
    checkedInt 64 x = .ok v ↔ FitsInt64 x ∧ v.toInt = x :=
  checkedInt_ok_iff (by decide)

end PqAsync
