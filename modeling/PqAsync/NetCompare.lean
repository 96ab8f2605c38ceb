import Mathlib.Data.List.GetD
import PqAsync.NetTextCore

/-!
Network addresses as values: when two of them are equal, and what the check of a `cidr` decides.
-/

namespace PqAsync

section Equality

theorem memcmp_self (bytes : List UInt8) : memcmp bytes bytes = 0 := by
  induction bytes with
  | nil => rfl
  | cons byte bytes ih => simp [memcmp, ih]

theorem bitLoop_self (b bits : Nat) : bitLoop b bits bits = 0 := by
  induction b generalizing bits with
  | zero => rfl
  | succ b ih => simp [bitLoop, ih]

theorem getD_of_take {l r : List UInt8} {bytes k : Nat} (same : l.take bytes = r.take bytes)
    (within : k < bytes) : l.getD k 0 = r.getD k 0 := by
  have both := congrArg (fun bytes => bytes.getD k 0) same
  simpa [List.getD_eq_getElem?_getD, List.getElem?_take, within] using both

theorem bitncmp_same {l r : List UInt8} {bytes : Nat} (same : l.take bytes = r.take bytes) {n : Nat}
    (inside : n ≤ 8 * bytes) : bitncmp l r n = 0 := by
  have whole : l.take (n / 8) = r.take (n / 8) := by
    have less : min (n / 8) bytes = n / 8 := by omega
    rw [← less, ← List.take_take, same, List.take_take]
  rw [bitncmp, whole, memcmp_self]
  split
  · rfl
  · have byte : l.getD (n / 8) 0 = r.getD (n / 8) 0 := getD_of_take same (by omega)
    rw [byte, bitLoop_self]

/-- The number of bits of an address; a family that is not IPv4 has those of IPv6. -/
def familyWidth (family : NetFamily) : Nat := if family = .inet then 32 else 128

/-- The same family, prefix length and address. Only as many bytes of the field as the family has
are the address. -/
structure SameNetwork (address read : NetAddress) : Prop where
  family : read.family = address.family
  bits : read.bits = address.bits
  ipaddr : read.ipaddr.take (familyWidth address.family / 8) =
    address.ipaddr.take (familyWidth address.family / 8)
  equal : address.equal read = true

theorem NetAddress.equal_same {a b : NetAddress} (family : a.family = b.family) (bits : a.bits = b.bits)
    (same : a.ipaddr.take (familyWidth a.family / 8) = b.ipaddr.take (familyWidth a.family / 8))
    (inside : a.bits.toNat ≤ familyWidth a.family) : a.equal b = true := by
  have wide : familyWidth a.family ≤ 8 * (familyWidth a.family / 8) := by
    rw [familyWidth]
    split <;> decide
  have short : bitncmp a.ipaddr b.ipaddr (min a.bits b.bits).toNat = 0 := by
    have least : min a.bits a.bits = a.bits := ite_self a.bits
    rw [← bits, least]
    exact bitncmp_same same (inside.trans wide)
  have long : bitncmp a.ipaddr b.ipaddr (if a.family = .inet then 32 else 128) = 0 :=
    bitncmp_same same wide
  have lengths : (a.bits.toNat : Int) - b.bits.toNat = 0 := by
    rw [bits]
    exact Int.sub_self _
  rw [NetAddress.equal, networkCmp, if_pos family, short]
  simp only [ne_eq, not_true_eq_false, if_false, lengths, long, decide_true]

theorem sameNetwork_of {address : NetAddress} {bits : UInt8} {ipaddr : List UInt8}
    (inside : address.bits.toNat ≤ familyWidth address.family) (same : bits = address.bits)
    (bytes : ipaddr.take (familyWidth address.family / 8) =
      address.ipaddr.take (familyWidth address.family / 8)) :
    SameNetwork address { family := address.family, bits, ipaddr } where
  family := rfl
  bits := same
  ipaddr := bytes
  equal := NetAddress.equal_same rfl same.symm bytes.symm inside

end Equality

section HostBits

/-- The bit with the index `i` of an address, from the first one on. -/
def addressBit (ipaddr : List UInt8) (i : Nat) : Bool :=
  (ipaddr.getD (i / 8) 0).toNat.testBit (7 - i % 8)

def ClearBehind (ipaddr : List UInt8) (bits width : Nat) : Prop :=
  ∀ i, bits ≤ i → i < width → addressBit ipaddr i = false

theorem byte_zero_iff (byte : UInt8) : byte = 0 ↔ ∀ j < 8, byte.toNat.testBit j = false := by
  constructor
  · rintro rfl j _
    exact Nat.zero_testBit j
  · intro clear
    apply UInt8.toNat_inj.mp
    apply Nat.eq_of_testBit_eq
    intro j
    rw [UInt8.toNat_zero, Nat.zero_testBit]
    by_cases low : j < 8
    · exact clear j low
    · exact Nat.testBit_lt_two_pow (byte.toNat_lt.trans_le (Nat.pow_le_pow_right (by decide) (by omega)))

theorem testBit_mask {m : Nat} (small : m < 8) (j : Nat) :
    ((0xff : UInt8) >>> UInt8.ofNat m).toNat.testBit j = decide (m + j < 8) := by
  have shift : (UInt8.ofNat m).toNat % 8 = m := by
    rw [UInt8.toNat_ofNat']
    omega
  rw [UInt8.toNat_shiftRight, shift, Nat.testBit_shiftRight]
  exact Nat.testBit_two_pow_sub_one 8 (m + j)

theorem masked_zero_iff {m : Nat} (small : m < 8) (byte : UInt8) :
    byte &&& 0xff >>> UInt8.ofNat m = 0 ↔ ∀ j, m + j < 8 → byte.toNat.testBit j = false := by
  rw [byte_zero_iff]
  constructor
  · intro clear j inside
    have bit := clear j (by omega)
    rw [UInt8.toNat_and, Nat.testBit_and, testBit_mask small, decide_eq_true inside,
      Bool.and_true] at bit
    exact bit
  · intro clear j _
    rw [UInt8.toNat_and, Nat.testBit_and, testBit_mask small]
    by_cases inside : m + j < 8
    · rw [clear j inside, Bool.false_and]
    · rw [decide_eq_false inside, Bool.and_false]

theorem all_zero_iff {bytes : List UInt8} {start stop : Nat} :
    ((bytes.drop start).take (stop - start)).all (· = 0) = true ↔
      ∀ k, start ≤ k → k < stop → bytes.getD k 0 = 0 := by
  rw [List.all_eq_true]
  constructor
  · intro zero k behind before
    by_cases present : k < bytes.length
    · have member : bytes[k] ∈ (bytes.drop start).take (stop - start) := by
        rw [List.mem_iff_getElem]
        refine ⟨k - start, by simp; omega, ?_⟩
        simp [show start + (k - start) = k by omega]
      rw [List.getD_eq_getElem _ _ present]
      exact of_decide_eq_true (zero _ member)
    · exact List.getD_eq_default _ _ (by omega)
  · intro zero byte member
    obtain ⟨k, inside, rfl⟩ := List.mem_iff_getElem.mp member
    rw [List.length_take, List.length_drop] at inside
    have own := zero (start + k) (by omega) (by omega)
    rw [List.getD_eq_getElem _ _ (by omega)] at own
    simp [own]

theorem addressOk_iff {ipaddr : List UInt8} {bits : Nat} {family : NetFamily}
    (inside : bits ≤ familyWidth family) :
    addressOk ipaddr bits family = true ↔ ClearBehind ipaddr bits (familyWidth family) := by
  have bytes : (if family = .inet then 4 else 16) = familyWidth family / 8 := by
    rw [familyWidth]
    split <;> rfl
  have whole : familyWidth family % 8 = 0 := by
    rw [familyWidth]
    split <;> rfl
  have mask : (if bits ≠ 0 then (0xff : UInt8) >>> UInt8.ofNat (bits % 8) else 0xff) =
      0xff >>> UInt8.ofNat (bits % 8) := by
    by_cases empty : bits = 0
    · rw [empty]
      rfl
    · exact if_pos empty
  rw [addressOk, bytes, mask]
  change (if bits = familyWidth family then true else _) = true ↔ _
  generalize familyWidth family = width at *
  by_cases full : bits = width
  · rw [if_pos full, full]
    exact iff_of_true rfl fun i behind before => absurd behind (Nat.not_le.mpr before)
  · rw [if_neg full, decide_eq_true_iff, masked_zero_iff (Nat.mod_lt bits (by decide)), all_zero_iff]
    constructor
    · rintro ⟨small, rest⟩ i behind before
      rw [addressBit]
      by_cases last : i / 8 = bits / 8
      · rw [last]
        exact small _ (by omega)
      · rw [rest (i / 8) (by omega) (by omega)]
        exact Nat.zero_testBit _
    · intro clear
      constructor
      · intro j low
        have own := clear (8 * (bits / 8) + (7 - j)) (by omega) (by omega)
        rw [addressBit] at own
        have index : (8 * (bits / 8) + (7 - j)) / 8 = bits / 8 := by omega
        have bit : 7 - (8 * (bits / 8) + (7 - j)) % 8 = j := by omega
        rwa [index, bit] at own
      · intro k behind before
        rw [byte_zero_iff]
        intro j low
        have own := clear (8 * k + (7 - j)) (by omega) (by omega)
        rw [addressBit] at own
        have index : (8 * k + (7 - j)) / 8 = k := by omega
        have bit : 7 - (8 * k + (7 - j)) % 8 = j := by omega
        rwa [index, bit] at own

theorem clearBehind_congr {ipaddr other : List UInt8} {bits width : Nat}
    (same : other.take (width / 8) = ipaddr.take (width / 8)) (whole : width % 8 = 0)
    (clear : ClearBehind ipaddr bits width) : ClearBehind other bits width := by
  intro i behind before
  have byte : other.getD (i / 8) 0 = ipaddr.getD (i / 8) 0 := getD_of_take same (by omega)
  rw [addressBit, byte]
  exact clear i behind before

end HostBits

end PqAsync
