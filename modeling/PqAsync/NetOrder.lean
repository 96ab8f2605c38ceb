import PqAsync.Library.ThreeWay
import PqAsync.NetCompare

/-!
The comparison of network addresses is a total order: that of the bits of the networks, a network
before those inside of it, then that of the whole addresses.
-/

namespace PqAsync

open ThreeWay

section Bits

/-- The last `k` bits of a number, from the highest one on. -/
def lowBits : Nat → Nat → List Bool
  | 0, _ => []
  | k + 1, n => n.testBit k :: lowBits k n

def byteBits (byte : UInt8) : List Bool := lowBits 8 byte.toNat

def bitsOf (bytes : List UInt8) : List Bool := bytes.flatMap byteBits

theorem lowBits_length (k n : Nat) : (lowBits k n).length = k := by
  induction k with
  | zero => rfl
  | succ k ih => rw [lowBits, List.length_cons, ih]

theorem byteBits_length (byte : UInt8) : (byteBits byte).length = 8 := lowBits_length 8 byte.toNat

theorem bitsOf_length (bytes : List UInt8) : (bitsOf bytes).length = 8 * bytes.length := by
  induction bytes with
  | nil => rfl
  | cons byte bytes ih =>
      rw [bitsOf, List.flatMap_cons, List.length_append, byteBits_length, List.length_cons]
      change 8 + (bitsOf bytes).length = _
      omega

theorem lowBits_lt {k n m : Nat} (less : n % 2 ^ k < m % 2 ^ k) : lowBits k n < lowBits k m := by
  induction k with
  | zero =>
      rw [Nat.pow_zero, Nat.mod_one, Nat.mod_one] at less
      exact absurd less (lt_irrefl 0)
  | succ k ih =>
      rw [lowBits, lowBits, List.cons_lt_cons_iff, Nat.testBit_eq_decide_div_mod_eq,
        Nat.testBit_eq_decide_div_mod_eq]
      rw [Nat.mod_pow_succ, Nat.mod_pow_succ] at less
      have lowN : n % 2 ^ k < 2 ^ k := Nat.mod_lt n (Nat.two_pow_pos k)
      have lowM : m % 2 ^ k < 2 ^ k := Nat.mod_lt m (Nat.two_pow_pos k)
      rcases Nat.mod_two_eq_zero_or_one (n / 2 ^ k) with bitN | bitN <;>
        rcases Nat.mod_two_eq_zero_or_one (m / 2 ^ k) with bitM | bitM <;>
        rw [bitN, bitM] at less ⊢
      · exact .inr ⟨rfl, ih (by omega)⟩
      · exact .inl (by decide)
      · omega
      · exact .inr ⟨rfl, ih (by omega)⟩

theorem byteBits_lt {l r : UInt8} (less : l < r) : byteBits l < byteBits r := by
  apply lowBits_lt
  rw [Nat.mod_eq_of_lt l.toNat_lt, Nat.mod_eq_of_lt r.toNat_lt]
  exact UInt8.lt_iff_toNat_lt.mp less

theorem byteBits_inj {l r : UInt8} (same : byteBits l = byteBits r) : l = r := by
  rcases lt_trichotomy l.toNat r.toNat with less | equal | more
  · exact absurd same (byteBits_lt (UInt8.lt_iff_toNat_lt.mpr less)).ne
  · exact UInt8.toNat_inj.mp equal
  · exact absurd same (byteBits_lt (UInt8.lt_iff_toNat_lt.mpr more)).ne'

theorem bitsOf_inj {l r : List UInt8} (same : bitsOf l = bitsOf r) : l = r := by
  have lengths := congrArg List.length same
  rw [bitsOf_length, bitsOf_length] at lengths
  induction l generalizing r with
  | nil => exact (List.length_eq_zero_iff.mp (by rw [List.length_nil] at lengths; omega)).symm
  | cons a l ih =>
      cases r with
      | nil => cases lengths
      | cons b r =>
          rw [bitsOf, bitsOf, List.flatMap_cons, List.flatMap_cons] at same
          obtain ⟨first, rest⟩ := List.append_inj same
            ((byteBits_length a).trans (byteBits_length b).symm)
          rw [byteBits_inj first, ih rest (by rw [List.length_cons, List.length_cons] at lengths; omega)]

theorem take_bitsOf {bytes : List UInt8} {b m : Nat} (short : m < 8)
    (inside : 8 * b + m ≤ 8 * bytes.length) :
    (bitsOf bytes).take (8 * b + m) =
      bitsOf (bytes.take b) ++ (byteBits (bytes.getD b 0)).take m := by
  induction b generalizing bytes with
  | zero =>
      cases bytes with
      | nil =>
          obtain rfl : m = 0 := by
            rw [List.length_nil] at inside
            omega
          rfl
      | cons byte bytes =>
          rw [bitsOf, List.flatMap_cons, List.take_append_of_le_length
            (by rw [byteBits_length]; omega)]
          simp [bitsOf]
  | succ b ih =>
      cases bytes with
      | nil =>
          rw [List.length_nil] at inside
          omega
      | cons byte bytes =>
          have rest := @ih bytes (by rw [List.length_cons] at inside; omega)
          have count : 8 * (b + 1) + m - (byteBits byte).length = 8 * b + m := by
            rw [byteBits_length]
            omega
          rw [bitsOf, List.flatMap_cons, List.take_append, List.take_of_length_le
            (by rw [byteBits_length]; omega), count]
          change byteBits byte ++ (bitsOf bytes).take (8 * b + m) = _
          rw [rest]
          simp [bitsOf]

end Bits

section Comparison

theorem memcmp_orders {l r : List UInt8} (length : l.length = r.length) :
    Orders (memcmp l r) (bitsOf l) (bitsOf r) := by
  induction l generalizing r with
  | nil =>
      obtain rfl := List.length_eq_zero_iff.mp length.symm
      exact .of_eq rfl rfl
  | cons a l ih =>
      cases r with
      | nil => cases length
      | cons b r =>
          have widths : ∀ a b : UInt8, (byteBits a).length = (byteBits b).length := fun a b =>
            (byteBits_length a).trans (byteBits_length b).symm
          rw [memcmp]
          by_cases below : a < b
          · rw [if_pos below]
            exact .of_lt (by decide) (lt_of_append_lt (byteBits_lt below) (widths a b) _ _)
          · rw [if_neg below]
            by_cases above : b < a
            · rw [if_pos above]
              exact .of_gt (by decide) (lt_of_append_lt (byteBits_lt above) (widths b a) _ _)
            · obtain rfl : a = b := by
                rw [UInt8.lt_iff_toNat_lt] at below above
                exact UInt8.toNat_inj.mp (by omega)
              rw [if_neg above]
              exact (ih (Nat.succ.inj length)).prepend (byteBits a)

theorem bitLoop_orders {b i : Nat} (inside : i + b ≤ 8) (lb rb : Nat) :
    Orders (bitLoop b (lb <<< i) (rb <<< i)) ((lowBits (8 - i) lb).take b)
      ((lowBits (8 - i) rb).take b) := by
  induction b generalizing i with
  | zero => exact .of_eq rfl rfl
  | succ b ih =>
      have rest := ih (i := i + 1) (by omega)
      rw [Nat.shiftLeft_add, Nat.shiftLeft_add] at rest
      have bits : 8 - i = (8 - (i + 1)) + 1 := by omega
      have index : 7 - i = 8 - (i + 1) := by omega
      have highest : ∀ n : Nat, (n <<< i).testBit 7 = n.testBit (8 - (i + 1)) := by
        intro n
        rw [Nat.testBit_shiftLeft, decide_eq_true (by omega : 7 ≥ i), Bool.true_and, index]
      rw [bitLoop, highest, highest, bits, lowBits, lowBits, List.take_succ_cons,
        List.take_succ_cons]
      cases lb.testBit (8 - (i + 1)) <;> cases rb.testBit (8 - (i + 1))
      · exact rest.prepend [false]
      · exact .of_lt (Int.negSucc_lt_zero 0) (List.cons_lt_cons_iff.mpr (.inl (by decide)))
      · exact .of_gt Int.one_pos (List.cons_lt_cons_iff.mpr (.inl (by decide)))
      · exact rest.prepend [true]

theorem bitncmp_orders {l r : List UInt8} {n : Nat} (length : l.length = r.length)
    (inside : n ≤ 8 * l.length) :
    Orders (bitncmp l r n) ((bitsOf l).take n) ((bitsOf r).take n) := by
  have count : n = 8 * (n / 8) + n % 8 := (Nat.div_add_mod n 8).symm
  have small : n % 8 < 8 := Nat.mod_lt n (by decide)
  have left := take_bitsOf (b := n / 8) small (count ▸ inside)
  have right := take_bitsOf (b := n / 8) small (count ▸ length ▸ inside)
  rw [← count] at left right
  rw [left, right]
  have whole : Orders (memcmp (l.take (n / 8)) (r.take (n / 8))) (bitsOf (l.take (n / 8)))
      (bitsOf (r.take (n / 8))) :=
    memcmp_orders (by rw [List.length_take, List.length_take, length])
  have last := bitLoop_orders (b := n % 8) (i := 0) (by omega) (l.getD (n / 8) 0).toNat
    (r.getD (n / 8) 0).toNat
  have both := Orders.append
    (by rw [bitsOf_length, bitsOf_length, List.length_take, List.length_take, length]) whole last
  have split : bitncmp l r n = thenBy (memcmp (l.take (n / 8)) (r.take (n / 8)))
      (bitLoop (n % 8) (l.getD (n / 8) 0).toNat (r.getD (n / 8) 0).toNat) := by
    rw [bitncmp, thenBy]
    by_cases found : memcmp (l.take (n / 8)) (r.take (n / 8)) = 0
    · by_cases full : n % 8 = 0
      · simp [found, full, bitLoop]
      · simp [found, full]
    · simp [found]
  rw [split]
  exact both

end Comparison

section Networks

/-- The bits of the address, without those of the field that its family does not use. -/
def NetAddress.addressBits (address : NetAddress) : List Bool :=
  bitsOf (address.ipaddr.take (familyWidth address.family / 8))

def NetAddress.networkBits (address : NetAddress) : List Bool :=
  address.addressBits.take address.bits.toNat

/-- An address of one of the two families, with the 16 bytes of its field and a prefix length that
the family has. -/
structure NetAddress.Valid (address : NetAddress) : Prop where
  family : address.family = .inet ∨ address.family = .inet6
  field : address.ipaddr.length = 16
  bits : address.bits.toNat ≤ familyWidth address.family

def NetAddress.sortKey (address : NetAddress) : Int ×ₗ List Bool ×ₗ List Bool :=
  toLex (familyCode address.family, toLex (address.networkBits, address.addressBits))

theorem familyWidth_le (family : NetFamily) : familyWidth family ≤ 128 := by
  rw [familyWidth]
  split <;> decide

theorem familyWidth_bytes (family : NetFamily) : 8 * (familyWidth family / 8) = familyWidth family := by
  rw [familyWidth]
  split <;> rfl

variable {a b : NetAddress}

theorem NetAddress.Valid.addressBits_length (valid : a.Valid) :
    a.addressBits.length = familyWidth a.family := by
  have bytes := familyWidth_bytes a.family
  have wide := familyWidth_le a.family
  rw [NetAddress.addressBits, bitsOf_length, List.length_take, valid.field]
  omega

theorem NetAddress.Valid.networkBits_length (valid : a.Valid) :
    a.networkBits.length = a.bits.toNat := by
  rw [NetAddress.networkBits, List.length_take, valid.addressBits_length]
  exact Nat.min_eq_left valid.bits

theorem NetAddress.Valid.take_bits (valid : a.Valid) {n : Nat} (inside : n ≤ familyWidth a.family) :
    (bitsOf a.ipaddr).take n = a.addressBits.take n := by
  have bytes := familyWidth_bytes a.family
  have wide := familyWidth_le a.family
  have field := @take_bitsOf a.ipaddr (familyWidth a.family / 8) 0 (by decide)
    (by rw [valid.field]; omega)
  rw [Nat.add_zero, bytes, List.take_zero, List.append_nil] at field
  rw [NetAddress.addressBits, ← field, List.take_take, Nat.min_eq_left inside]

theorem address_orders (validA : a.Valid) (validB : b.Valid) (family : a.family = b.family) {n : Nat}
    (inside : n ≤ familyWidth a.family) :
    Orders (bitncmp a.ipaddr b.ipaddr n) (a.addressBits.take n) (b.addressBits.take n) := by
  have wide := familyWidth_le a.family
  rw [← validA.take_bits inside, ← validB.take_bits (family ▸ inside)]
  exact bitncmp_orders (validA.field.trans validB.field.symm) (by rw [validA.field]; omega)

theorem networkCmp_same_family (family : a.family = b.family) :
    networkCmp a b = thenBy (bitncmp a.ipaddr b.ipaddr (min a.bits b.bits).toNat)
      (thenBy ((a.bits.toNat : Int) - b.bits.toNat)
        (bitncmp a.ipaddr b.ipaddr (familyWidth a.family))) := by
  rw [networkCmp, if_pos family]
  rfl

theorem min_toNat (x y : UInt8) : (min x y).toNat = min x.toNat y.toNat := by
  change (if x ≤ y then x else y).toNat = _
  by_cases order : x ≤ y
  · rw [if_pos order, Nat.min_eq_left (UInt8.le_iff_toNat_le.mp order)]
  · rw [if_neg order]
    rw [UInt8.le_iff_toNat_le] at order
    omega

theorem width_orders (validA : a.Valid) (validB : b.Valid) (family : a.family = b.family) :
    Orders (bitncmp a.ipaddr b.ipaddr (familyWidth a.family)) a.addressBits b.addressBits := by
  have orders := address_orders validA validB family le_rfl
  have wholeA : a.addressBits.take (familyWidth a.family) = a.addressBits :=
    List.take_of_length_le validA.addressBits_length.le
  have wholeB : b.addressBits.take (familyWidth a.family) = b.addressBits :=
    List.take_of_length_le (family ▸ validB.addressBits_length.le)
  rwa [wholeA, wholeB] at orders

theorem common_orders (validA : a.Valid) (validB : b.Valid) (family : a.family = b.family) :
    Orders (bitncmp a.ipaddr b.ipaddr (min a.bits b.bits).toNat)
      (a.addressBits.take (min a.bits.toNat b.bits.toNat))
      (b.addressBits.take (min a.bits.toNat b.bits.toNat)) := by
  rw [min_toNat]
  exact address_orders validA validB family (inf_le_left.trans validA.bits)

theorem networkCmp_sorts (validA : a.Valid) (validB : b.Valid) (family : a.family = b.family) :
    Orders (networkCmp a b)
      (toLex (a.addressBits.take (min a.bits.toNat b.bits.toNat),
        toLex ((a.bits.toNat : Int), a.addressBits)))
      (toLex (b.addressBits.take (min a.bits.toNat b.bits.toNat),
        toLex ((b.bits.toNat : Int), b.addressBits))) := by
  have lengths : Orders ((a.bits.toNat : Int) - b.bits.toNat) (a.bits.toNat : Int) b.bits.toNat :=
    ⟨sub_neg, sub_eq_zero, sub_pos⟩
  rw [networkCmp_same_family family]
  exact (common_orders validA validB family).lex fun _ =>
    lengths.lex fun _ => width_orders validA validB family

theorem network_orders (validA : a.Valid) (validB : b.Valid) (family : a.family = b.family) :
    Orders (thenBy (bitncmp a.ipaddr b.ipaddr (min a.bits b.bits).toNat)
      ((a.bits.toNat : Int) - b.bits.toNat)) a.networkBits b.networkBits := by
  have common := common_orders validA validB family
  have lengthA := validA.networkBits_length
  have lengthB := validB.networkBits_length
  have takenA : a.networkBits.take (min a.bits.toNat b.bits.toNat) =
      a.addressBits.take (min a.bits.toNat b.bits.toNat) := by
    rw [NetAddress.networkBits, List.take_take, Nat.min_right_comm, Nat.min_self]
  have takenB : b.networkBits.take (min a.bits.toNat b.bits.toNat) =
      b.addressBits.take (min a.bits.toNat b.bits.toNat) := by
    rw [NetAddress.networkBits, List.take_take, Nat.min_assoc, Nat.min_self]
  rw [← takenA, ← takenB] at common
  rw [← lengthA, ← lengthB]
  exact Orders.common (by rw [lengthA, lengthB]) common

theorem networkCmp_orders (validA : a.Valid) (validB : b.Valid) :
    Orders (networkCmp a b) a.sortKey b.sortKey := by
  by_cases family : a.family = b.family
  · have within := (network_orders validA validB family).lex fun _ =>
      width_orders validA validB family
    rw [networkCmp_same_family family, ← thenBy_assoc, ← thenBy_zero (thenBy _ _)]
    exact (Orders.of_eq rfl (congrArg familyCode family)).lex fun _ => within
  · rw [networkCmp, if_neg family]
    have codes : Orders (familyCode a.family - familyCode b.family) (familyCode a.family)
        (familyCode b.family) := ⟨sub_neg, sub_eq_zero, sub_pos⟩
    have differ : familyCode a.family - familyCode b.family ≠ 0 := by
      rcases validA.family with familyA | familyA <;> rcases validB.family with familyB | familyB <;>
        rw [familyA, familyB] at family ⊢
      · exact absurd rfl family
      · decide
      · decide
      · exact absurd rfl family
    have apart : familyCode a.family = familyCode b.family →
        Orders 0 (toLex (a.networkBits, a.addressBits)) (toLex (b.networkBits, b.addressBits)) :=
      fun same => absurd (sub_eq_zero.mpr same) differ
    rw [← thenBy_of_ne differ 0]
    exact codes.lex apart

theorem networkCmp_zero (validA : a.Valid) (validB : b.Valid) :
    networkCmp a b = 0 ↔ a.family = b.family ∧ a.bits = b.bits ∧
      a.ipaddr.take (familyWidth a.family / 8) = b.ipaddr.take (familyWidth a.family / 8) := by
  constructor
  · intro zero
    have keys := (networkCmp_orders validA validB).same.mp zero
    have family : a.family = b.family := by
      have codes : familyCode a.family = familyCode b.family :=
        congrArg (fun key => (ofLex key).1) keys
      rcases validA.family with familyA | familyA <;> rcases validB.family with familyB | familyB <;>
        rw [familyA, familyB] at codes ⊢
      · exact absurd codes (by decide)
      · exact absurd codes (by decide)
    have networks : a.networkBits = b.networkBits :=
      congrArg (fun key => (ofLex (ofLex key).2).1) keys
    have addresses : a.addressBits = b.addressBits :=
      congrArg (fun key => (ofLex (ofLex key).2).2) keys
    have bits : a.bits = b.bits := by
      apply UInt8.toNat_inj.mp
      rw [← validA.networkBits_length, ← validB.networkBits_length, networks]
    exact ⟨family, bits, bitsOf_inj (by rwa [NetAddress.addressBits, NetAddress.addressBits,
      ← family] at addresses)⟩
  · rintro ⟨family, bits, bytes⟩
    exact of_decide_eq_true (NetAddress.equal_same family bits bytes validA.bits)

/-- The comparison of `inet` and `cidr` values is a total order in which only values with the same
family, prefix length and address are equal. -/
theorem networkCmp_total {c : NetAddress} (validA : a.Valid) (validB : b.Valid) (validC : c.Valid) :
    Total networkCmp a b c ∧
      (networkCmp a b = 0 ↔ a.family = b.family ∧ a.bits = b.bits ∧
        a.ipaddr.take (familyWidth a.family / 8) = b.ipaddr.take (familyWidth a.family / 8)) ∧
      (a.family = b.family → Orders (networkCmp a b)
        (toLex (a.addressBits.take (min a.bits.toNat b.bits.toNat),
          toLex ((a.bits.toNat : Int), a.addressBits)))
        (toLex (b.addressBits.take (min a.bits.toNat b.bits.toNat),
          toLex ((b.bits.toNat : Int), b.addressBits)))) :=
  ⟨.of_key networkCmp_orders validA validB validC, networkCmp_zero validA validB,
    networkCmp_sorts validA validB⟩

theorem networkCmp_total_prefixes :
    let a : NetAddress := ⟨.inet, 9, [10, 128, 0, 0] ++ List.replicate 12 0⟩
    let b : NetAddress := ⟨.inet, 8, [10, 0, 0, 1] ++ List.replicate 12 0⟩
    let c : NetAddress := ⟨.inet6, 128, List.replicate 16 1⟩
    Total networkCmp a b c ∧
      (networkCmp a b = 0 ↔ a.family = b.family ∧ a.bits = b.bits ∧
        a.ipaddr.take (familyWidth a.family / 8) = b.ipaddr.take (familyWidth a.family / 8)) ∧
      (a.family = b.family → Orders (networkCmp a b)
        (toLex (a.addressBits.take (min a.bits.toNat b.bits.toNat),
          toLex ((a.bits.toNat : Int), a.addressBits)))
        (toLex (b.addressBits.take (min a.bits.toNat b.bits.toNat),
          toLex ((b.bits.toNat : Int), b.addressBits)))) :=
  networkCmp_total ⟨.inl rfl, rfl, by decide⟩ ⟨.inl rfl, rfl, by decide⟩ ⟨.inr rfl, rfl, by decide⟩

end Networks

end PqAsync
