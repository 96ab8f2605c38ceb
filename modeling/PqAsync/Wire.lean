import PqAsync.WireCore
import PqAsync.Library.Results
import Mathlib.Tactic.Common

/-!
The bytes that the swapping functions put on the wire, and reads at a place of a buffer that
holds known bytes.
-/

namespace PqAsync

def Holds (buffer : List UInt8) (offset : Int) (bytes : List UInt8) : Prop :=
  ∃ before after, buffer = before ++ (bytes ++ after) ∧ offset = before.length

theorem Holds.whole (bytes : List UInt8) : Holds bytes 0 bytes := ⟨[], [], by simp, rfl⟩

theorem Holds.left {buffer : List UInt8} {offset : Int} {left right : List UInt8}
    (holds : Holds buffer offset (left ++ right)) : Holds buffer offset left := by
  obtain ⟨before, after, rfl, rfl⟩ := holds
  exact ⟨before, right ++ after, by simp, rfl⟩

theorem Holds.right {buffer : List UInt8} {offset : Int} {left right : List UInt8}
    (holds : Holds buffer offset (left ++ right)) :
    Holds buffer (offset + left.length) right := by
  obtain ⟨before, after, rfl, rfl⟩ := holds
  exact ⟨before ++ left, after, by simp, by simp⟩

theorem Holds.after {buffer : List UInt8} {offset : Int} {left right : List UInt8} {size : Int}
    (holds : Holds buffer offset (left ++ right)) (length : (left.length : Int) = size) :
    Holds buffer (offset + size) right := by
  rw [← length]
  exact holds.right

theorem Holds.length_le {buffer : List UInt8} {offset : Int} {bytes : List UInt8}
    (holds : Holds buffer offset bytes) : bytes.length ≤ buffer.length := by
  obtain ⟨before, after, rfl, rfl⟩ := holds
  simp only [List.length_append]
  omega

theorem Holds.readBytes {buffer : List UInt8} {offset : Int} {bytes : List UInt8}
    (holds : Holds buffer offset bytes) {size : Nat} (length : bytes.length = size) :
    PqAsync.readBytes buffer offset size = .ok bytes := by
  obtain ⟨before, after, rfl, rfl⟩ := holds
  subst size
  have inside : (0 : Int) ≤ before.length ∧
      (before.length : Int) + bytes.length ≤ (before ++ (bytes ++ after)).length := by
    simp only [List.length_append]
    omega
  rw [PqAsync.readBytes, if_pos inside]
  simp

theorem toNat_lt_of_width {size w : Nat} (width : w = 8 * size) (x : BitVec w) :
    x.toNat < 256 ^ size := by
  have modulus : 256 ^ size = 2 ^ w := by rw [width, Nat.pow_mul]
  rw [modulus]
  exact x.isLt

theorem fromMemory_inMemory (size : Nat) {w : Nat} (width : w = 8 * size) (x : BitVec w) :
    fromMemory w (inMemory size x) = x := by
  apply BitVec.eq_of_toNat_eq
  rw [fromMemory, inMemory, Bytes.value_littleEndian,
    Nat.mod_eq_of_lt (toNat_lt_of_width width x)]
  simp

theorem inMemory_fromMemory (size : Nat) {w : Nat} (width : w = 8 * size) (bytes : List UInt8)
    (length : bytes.length = size) : inMemory size (fromMemory w bytes) = bytes := by
  have bound : Bytes.value bytes < 2 ^ w := by
    have small := Bytes.value_lt bytes
    rw [length] at small
    rw [width, Nat.pow_mul]
    exact small
  rw [inMemory, fromMemory, BitVec.toNat_ofNat, Nat.mod_eq_of_lt bound, ← length,
    Bytes.littleEndian_value]

theorem inMemory_swap4 (x : BitVec 32) (toNetwork : Bool) :
    inMemory 4 (swap4 x toNetwork) = Bytes.bigEndian 4 x.toNat := by
  have reversed : swap4 x toNetwork = fromMemory 32 (inMemory 4 x).reverse := by
    cases toNetwork <;> rfl
  rw [reversed, inMemory_fromMemory 4 rfl _ (by simp [inMemory])]
  rfl

theorem inMemory_swap2 (x : BitVec 16) (toNetwork : Bool) :
    inMemory 2 (swap2 x toNetwork) = Bytes.bigEndian 2 x.toNat := by
  have reversed : swap2 x toNetwork = fromMemory 16 (inMemory 2 x).reverse := by
    cases toNetwork <;> rfl
  rw [reversed, inMemory_fromMemory 2 rfl _ (by simp [inMemory])]
  rfl

theorem inMemory_append (high low : BitVec 32) :
    inMemory 8 (high ++ low) = inMemory 4 low ++ inMemory 4 high := by
  have value : (high ++ low).toNat = low.toNat + 256 ^ 4 * high.toNat := by
    rw [BitVec.toNat_append, ← Nat.shiftLeft_add_eq_or_of_lt low.isLt, Nat.shiftLeft_eq]
    omega
  rw [inMemory, value]
  exact Bytes.littleEndian_append 4 4 low.toNat high.toNat low.isLt

theorem inMemory_swap8 (x : BitVec 64) (toNetwork : Bool) :
    inMemory 8 (swap8 x toNetwork) = Bytes.bigEndian 8 x.toNat := by
  have low : (x.setWidth 32).toNat = x.toNat % 256 ^ 4 := by simp
  have high : ((x >>> 32).setWidth 32).toNat = x.toNat / 256 ^ 4 := by
    have isLt := x.isLt
    rw [BitVec.toNat_setWidth, BitVec.toNat_ushiftRight, Nat.shiftRight_eq_div_pow]
    exact Nat.mod_eq_of_lt (Nat.div_lt_of_lt_mul (by omega))
  have halves : swap8 x toNetwork =
      swap4 (x.setWidth 32) toNetwork ++ swap4 ((x >>> 32).setWidth 32) toNetwork := by
    cases toNetwork <;> rfl
  have split : x.toNat = x.toNat % 256 ^ 4 + 256 ^ 4 * (x.toNat / 256 ^ 4) :=
    (Nat.mod_add_div _ _).symm
  rw [halves, inMemory_append, inMemory_swap4, inMemory_swap4, low, high]
  conv_rhs => rw [split]
  exact (Bytes.bigEndian_append 4 4 _ _ (Nat.mod_lt _ (by decide))).symm

theorem inMemory_injective (size : Nat) {w : Nat} (width : w = 8 * size) {x y : BitVec w}
    (same : inMemory size x = inMemory size y) : x = y := by
  rw [← fromMemory_inMemory size width x, same, fromMemory_inMemory size width y]

theorem bigEndian_injective (size : Nat) {w : Nat} (width : w = 8 * size) {x y : BitVec w}
    (same : Bytes.bigEndian size x.toNat = Bytes.bigEndian size y.toNat) : x = y :=
  inMemory_injective size width (List.reverse_injective same)

theorem swap4_fromMemory (x : BitVec 32) :
    swap4 (fromMemory 32 (Bytes.bigEndian 4 x.toNat)) false = x := by
  rw [← inMemory_swap4 x true, fromMemory_inMemory 4 rfl]
  apply inMemory_injective 4 rfl
  rw [inMemory_swap4]
  change (inMemory 4 (swap4 x true)).reverse = _
  rw [inMemory_swap4]
  simp [Bytes.bigEndian, inMemory]

theorem swap2_fromMemory (x : BitVec 16) :
    swap2 (fromMemory 16 (Bytes.bigEndian 2 x.toNat)) false = x := by
  rw [← inMemory_swap2 x true, fromMemory_inMemory 2 rfl]
  apply inMemory_injective 2 rfl
  rw [inMemory_swap2]
  change (inMemory 2 (swap2 x true)).reverse = _
  rw [inMemory_swap2]
  simp [Bytes.bigEndian, inMemory]

theorem swap8_fromMemory (x : BitVec 64) :
    swap8 (fromMemory 64 (Bytes.bigEndian 8 x.toNat)) false = x := by
  rw [← inMemory_swap8 x true, fromMemory_inMemory 8 rfl]
  apply inMemory_injective 8 rfl
  rw [inMemory_swap8]
  change (inMemory 8 (swap8 x true)).reverse = _
  rw [inMemory_swap8]
  simp [Bytes.bigEndian, inMemory]

theorem Holds.readInt32 {buffer : List UInt8} {offset : Int} {x : BitVec 32}
    (holds : Holds buffer offset (Bytes.bigEndian 4 x.toNat)) :
    PqAsync.readInt32 buffer offset = .ok x := by
  rw [PqAsync.readInt32, holds.readBytes (by simp)]
  change Except.ok _ = _
  rw [swap4_fromMemory]

theorem Holds.readInt16 {buffer : List UInt8} {offset : Int} {x : BitVec 16}
    (holds : Holds buffer offset (Bytes.bigEndian 2 x.toNat)) :
    PqAsync.readInt16 buffer offset = .ok x := by
  rw [PqAsync.readInt16, holds.readBytes (by simp)]
  change Except.ok _ = _
  rw [swap2_fromMemory]

theorem Holds.readInt64 {buffer : List UInt8} {offset : Int} {x : BitVec 64}
    (holds : Holds buffer offset (Bytes.bigEndian 8 x.toNat)) :
    PqAsync.readInt64 buffer offset = .ok x := by
  rw [PqAsync.readInt64, holds.readBytes (by simp)]
  change Except.ok _ = _
  rw [swap8_fromMemory]

theorem toInt_of_lt {size : Nat} (small : size < 2 ^ 31) : toInt size = size := by
  rw [toInt, BitVec.toInt_eq_toNat_of_lt]
  · simp only [BitVec.toNat_ofNat]
    omega
  · simp only [BitVec.toNat_ofNat]
    omega

theorem toInt_lt (size : Nat) : toInt size < 2 ^ 31 := BitVec.toInt_lt

theorem toInt_le (size : Nat) : toInt size ≤ size := by
  have bound := Nat.mod_le size (2 ^ 32)
  rw [toInt, BitVec.toInt_eq_toNat_cond, BitVec.toNat_ofNat]
  split <;> omega

theorem toInt_congr (size : Nat) : ∃ wraps : Int, toInt size = size - 2 ^ 32 * wraps := by
  have parts := Nat.mod_add_div size (2 ^ 32)
  rw [toInt, BitVec.toInt_eq_toNat_cond, BitVec.toNat_ofNat]
  split
  · exact ⟨(size / 2 ^ 32 : Nat), by omega⟩
  · exact ⟨(size / 2 ^ 32 + 1 : Nat), by omega⟩

theorem length_readBytes {buffer bytes : List UInt8} {offset : Int} {size : Nat}
    (read : readBytes buffer offset size = .ok bytes) : bytes.length = size := by
  rw [readBytes] at read
  by_cases inside : 0 ≤ offset ∧ offset + size ≤ buffer.length
  · rw [if_pos inside] at read
    rw [← Except.ok.inj read, List.length_take, List.length_drop]
    omega
  · rw [if_neg inside] at read
    exact absurd read (by simp)

theorem readBytes_take {buffer bytes : List UInt8} {size : Nat} {offset : Int} {count : Nat}
    (read : readBytes (buffer.take count) offset size = .ok bytes) :
    readBytes buffer offset size = .ok bytes := by
  rw [readBytes] at read ⊢
  by_cases inside : 0 ≤ offset ∧ offset + size ≤ (buffer.take count).length
  · rw [if_pos inside] at read
    have shorter := List.length_take_le count buffer
    have limit := List.length_take_le' count buffer
    rw [if_pos (by omega), ← Except.ok.inj read, List.drop_take, List.take_take]
    congr 2
    omega
  · rw [if_neg inside] at read
    exact absurd read (by simp)

theorem readInt32_take {buffer : List UInt8} {offset : Int} {count : Nat} {x : BitVec 32}
    (read : readInt32 (buffer.take count) offset = .ok x) : readInt32 buffer offset = .ok x := by
  obtain ⟨bytes, own, rest⟩ := Results.bind_ok.mp read
  exact Results.bind_ok.mpr ⟨bytes, readBytes_take own, rest⟩

end PqAsync
