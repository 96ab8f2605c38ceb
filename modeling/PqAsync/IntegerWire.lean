import PqAsync.CellCore
import PqAsync.ValueCodecs

/-!
The wire form of the integers: what is sent for each of them is its two's complement, the most
significant byte first, and the readers and `new_parameter` are inverse to each other.
-/

namespace PqAsync

def newParameterMoney (value : Money) : Except WireError Parameter :=
  .ok (.binary cashOid.toNat (inMemory 8 (swap8 value.val true)))

def twosComplement (size : Nat) (number : Int) : List UInt8 :=
  Bytes.bigEndian size (number % 256 ^ size).toNat

/-- A kind of value that is a number of `size` bytes. `received` is what arrives of a value. -/
structure IntegerCodec {α : Type} (size oid : Nat) (number : α → Int) (received : α → α)
    (newParameter : α → Except WireError Parameter) (pgval : Reader α) : Prop where
  sends (value : α) : newParameter value =
    .ok { oid, value := some (twosComplement size (number value)), length := size, format := 1 }
  receives {value : α} {buffer : List UInt8} {val : Int}
    (holds : Holds buffer val (twosComplement size (number value))) :
    pgval buffer val size = .ok (received value)
  sendsBack {bytes buffer : List UInt8} {val : Int} (length : bytes.length = size)
    (holds : Holds buffer val bytes) :
    ∃ value, pgval buffer val size = .ok value ∧
      newParameter value = .ok { oid, value := some bytes, length := size, format := 1 }

@[simp] theorem length_twosComplement (size : Nat) (number : Int) :
    (twosComplement size number).length = size := Bytes.length_bigEndian _ _

theorem twosComplement_toNat {size w : Nat} (width : w = 8 * size) (x : BitVec w) :
    twosComplement size x.toNat = Bytes.bigEndian size x.toNat := by
  have small : (x.toNat : Int) < 256 ^ size := by exact_mod_cast toNat_lt_of_width width x
  rw [twosComplement, Int.emod_eq_of_lt (by omega) small, Int.toNat_natCast]

theorem twosComplement_toInt {size w : Nat} (width : w = 8 * size) (x : BitVec w) :
    twosComplement size x.toInt = Bytes.bigEndian size x.toNat := by
  have modulus : (256 : Int) ^ size = (2 ^ w : Nat) := by
    rw [width, Nat.pow_mul]
    norm_cast
  have congr : x.toInt % 256 ^ size = (x.toNat : Int) % 256 ^ size := by
    rw [modulus, BitVec.toInt_eq_toNat_bmod, Int.bmod_emod]
  rw [← twosComplement_toNat width x, twosComplement, congr]
  rfl

theorem exists_bigEndian {size w : Nat} (width : w = 8 * size) {bytes : List UInt8}
    (length : bytes.length = size) : ∃ x : BitVec w, bytes = Bytes.bigEndian size x.toNat := by
  have reversed := inMemory_fromMemory size width bytes.reverse (by rw [List.length_reverse, length])
  refine ⟨fromMemory w bytes.reverse, ?_⟩
  rw [Bytes.bigEndian]
  change bytes = (inMemory size (fromMemory w bytes.reverse)).reverse
  rw [reversed, List.reverse_reverse]

theorem integerCodec {α : Type} {size w oid : Nat} (width : w = 8 * size) (small : size < 2 ^ 31)
    (raw : α → BitVec w) (make : BitVec w → α) (raw_make : ∀ x, raw (make x) = x)
    {number : α → Int}
    (number_eq : ∀ value, twosComplement size (number value) =
      Bytes.bigEndian size (raw value).toNat)
    {newParameter : α → Except WireError Parameter} {pgval : Reader α}
    (writes : ∀ value, newParameter value =
      .ok (.binary oid (Bytes.bigEndian size (raw value).toNat)))
    (reads : ∀ {x : BitVec w} {buffer : List UInt8} {val : Int},
      Holds buffer val (Bytes.bigEndian size x.toNat) → pgval buffer val size = .ok (make x)) :
    IntegerCodec size oid number (fun value => make (raw value)) newParameter pgval := by
  have sent (x : BitVec w) : Parameter.binary oid (Bytes.bigEndian size x.toNat) =
      { oid, value := some (Bytes.bigEndian size x.toNat), length := size, format := 1 } := by
    rw [Parameter.binary, Bytes.length_bigEndian, toInt_of_lt small]
  constructor
  · intro value
    rw [writes, sent, number_eq]
  · intro value buffer val holds
    rw [number_eq] at holds
    exact reads holds
  · intro bytes buffer val length holds
    obtain ⟨x, rfl⟩ := exists_bigEndian width length
    refine ⟨make x, reads holds, ?_⟩
    rw [writes, raw_make, sent]

theorem pgvalToMoney_holds {fracDigits : Nat} {buffer : List UInt8} {val len : Int}
    {x : BitVec 64} (present : len ≠ -1) (holds : Holds buffer val (Bytes.bigEndian 8 x.toNat)) :
    pgvalToMoney fracDigits buffer val len = .ok { val := x, fracDigits } := by
  rw [pgvalToMoney, if_neg present, holds.readInt64]
  rfl

theorem moneyCodec (fracDigits : Nat) :
    IntegerCodec 8 cashOid.toNat (fun value => value.val.toInt)
      (fun value => { value with fracDigits }) newParameterMoney (pgvalToMoney fracDigits) := by
  have raw (value : Money) : twosComplement 8 value.val.toInt =
      Bytes.bigEndian 8 value.val.toNat := twosComplement_toInt (w := 64) rfl value.val
  have writes (value : Money) : newParameterMoney value =
      .ok (.binary cashOid.toNat (Bytes.bigEndian 8 value.val.toNat)) := by
    rw [newParameterMoney, inMemory_swap8]
  have reads {x : BitVec 64} {buffer : List UInt8} {val : Int}
      (holds : Holds buffer val (Bytes.bigEndian 8 x.toNat)) :
      pgvalToMoney fracDigits buffer val (8 : Nat) = .ok { val := x, fracDigits } :=
    pgvalToMoney_holds (by decide) holds
  exact integerCodec (show 64 = 8 * 8 from rfl) (by decide) Money.val _ (fun _ => rfl) raw writes
    reads

/-- An `oid` has no sign; the digits behind the point of a received amount are the locale's. -/
theorem integer_codecs (fracDigits : Nat) :
    IntegerCodec 2 int2Oid BitVec.toInt id newParameterInt16 pgvalToInt16 ∧
    IntegerCodec 4 int4Oid BitVec.toInt id newParameterInt32 pgvalToInt32 ∧
    IntegerCodec 8 int8Oid BitVec.toInt id newParameterInt64 pgvalToInt64 ∧
    IntegerCodec 4 oidOid (fun value => value.toNat) id newParameterOid pgvalToOid ∧
    IntegerCodec 8 cashOid.toNat (fun value => value.val.toInt)
      (fun value => { value with fracDigits }) newParameterMoney (pgvalToMoney fracDigits) := by
  refine ⟨?_, ?_, ?_, ?_, ?_⟩
  · refine integerCodec rfl (by decide) id id (fun _ => rfl) (twosComplement_toInt rfl) ?_ ?_
    · intro value
      rw [newParameterInt16, inMemory_swap2]
      rfl
    · intro x buffer val holds
      exact pgvalToInt16_holds (by decide) holds
  · refine integerCodec rfl (by decide) id id (fun _ => rfl) (twosComplement_toInt rfl) ?_ ?_
    · intro value
      rw [newParameterInt32, inMemory_swap4]
      rfl
    · intro x buffer val holds
      exact pgvalToInt32_holds (by decide) holds
  · refine integerCodec rfl (by decide) id id (fun _ => rfl) (twosComplement_toInt rfl) ?_ ?_
    · intro value
      rw [newParameterInt64, inMemory_swap8]
      rfl
    · intro x buffer val holds
      exact pgvalToInt64_holds (by decide) holds
  · refine integerCodec rfl (by decide) id id (fun _ => rfl) (twosComplement_toNat rfl) ?_ ?_
    · intro value
      rw [newParameterOid, inMemory_swap4]
      rfl
    · intro x buffer val holds
      exact pgvalToOid_holds (by decide) holds
  · exact moneyCodec fracDigits

end PqAsync
