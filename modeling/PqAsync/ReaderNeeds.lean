import PqAsync.CellCore
import PqAsync.Wire

/-!
The bytes that each reader needs: those of a fixed size, and those whose counts come from the
value itself.
-/

namespace PqAsync

open Results

section

variable {α β : Type}

/-- Nothing outside of the buffer, of an allocation or of an address field was touched, and no
overflow was reached, both of which are undefined. -/
def Contained (result : Except WireError α) : Prop :=
  result ≠ .error .outOfBounds ∧ result ≠ .error .overflow

structure Needs (result : Except WireError α) (required : Prop) : Prop where
  given : required → ∃ a, result = .ok a
  missing : ¬required → result = .error .outOfBounds

theorem contained_ok (a : α) : Contained (.ok a : Except WireError α) :=
  ⟨nofun, nofun⟩

theorem Needs.contained_iff {result : Except WireError α} {required : Prop}
    (needs : Needs result required) : Contained result ↔ required := by
  constructor
  · intro contained
    by_contra missing
    exact contained.1 (needs.missing missing)
  · intro given
    obtain ⟨a, read⟩ := needs.given given
    rw [read]
    exact contained_ok a

theorem Needs.required {result : Except WireError α} {required : Prop}
    (needs : Needs result required) {a : α} (read : result = .ok a) : required := by
  by_contra missing
  rw [needs.missing missing] at read
  contradiction

theorem Needs.congr {result : Except WireError α} {required other : Prop}
    (needs : Needs result required) (same : other ↔ required) : Needs result other :=
  ⟨fun given => needs.given (same.mp given), fun missing => needs.missing (mt same.mpr missing)⟩

theorem Needs.bind {first : Except WireError α} {next : α → Except WireError β}
    {required rest : Prop} (needs : Needs first required) (others : ∀ a, Needs (next a) rest) :
    Needs (first >>= next) (required ∧ rest) := by
  constructor
  · rintro ⟨given, left⟩
    obtain ⟨a, read⟩ := needs.given given
    rw [read]
    exact (others a).given left
  · intro missing
    by_cases given : required
    · obtain ⟨a, read⟩ := needs.given given
      rw [read]
      exact (others a).missing fun left => missing ⟨given, left⟩
    · rw [needs.missing given]
      rfl

theorem Needs.map {first : Except WireError α} {required : Prop} (needs : Needs first required)
    (f : α → β) : Needs (first >>= fun a => pure (f a)) required :=
  (needs.bind fun a => ⟨fun _ => ⟨f a, rfl⟩, fun never => absurd trivial never⟩).congr
    (iff_of_eq (and_true _)).symm

theorem Needs.unless {result sentinel : Except WireError α} {required : Prop}
    (needs : Needs result required) {len : Int} (present : len ≠ -1) :
    Needs (if len = -1 then sentinel else result) required := by
  rw [if_neg present]
  exact needs

theorem contained_bind {first : Except WireError α} {next : α → Except WireError β} :
    Contained (first >>= next) ↔
      Contained first ∧ ∀ a, first = .ok a → Contained (next a) := by
  cases first with
  | error failure =>
      constructor
      · rintro ⟨inside, fits⟩
        refine ⟨⟨?_, ?_⟩, ?_⟩
        · rintro ⟨⟩
          exact inside rfl
        · rintro ⟨⟩
          exact fits rfl
        · intro a read
          contradiction
      · rintro ⟨⟨inside, fits⟩, _⟩
        refine ⟨?_, ?_⟩
        · rintro ⟨⟩
          exact inside rfl
        · rintro ⟨⟩
          exact fits rfl
  | ok a =>
      constructor
      · intro contained
        refine ⟨contained_ok a, ?_⟩
        rintro _ ⟨⟩
        exact contained
      · rintro ⟨_, rest⟩
        exact rest a rfl

theorem contained_unless {result : Except WireError α} {required : Prop} {len : Int} (sentinel : α)
    (reads : Contained result ↔ required) :
    Contained (if len = -1 then .ok sentinel else result) ↔ len = -1 ∨ required := by
  by_cases absent : len = -1
  · rw [if_pos absent]
    exact iff_of_true (contained_ok sentinel) (Or.inl absent)
  · rw [if_neg absent, or_iff_right absent]
    exact reads

theorem Needs.contained_bind {first : Except WireError α} {next : α → Except WireError β}
    {required others : Prop} (needs : Needs first required)
    (rest : ∀ a, first = .ok a → (Contained (next a) ↔ others)) :
    Contained (first >>= next) ↔ required ∧ others := by
  by_cases given : required
  · obtain ⟨a, read⟩ := needs.given given
    rw [read, ok_bind, rest a read]
    exact (and_iff_right given).symm
  · rw [needs.missing given, error_bind]
    exact iff_of_false (fun contained => contained.1 rfl) (fun both => given both.1)

end

def InBuffer (buffer : List UInt8) (offset size : Int) : Prop :=
  0 ≤ offset ∧ offset + size ≤ buffer.length

section

variable {buffer : List UInt8} {val len : Int}

theorem needs_readBytes (size : Nat) : Needs (readBytes buffer val size) (InBuffer buffer val size) := by
  constructor
  · intro inside
    exact ⟨_, if_pos inside⟩
  · intro outside
    exact if_neg outside

theorem needs_readByte : Needs (readByte buffer val) (InBuffer buffer val 1) :=
  (needs_readBytes 1).map _

theorem needs_readInt16 : Needs (readInt16 buffer val) (InBuffer buffer val 2) :=
  (needs_readBytes 2).map _

theorem needs_readInt32 : Needs (readInt32 buffer val) (InBuffer buffer val 4) :=
  (needs_readBytes 4).map _

theorem needs_readInt64 : Needs (readInt64 buffer val) (InBuffer buffer val 8) :=
  (needs_readBytes 8).map _

theorem needs_readPoint : Needs (pgvalToPoint buffer val 16) (InBuffer buffer val 16) := by
  have parts := (@needs_readInt64 buffer val).bind fun x =>
    (@needs_readInt64 buffer (val + 8)).map fun y => ({ x, y } : Point)
  refine parts.congr ?_
  simp only [InBuffer]
  omega

def PgType.fixedSize : PgType → Option Nat
  | bool => some 1
  | int16 => some 2
  | int32 => some 4
  | int64 => some 8
  | float => some 4
  | double => some 8
  | money => some 8
  | time => some 8
  | timeTz => some 8
  | timestamp => some 8
  | timestampTz => some 8
  | date => some 4
  | interval => some 16
  | oid => some 4
  | macaddr => some 6
  | macaddr8 => some 8
  | point => some 16
  | line => some 24
  | lseg => some 32
  | box => some 32
  | circle => some 24
  | _ => none

theorem needs_macaddr (present : len ≠ -1) :
    Needs (pgvalToMacaddr buffer val len) (InBuffer buffer val 6) := by
  rw [pgvalToMacaddr, if_neg present]
  refine (needs_readByte.bind fun a => needs_readByte.bind fun b => needs_readByte.bind fun c =>
    needs_readByte.bind fun d => needs_readByte.bind fun e => needs_readByte.map _).congr ?_
  simp only [InBuffer]
  omega

theorem needs_macaddr8 (present : len ≠ -1) :
    Needs (pgvalToMacaddr8 buffer val len) (InBuffer buffer val 8) := by
  rw [pgvalToMacaddr8, if_neg present]
  refine (needs_readByte.bind fun a => needs_readByte.bind fun b => needs_readByte.bind fun c =>
    needs_readByte.bind fun d => needs_readByte.bind fun e => needs_readByte.bind fun f =>
      needs_readByte.bind fun g => needs_readByte.map _).congr ?_
  simp only [InBuffer]
  omega

theorem needs_interval (present : len ≠ -1) :
    Needs (pgvalToInterval buffer val len) (InBuffer buffer val 16) := by
  rw [pgvalToInterval, if_neg present]
  refine (needs_readInt64.bind fun t => needs_readInt32.bind fun d => needs_readInt32.map _).congr ?_
  simp only [InBuffer]
  omega

theorem needs_line (present : len ≠ -1) :
    Needs (pgvalToLine buffer val len) (InBuffer buffer val 24) := by
  rw [pgvalToLine, if_neg present]
  refine (needs_readInt64.bind fun a => needs_readInt64.bind fun b => needs_readInt64.map _).congr ?_
  simp only [InBuffer]
  omega

theorem needs_twoPoints {α : Type} (f : Point → Point → α) :
    Needs (do
      let a ← pgvalToPoint buffer val 16
      let b ← pgvalToPoint buffer (val + 16) 16
      return f a b) (InBuffer buffer val 32) := by
  refine (needs_readPoint.bind fun a => needs_readPoint.map (f a)).congr ?_
  simp only [InBuffer]
  omega

theorem needs_circle (present : len ≠ -1) :
    Needs (pgvalToCircle buffer val len) (InBuffer buffer val 24) := by
  rw [pgvalToCircle, if_neg present]
  refine (needs_readPoint.bind fun center => needs_readInt64.map _).congr ?_
  simp only [InBuffer]
  omega

theorem PgType.needs_fixed {host : Host} {t : PgType} {size : Nat}
    (fixed : t.fixedSize = some size) (present : len ≠ -1) :
    Needs (t.pgval host buffer val len) (InBuffer buffer val size) := by
  cases t <;> cases fixed
  case bool => exact (needs_readByte.map _).unless present
  case int16 => exact needs_readInt16.unless present
  case int32 => exact needs_readInt32.unless present
  case int64 => exact needs_readInt64.unless present
  case float => exact needs_readInt32.unless present
  case double => exact needs_readInt64.unless present
  case money => exact (needs_readInt64.map _).unless present
  case time => exact (needs_readInt64.map _).unless present
  case timeTz => exact (needs_readInt64.map _).unless present
  case timestamp => exact (needs_readInt64.map _).unless present
  case timestampTz => exact (needs_readInt64.map _).unless present
  case date => exact (needs_readInt32.map _).unless present
  case interval => exact needs_interval present
  case oid => exact needs_readInt32.unless present
  case macaddr => exact needs_macaddr present
  case macaddr8 => exact needs_macaddr8 present
  case point => exact needs_readPoint.unless present
  case line => exact needs_line present
  case lseg => exact (needs_twoPoints _).unless present
  case box => exact (needs_twoPoints _).unless present
  case circle => exact needs_circle present

end

section

variable (buffer : List UInt8) (val len : Int)

def byteAt : UInt8 := ((buffer.drop val.toNat).take 1).headD 0

def int16At : Int := (swap2 (fromMemory 16 ((buffer.drop val.toNat).take 2)) false).toInt

def int32At : Int := (swap4 (fromMemory 32 ((buffer.drop val.toNat).take 4)) false).toInt

/-- The header of a numeric, and as many digits as it counts. For the count -1 the spare digit is
written to an allocation of no size. -/
def NumericFits : Prop :=
  len = -1 ∨ InBuffer buffer val 8 ∧ int16At buffer val ≠ -1 ∧
    InBuffer buffer val (8 + 2 * (int16At buffer val).toNat)

/-- The family of an address; if it is a known one, the rest of the header, and as many bytes as
it counts, which fill the address field at most. -/
def AddressFits : Prop :=
  len = -1 ∨ InBuffer buffer val 1 ∧
    (byteAt buffer val = 2 ∨ byteAt buffer val = 3 →
      InBuffer buffer val 4 ∧ (byteAt buffer (val + 3)).toNat ≤ 16 ∧
        InBuffer buffer val (4 + (byteAt buffer (val + 3)).toNat))

def PathFits : Prop :=
  len = -1 ∨ InBuffer buffer val 5 ∧
    InBuffer buffer val (5 + 16 * (int32At buffer (val + 1)).toNat)

def PolygonFits : Prop :=
  len = -1 ∨ InBuffer buffer val 4 ∧ InBuffer buffer val (4 + 16 * (int32At buffer val).toNat)

end

section

variable {buffer : List UInt8} {val len : Int}

theorem readBytes_eq {size : Nat} {bytes : List UInt8} (read : readBytes buffer val size = .ok bytes) :
    bytes = (buffer.drop val.toNat).take size := by
  rw [readBytes] at read
  split at read
  · cases read
    rfl
  · contradiction

theorem readByte_eq {byte : UInt8} (read : readByte buffer val = .ok byte) :
    byte = byteAt buffer val := by
  obtain ⟨bytes, own, same⟩ := bind_ok.mp read
  cases same
  rw [readBytes_eq own]
  rfl

theorem readInt16_eq {x : BitVec 16} (read : readInt16 buffer val = .ok x) :
    x.toInt = int16At buffer val := by
  obtain ⟨bytes, own, same⟩ := bind_ok.mp read
  cases same
  rw [readBytes_eq own]
  rfl

theorem readInt32_eq {x : BitVec 32} (read : readInt32 buffer val = .ok x) :
    x.toInt = int32At buffer val := by
  obtain ⟨bytes, own, same⟩ := bind_ok.mp read
  cases same
  rw [readBytes_eq own]
  rfl

theorem needs_readDigits {n : Nat} : Needs (readDigits buffer n val)
    (0 < n → InBuffer buffer val (2 * n)) := by
  induction n generalizing val with
  | zero => exact ⟨fun _ => ⟨[], rfl⟩, fun never => absurd (fun none => absurd none (by omega)) never⟩
  | succ n ih =>
      refine (needs_readInt16.bind fun dval => (@ih (val + 2)).map _).congr ?_
      simp only [InBuffer]
      omega

theorem needs_readPoints {n : Nat} : Needs (readPoints buffer n val)
    (0 < n → InBuffer buffer val (16 * n)) := by
  induction n generalizing val with
  | zero => exact ⟨fun _ => ⟨[], rfl⟩, fun never => absurd (fun none => absurd none (by omega)) never⟩
  | succ n ih =>
      refine (needs_readPoint.bind fun point => (@ih (val + 16)).map _).congr ?_
      simp only [InBuffer]
      omega

theorem needs_readAddress {room nb : Nat} : Needs (readAddress buffer room nb val)
    (nb ≤ room ∧ (0 < nb → InBuffer buffer val nb)) := by
  induction room generalizing nb val with
  | zero =>
      cases nb with
      | zero => exact ⟨fun _ => ⟨_, rfl⟩, fun never => absurd ⟨le_rfl, by omega⟩ never⟩
      | succ nb => exact ⟨fun given => absurd given.1 (by omega), fun _ => rfl⟩
  | succ room ih =>
      cases nb with
      | zero => exact ⟨fun _ => ⟨_, rfl⟩, fun never => absurd ⟨by omega, by omega⟩ never⟩
      | succ nb =>
          refine (needs_readByte.bind fun byte => (@ih (val + 1) nb).map _).congr ?_
          simp only [InBuffer]
          omega

theorem contained_thrown {α : Type} {failure : WireError} (inside : failure ≠ .outOfBounds)
    (fits : failure ≠ .overflow) : Contained (.error failure : Except WireError α) := by
  refine ⟨?_, ?_⟩
  · rintro ⟨⟩
    exact inside rfl
  · rintro ⟨⟩
    exact fits rfl

theorem contained_digits {ndigits count : Int} (same : ndigits = count) {α : Type}
    (f : List Int → α) :
    Contained (do
      newDigits ndigits
      let digits ← readDigits buffer ndigits.toNat val
      return f digits) ↔
      count ≠ -1 ∧ (0 < count.toNat → InBuffer buffer val (2 * count.toNat)) := by
  subst same
  rw [newDigits]
  by_cases negative : ndigits + 1 < 0
  · rw [if_pos negative, error_bind]
    exact iff_of_true (contained_thrown (by decide) (by decide)) (by omega)
  · rw [if_neg negative]
    by_cases none : ndigits + 1 = 0
    · rw [if_pos none, error_bind]
      exact iff_of_false (fun contained => contained.1 rfl) (by omega)
    · rw [if_neg none, ok_bind, (needs_readDigits.map f).contained_iff]
      exact (and_iff_right (by omega)).symm

theorem contained_points {nb count : Int} (same : nb = count) {α : Type} (f : List Point → α) :
    Contained (do
      let points ← readPoints buffer nb.toNat val
      return f points) ↔ (0 < count.toNat → InBuffer buffer val (16 * count.toNat)) := by
  subst same
  exact (needs_readPoints.map f).contained_iff

theorem contained_numeric : Contained (pgvalToNumeric buffer val len) ↔ NumericFits buffer val len := by
  refine contained_unless _ <| (needs_readInt16.contained_bind fun ndigits read =>
    needs_readInt16.contained_bind fun weight _ => needs_readInt16.contained_bind fun sign _ =>
      needs_readInt16.contained_bind fun dscale _ =>
        contained_digits (readInt16_eq read) _).trans ?_
  simp only [InBuffer]
  omega

theorem contained_path : Contained (pgvalToPath buffer val len) ↔ PathFits buffer val len := by
  refine contained_unless _ <| (needs_readByte.contained_bind fun closed _ =>
    needs_readInt32.contained_bind fun nb read =>
      contained_points (readInt32_eq read) _).trans ?_
  simp only [InBuffer]
  omega

theorem contained_polygon :
    Contained (pgvalToPolygon buffer val len) ↔ PolygonFits buffer val len := by
  refine contained_unless _ <| (needs_readInt32.contained_bind fun nb read =>
    contained_points (readInt32_eq read) _).trans ?_
  simp only [InBuffer]
  omega

theorem addressSize_eq (nb : UInt8) : (nb.toBitVec.signExtend 64).toNat =
    nb.toNat + if 128 ≤ nb.toNat then 2 ^ 64 - 2 ^ 8 else 0 := by
  rw [BitVec.toNat_signExtend, BitVec.msb_eq_decide, BitVec.toNat_setWidth]
  have below := nb.toNat_lt
  change nb.toNat % 2 ^ 64 + _ = _
  rw [Nat.mod_eq_of_lt (by omega)]
  simp

theorem contained_copy {nb size : UInt8} (same : nb = size) {α : Type} (f : List UInt8 → α) :
    Contained (do
      let ipaddr ← readAddress buffer 16 (nb.toBitVec.signExtend 64).toNat val
      return f ipaddr) ↔
      size.toNat ≤ 16 ∧ (0 < size.toNat → InBuffer buffer val size.toNat) := by
  subst same
  rw [(needs_readAddress.map f).contained_iff, addressSize_eq]
  split
  · next large => exact iff_of_false (fun given => absurd given.1 (by omega)) (by omega)
  · rfl

theorem contained_address :
    Contained (pgvalToAddress buffer val len) ↔ AddressFits buffer val len := by
  refine contained_unless _ <| needs_readByte.contained_bind fun f read => ?_
  rw [← readByte_eq read]
  by_cases unknown : f ≠ 2 ∧ f ≠ 3
  · rw [if_pos unknown]
    exact iff_of_true (contained_thrown (by decide) (by decide))
      fun known => absurd known (not_or.mpr unknown)
  · have known : f = 2 ∨ f = 3 := not_not.mp (mt not_or.mp unknown)
    rw [if_neg unknown, forall_prop_of_true known]
    refine (needs_readByte.contained_bind fun bits _ => needs_readByte.contained_bind fun nb own =>
      contained_copy (readByte_eq own) _).trans ?_
    have inside := needs_readByte.required read
    simp only [InBuffer] at inside ⊢
    omega

theorem contained_bytes :
    Contained (if len = -1 then .ok []
      else if len < 0 then .error .lengthError
      else readBytes buffer val len.toNat) ↔ (0 ≤ len → InBuffer buffer val len) := by
  by_cases absent : len = -1
  · rw [if_pos absent]
    exact iff_of_true (contained_ok _) (by omega)
  · rw [if_neg absent]
    by_cases negative : len < 0
    · rw [if_pos negative]
      exact iff_of_true (contained_thrown (by decide) (by decide)) (by omega)
    · have length : (len.toNat : Int) = len := Int.toNat_of_nonneg (by omega)
      rw [if_neg negative, (needs_readBytes _).contained_iff, length, forall_prop_of_true (by omega)]

theorem contained_uuid :
    Contained (pgvalToUuid buffer val len) ↔ (len = 16 → InBuffer buffer val 16) := by
  rw [pgvalToUuid]
  by_cases absent : len = -1
  · rw [if_pos absent]
    exact iff_of_true (contained_ok _) (by omega)
  · rw [if_neg absent]
    by_cases other : len ≠ 16
    · rw [if_pos other]
      exact iff_of_true (contained_thrown (by decide) (by decide)) (by omega)
    · rw [if_neg other, forall_prop_of_true (not_not.mp other)]
      refine ((needs_readBytes 16).contained_bind fun bytes read => ?_).trans
        (iff_of_eq (and_true _))
      rw [dif_pos (length_readBytes read)]
      exact iff_of_true (contained_ok _) trivial

end

end PqAsync
