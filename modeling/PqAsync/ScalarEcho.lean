import PqAsync.CellNulls
import PqAsync.CheckedInt
import PqAsync.GeometryWire

/-!
The encoders of booleans, floating point numbers, network addresses and eight byte hardware
addresses, and what comes back of any value of fixed form when its parameter is returned as a cell.
-/

namespace PqAsync

def newParameterBool (value : Bool) : Except WireError Parameter :=
  .ok (.binary boolOid.toNat [if value then 1 else 0])

def newParameterFloat (value : BitVec 32) : Except WireError Parameter :=
  .ok (.binary float4Oid.toNat (inMemory 4 (swap4 value true)))

def newParameterDouble (value : BitVec 64) : Except WireError Parameter :=
  .ok (.binary float8Oid.toNat (doubleMemory value))

def addressBytes (family : NetFamily) : Nat := if family = .inet then 4 else 16

def newParameterAddress (oid : Nat) (isCidr : UInt8) (value : NetAddress) :
    Except WireError Parameter :=
  let nb := addressBytes value.family
  .ok (.binary oid ((if value.family = .inet then 2 else 3) :: value.bits :: isCidr ::
    UInt8.ofNat nb :: value.ipaddr.take nb))

def newParameterCidr : NetAddress → Except WireError Parameter :=
  newParameterAddress cidrOid.toNat 1

def newParameterInet : NetAddress → Except WireError Parameter :=
  newParameterAddress inetOid.toNat 0

def newParameterMacaddr8 (value : Macaddr8) : Except WireError Parameter :=
  .ok (.binary macaddr8Oid.toNat
    [value.a, value.b, value.c, value.d, value.e, value.f, value.g, value.h])

def intervalForm (value : Interval) : List UInt8 :=
  Bytes.bigEndian 8 value.t.toNat ++
    (Bytes.bigEndian 4 value.d.toNat ++ Bytes.bigEndian 4 value.m.toNat)

def addressForm (isCidr : UInt8) (value : NetAddress) : List UInt8 :=
  (if value.family = .inet then 2 else 3) :: value.bits :: isCidr ::
    UInt8.ofNat (addressBytes value.family) :: value.ipaddr.take (addressBytes value.family)

def macaddr8Form (value : Macaddr8) : List UInt8 :=
  [value.a, value.b, value.c, value.d, value.e, value.f, value.g, value.h]

def NetAddress.arrived (value : NetAddress) : NetAddress :=
  { family := if value.family = .inet then .inet else .inet6
    bits := value.bits
    ipaddr := value.ipaddr.take (addressBytes value.family) ++
      List.replicate (16 - addressBytes value.family) 0 }

structure NetAddress.SameAddress (value read : NetAddress) : Prop where
  family : read.family = value.family
  bits : read.bits = value.bits
  ipaddr : read.ipaddr.take (addressBytes value.family) =
    value.ipaddr.take (addressBytes value.family)

theorem newParameterFloat_eq (value : BitVec 32) : newParameterFloat value =
    .ok (.binary float4Oid.toNat (Bytes.bigEndian 4 value.toNat)) := by
  rw [newParameterFloat, inMemory_swap4]

theorem newParameterDouble_eq (value : BitVec 64) : newParameterDouble value =
    .ok (.binary float8Oid.toNat (doubleForm value)) := by
  rw [newParameterDouble, doubleMemory_eq]

theorem newParameterTime_eq {value : Time} (present : value.isNull = false) :
    newParameterTime value = .ok (.binary timeOid (Bytes.bigEndian 8 value.tod.toNat)) := by
  rw [newParameterTime, present, inMemory_swap8]
  rfl

theorem newParameterInterval_eq {value : Interval} (present : value.isNull = false) :
    newParameterInterval value = .ok (.binary intervalOid (intervalForm value)) := by
  rw [newParameterInterval, present, inMemory_swap8, inMemory_swap4, inMemory_swap4]
  rfl

theorem Time.tod_ofTicks_mem (ticks : BitVec 64) : 0 ≤ (Time.ofTicks ticks).tod.toInt ∧
    (Time.ofTicks ticks).tod.toInt < usecPerDay := by
  have fits : FitsInt64 (ticks.toInt % usecPerDay) := by
    constructor <;> rw [usecPerDay] <;> omega
  rw [Time.ofTicks, toInt_ofInt_fits fits, usecPerDay]
  omega

theorem Time.tod_ofTicks_iff (tod : BitVec 64) :
    (Time.ofTicks (tod + BitVec.ofInt 64 postgresEpochUsec)).tod = tod ↔
      0 ≤ tod.toInt ∧ tod.toInt < usecPerDay := by
  constructor
  · intro same
    rw [← same]
    exact tod_ofTicks_mem _
  · rintro ⟨low, high⟩
    have sum : (tod + BitVec.ofInt 64 postgresEpochUsec).toInt = tod.toInt + postgresEpochUsec := by
      rw [usecPerDay] at high
      rw [BitVec.toInt_add, BitVec.toInt_ofInt, Int.add_bmod_bmod, postgresEpochUsec,
        Int.bmod_eq_of_le] <;> omega
    have whole : (tod.toInt + postgresEpochUsec) % usecPerDay = tod.toInt := by
      rw [usecPerDay] at high ⊢
      rw [postgresEpochUsec]
      omega
    rw [Time.ofTicks, sum, whole, BitVec.ofInt_toInt]

theorem addressBytes_le (family : NetFamily) : addressBytes family ≤ 16 := by
  rw [addressBytes]
  split <;> decide

theorem NetAddress.length_sent {value : NetAddress} (whole : value.ipaddr.length = 16) :
    (value.ipaddr.take (addressBytes value.family)).length = addressBytes value.family := by
  rw [List.length_take, whole]
  exact min_eq_left (addressBytes_le value.family)

theorem NetAddress.sameAddress_arrived_iff {value : NetAddress}
    (whole : value.ipaddr.length = 16) :
    value.SameAddress value.arrived ↔ value.family ≠ .none := by
  constructor
  · intro same none
    have family := same.family
    rw [NetAddress.arrived, none] at family
    contradiction
  · intro some
    refine ⟨?_, rfl, ?_⟩
    · rw [NetAddress.arrived]
      cases family : value.family with
      | none => contradiction
      | inet => rfl
      | inet6 => rfl
    · exact List.take_left' (NetAddress.length_sent whole)

theorem Interval.present {value : Interval} (present : value.isNull = false) :
    { value with isNull := false } = value := by
  cases value
  cases present
  rfl

section Readers

variable {buffer : List UInt8} {offset len : Int}

theorem pgvalToBool_holds {value : Bool} (present : len ≠ -1)
    (holds : Holds buffer offset [if value then 1 else 0]) :
    pgvalToBool buffer offset len = .ok value := by
  rw [pgvalToBool, if_neg present, holds.readByte]
  cases value <;> rfl

theorem pgvalToFloat_holds {value : BitVec 32} (present : len ≠ -1)
    (holds : Holds buffer offset (Bytes.bigEndian 4 value.toNat)) :
    pgvalToFloat buffer offset len = .ok value := by
  rw [pgvalToFloat, if_neg present, holds.readInt32]

theorem pgvalToTime_holds {tod : BitVec 64} (present : len ≠ -1)
    (holds : Holds buffer offset (Bytes.bigEndian 8 tod.toNat)) :
    pgvalToTime buffer offset len =
      .ok (Time.ofTicks (tod + BitVec.ofInt 64 postgresEpochUsec)) := by
  rw [pgvalToTime, if_neg present, holds.readInt64]
  rfl

theorem pgvalToInterval_holds {value : Interval} (present : len ≠ -1)
    (holds : Holds buffer offset (intervalForm value)) :
    pgvalToInterval buffer offset len = .ok { value with isNull := false } := by
  have rest : Holds buffer (offset + 8)
      (Bytes.bigEndian 4 value.d.toNat ++ Bytes.bigEndian 4 value.m.toNat) :=
    holds.after (by rw [Bytes.length_bigEndian]; rfl)
  have last : Holds buffer (offset + 12) (Bytes.bigEndian 4 value.m.toNat) := by
    have own := rest.after (show ((Bytes.bigEndian 4 value.d.toNat).length : Int) = 4 by
      rw [Bytes.length_bigEndian]; rfl)
    rwa [add_assoc] at own
  rw [pgvalToInterval, if_neg present, holds.left.readInt64, Results.ok_bind, rest.left.readInt32,
    Results.ok_bind, last.readInt32]
  rfl

theorem readAddress_holds {bytes : List UInt8} {room : Nat} (fits : bytes.length ≤ room)
    (holds : Holds buffer offset bytes) :
    readAddress buffer room bytes.length offset =
      .ok (bytes ++ List.replicate (room - bytes.length) 0) := by
  induction bytes generalizing room offset with
  | nil =>
      rw [List.length_nil, readAddress, Nat.sub_zero]
      rfl
  | cons byte bytes ih =>
      cases room with
      | zero => contradiction
      | succ room =>
          rw [List.length_cons] at fits
          rw [List.length_cons, readAddress, holds.readByte, Results.ok_bind,
            ih (Nat.le_of_succ_le_succ fits) holds.tail, Nat.succ_sub_succ]
          rfl

theorem addressBytes_signExtend (family : NetFamily) :
    ((UInt8.ofNat (addressBytes family)).toBitVec.signExtend 64).toNat = addressBytes family := by
  cases family <;> rfl

theorem pgvalToAddress_holds {isCidr : UInt8} {value : NetAddress} (present : len ≠ -1)
    (whole : value.ipaddr.length = 16) (holds : Holds buffer offset (addressForm isCidr value)) :
    pgvalToAddress buffer offset len = .ok value.arrived := by
  have bits := holds.tail
  have nb := bits.tail.tail
  have bytes := nb.tail
  simp only [add_assoc, Int.reduceAdd] at bits nb bytes
  have sent := NetAddress.length_sent whole
  have copied := readAddress_holds (sent.trans_le (addressBytes_le value.family)) bytes
  rw [sent] at copied
  rw [pgvalToAddress, if_neg present, holds.readByte, bits.readByte, nb.readByte]
  simp only [Results.ok_bind, addressBytes_signExtend, copied]
  rw [NetAddress.arrived]
  by_cases inet : value.family = .inet
  · rw [if_pos inet, if_pos inet]
    rfl
  · rw [if_neg inet, if_neg inet]
    rfl

theorem pgvalToMacaddr8_holds {value : Macaddr8} (present : len ≠ -1)
    (holds : Holds buffer offset (macaddr8Form value)) :
    pgvalToMacaddr8 buffer offset len = .ok value := by
  rw [macaddr8Form] at holds
  have b := holds.tail
  have c := b.tail
  have d := c.tail
  have e := d.tail
  have f := e.tail
  have g := f.tail
  have h := g.tail
  simp only [add_assoc, Int.reduceAdd] at b c d e f g h
  rw [pgvalToMacaddr8, if_neg present, holds.readByte, b.readByte, c.readByte, d.readByte,
    e.readByte, f.readByte, g.readByte, h.readByte]
  rfl

end Readers

inductive PlainType
  | bool
  | float
  | double
  | time
  | interval
  | cidr
  | inet
  | macaddr
  | macaddr8
  deriving DecidableEq, Repr

namespace PlainType

def pgType : PlainType → PgType
  | bool => .bool
  | float => .float
  | double => .double
  | time => .time
  | interval => .interval
  | cidr => .cidr
  | inet => .inet
  | macaddr => .macaddr
  | macaddr8 => .macaddr8

def Value (t : PlainType) : Type := t.pgType.Value

def oid : PlainType → Int
  | bool => boolOid
  | float => float4Oid
  | double => float8Oid
  | time => timeOid
  | interval => intervalOid
  | cidr => cidrOid
  | inet => inetOid
  | macaddr => macaddrOid
  | macaddr8 => macaddr8Oid

def newParameter : (t : PlainType) → t.Value → Except WireError Parameter
  | bool => newParameterBool
  | float => newParameterFloat
  | double => newParameterDouble
  | time => newParameterTime
  | interval => newParameterInterval
  | cidr => newParameterCidr
  | inet => newParameterInet
  | macaddr => newParameterMacaddr
  | macaddr8 => newParameterMacaddr8

def isNull : (t : PlainType) → t.Value → Bool
  | time, (value : Time) => value.isNull
  | interval, (value : Interval) => value.isNull
  | _, _ => false

def Formed : (t : PlainType) → t.Value → Prop
  | cidr, (value : NetAddress) => value.ipaddr.length = 16
  | inet, (value : NetAddress) => value.ipaddr.length = 16
  | _, _ => True

def form : (t : PlainType) → t.Value → List UInt8
  | bool, (value : Bool) => [if value then 1 else 0]
  | float, (value : BitVec 32) => Bytes.bigEndian 4 value.toNat
  | double, (value : BitVec 64) => doubleForm value
  | time, (value : Time) => Bytes.bigEndian 8 value.tod.toNat
  | interval, (value : Interval) => intervalForm value
  | cidr, (value : NetAddress) => addressForm 1 value
  | inet, (value : NetAddress) => addressForm 0 value
  | macaddr, (value : Macaddr) => macaddrForm value
  | macaddr8, (value : Macaddr8) => macaddr8Form value

def arrived : (t : PlainType) → t.Value → t.Value
  | time, (value : Time) => Time.ofTicks (value.tod + BitVec.ofInt 64 postgresEpochUsec)
  | cidr, (value : NetAddress) => value.arrived
  | inet, (value : NetAddress) => value.arrived
  | _, value => value

def null (host : Host) (t : PlainType) : t.Value := t.pgType.null host

def received (host : Host) (t : PlainType) (value : t.Value) : t.Value :=
  if t.isNull value then t.null host else t.arrived value

def SameFields : (t : PlainType) → t.Value → t.Value → Prop
  | time, (value : Time), (read : Time) => read.tod = value.tod
  | cidr, (value : NetAddress), (read : NetAddress) => value.SameAddress read
  | inet, (value : NetAddress), (read : NetAddress) => value.SameAddress read
  | _, value, read => read = value

/-- Both are null, or neither is and they have the same fields. -/
def Same (t : PlainType) (value read : t.Value) : Prop :=
  t.isNull read = t.isNull value ∧ (t.isNull value = false → t.SameFields value read)

def InRange : (t : PlainType) → t.Value → Prop
  | time, (value : Time) => 0 ≤ value.tod.toInt ∧ value.tod.toInt < usecPerDay
  | cidr, (value : NetAddress) => value.family ≠ .none
  | inet, (value : NetAddress) => value.family ≠ .none
  | _, _ => True

/-- A null, or a time of day that is one, an address that has a family, any other value. -/
def Kept (t : PlainType) (value : t.Value) : Prop := t.isNull value = false → t.InRange value

variable {t : PlainType} {value : t.Value}

theorem own_oid (t : PlainType) : t.oid ∈ t.pgType.ownOids := by
  cases t <;> exact List.mem_singleton.mpr rfl

theorem length_form_lt (t : PlainType) (value : t.Value) : (t.form value).length < 2 ^ 31 := by
  have address (isCidr : UInt8) (value : NetAddress) :
      (addressForm isCidr value).length < 2 ^ 31 := by
    have short := addressBytes_le value.family
    simp only [addressForm, List.length_cons, List.length_take]
    omega
  cases t with
  | bool => exact Nat.lt_of_sub_eq_succ rfl
  | float => exact (Bytes.length_bigEndian _ _).trans_lt (by decide)
  | double => exact (Bytes.length_bigEndian _ _).trans_lt (by decide)
  | time => exact (Bytes.length_bigEndian _ _).trans_lt (by decide)
  | interval =>
      change (intervalForm value).length < 2 ^ 31
      simp [intervalForm]
  | cidr => exact address 1 value
  | inet => exact address 0 value
  | macaddr => exact Nat.lt_of_sub_eq_succ rfl
  | macaddr8 => exact Nat.lt_of_sub_eq_succ rfl

theorem newParameter_null (null : t.isNull value = true) :
    t.newParameter value = .ok (newNullParameter t.oid.toNat) := by
  cases t with
  | time => exact if_pos null
  | interval => exact if_pos null
  | bool => contradiction
  | float => contradiction
  | double => contradiction
  | cidr => contradiction
  | inet => contradiction
  | macaddr => contradiction
  | macaddr8 => contradiction

theorem newParameter_form (present : t.isNull value = false) :
    t.newParameter value = .ok (.binary t.oid.toNat (t.form value)) := by
  cases t with
  | bool => rfl
  | float => exact newParameterFloat_eq value
  | double => exact newParameterDouble_eq value
  | time => exact newParameterTime_eq present
  | interval => exact newParameterInterval_eq present
  | cidr => rfl
  | inet => rfl
  | macaddr => rfl
  | macaddr8 => rfl

theorem pgval_form (host : Host) (formed : t.Formed value) (present : t.isNull value = false) :
    t.pgType.pgval host (t.form value) 0 (t.form value).length = .ok (t.arrived value) := by
  have some : ((t.form value).length : Int) ≠ -1 := by omega
  have holds := Holds.whole (t.form value)
  cases t with
  | bool => exact pgvalToBool_holds some holds
  | float => exact pgvalToFloat_holds some holds
  | double => exact pgvalToDouble_holds holds
  | time => exact pgvalToTime_holds some holds
  | interval =>
      refine (pgvalToInterval_holds some holds).trans (congrArg Except.ok ?_)
      exact Interval.present present
  | cidr => exact pgvalToAddress_holds some formed holds
  | inet => exact pgvalToAddress_holds some formed holds
  | macaddr => exact pgvalToMacaddr_holds holds
  | macaddr8 => exact pgvalToMacaddr8_holds some holds

theorem isNull_null (host : Host) (null : t.isNull value = true) :
    t.isNull (t.null host) = true := by
  cases t with
  | time => rfl
  | interval => rfl
  | bool => contradiction
  | float => contradiction
  | double => contradiction
  | cidr => contradiction
  | inet => contradiction
  | macaddr => contradiction
  | macaddr8 => contradiction

theorem isNull_arrived (present : t.isNull value = false) : t.isNull (t.arrived value) = false := by
  cases t with
  | interval => exact present
  | _ => rfl

theorem sameFields_arrived_iff (formed : t.Formed value) :
    t.SameFields value (t.arrived value) ↔ t.InRange value := by
  cases t with
  | time => exact Time.tod_ofTicks_iff _
  | cidr => exact NetAddress.sameAddress_arrived_iff formed
  | inet => exact NetAddress.sameAddress_arrived_iff formed
  | _ => exact iff_of_true rfl trivial

theorem received_of_null {host : Host} (null : t.isNull value = true) :
    t.received host value = t.null host := if_pos null

theorem received_of_present {host : Host} (present : t.isNull value = false) :
    t.received host value = t.arrived value := if_neg (Bool.not_eq_true _ ▸ present)

theorem same_received_iff (host : Host) (formed : t.Formed value) :
    t.Same value (t.received host value) ↔ t.Kept value := by
  rw [Same, Kept]
  cases null : t.isNull value with
  | true =>
      rw [received_of_null null, isNull_null host null]
      simp
  | false =>
      rw [received_of_present null, isNull_arrived null, sameFields_arrived_iff formed]
      simp

theorem formed_received (host : Host) (formed : t.Formed value) :
    t.Formed (t.received host value) := by
  have address {value : NetAddress} (whole : value.ipaddr.length = 16) :
      value.arrived.ipaddr.length = 16 := by
    have short := addressBytes_le value.family
    rw [NetAddress.arrived, List.length_append, NetAddress.length_sent whole,
      List.length_replicate]
    omega
  cases t with
  | cidr => exact address formed
  | inet => exact address formed
  | _ => exact trivial

theorem inRange_arrived (t : PlainType) (value : t.Value) : t.InRange (t.arrived value) := by
  have address (value : NetAddress) : value.arrived.family ≠ .none := by
    rw [NetAddress.arrived]
    split <;> exact NetFamily.noConfusion
  cases t with
  | time => exact Time.tod_ofTicks_mem _
  | cidr => exact address value
  | inet => exact address value
  | _ => exact trivial

theorem kept_received (host : Host) (t : PlainType) (value : t.Value) :
    t.Kept (t.received host value) := by
  intro present
  cases null : t.isNull value with
  | true =>
      rw [received_of_null null, isNull_null host null] at present
      contradiction
  | false =>
      rw [received_of_present null]
      exact inRange_arrived t value

section

variable (conversions : Conversions) (host : Host)

/-- Every cell of the oid with these bytes is read as the value, in a row and as the value of a
query. -/
structure CellReads (t : PlainType) (bytes : Option (List UInt8)) (read : t.Value) : Prop where
  row : ∀ {row : List Cell} {i : Nat}, row[i]? = some ⟨t.oid, bytes⟩ →
    rowAs conversions host (.scalar (.value t.pgType)) (initializeRow row) i = .ok read
  query : ∀ {resultStatus : ExecStatus} {errMsg : String}, resultStatus.hasValue = true →
    processQueryValueResult conversions host (.scalar (.value t.pgType)) resultStatus errMsg
      ⟨t.oid, bytes⟩ = .ok read

theorem valFromPgparam_own (t : PlainType) (val : Option (List UInt8)) (len : Int) :
    (CellType.scalar (.value t.pgType)).valFromPgparam conversions host t.oid val len =
      t.pgType.fromPointer host val len := if_pos (own_oid t)

theorem reads_null (null : t.isNull value = true) :
    CellReads conversions host t none (t.null host) := by
  have pointer (len : Int) : t.pgType.fromPointer host none len = .ok (t.null host) := by
    cases t with
    | time => rfl
    | interval => rfl
    | bool => contradiction
    | float => contradiction
    | double => contradiction
    | cidr => contradiction
    | inet => contradiction
    | macaddr => contradiction
    | macaddr8 => contradiction
  constructor
  · intro row i inRow
    exact (rowAs_null conversions host inRow rfl).trans
      ((valFromPgparam_own conversions host t none 0).trans (pointer 0))
  · intro resultStatus errMsg delivered
    exact (query_null conversions host rfl delivered).trans
      ((valFromPgparam_own conversions host t none (-1)).trans (pointer (-1)))

theorem reads_form (formed : t.Formed value) (present : t.isNull value = false) :
    CellReads conversions host t (some (t.form value)) (t.arrived value) := by
  have pointer : t.pgType.fromPointer host (some (t.form value)) (t.form value).length =
      .ok (t.arrived value) := pgval_form host formed present
  constructor
  · intro row i inRow
    exact (rowAs_value conversions host inRow rfl).trans
      ((valFromPgparam_own conversions host t _ _).trans pointer)
  · intro resultStatus errMsg delivered
    exact (query_value conversions host rfl delivered).trans
      ((valFromPgparam_own conversions host t _ _).trans pointer)

theorem parameter_reads (formed : t.Formed value) : ∃ param,
    t.newParameter value = .ok param ∧ param.oid = t.oid ∧ param.format = 1 ∧
      (∀ bytes, param.value = some bytes → param.length = bytes.length) ∧
      CellReads conversions host t param.value (t.received host value) := by
  have oid : ((t.oid.toNat : Nat) : Int) = t.oid := by cases t <;> rfl
  cases null : t.isNull value with
  | true =>
      refine ⟨_, newParameter_null null, oid, rfl, ?_, ?_⟩
      · intro bytes sent
        contradiction
      · rw [received_of_null null]
        exact reads_null conversions host null
  | false =>
      refine ⟨_, (newParameter_form null).trans
        (congrArg Except.ok (GeoType.binary_of_lt _ (length_form_lt t value))), oid, rfl, ?_, ?_⟩
      · intro bytes sent
        cases sent
        rfl
      · rw [received_of_present null]
        exact reads_form conversions host formed null

end

/-- A value whose parameter is returned is read as the same value exactly if it is in the range of
its type, and what was read is kept from then on. -/
theorem plain_returns_iff (conversions : Conversions) (host : Host) (t : PlainType)
    (value : t.Value) (formed : t.Formed value) : ∃ param read,
      t.newParameter value = .ok param ∧ param.oid = t.oid ∧ param.format = 1 ∧
      (∀ bytes, param.value = some bytes → param.length = bytes.length) ∧
      CellReads conversions host t param.value read ∧
      (t.Same value read ↔ t.Kept value) ∧
      ∃ again, t.newParameter read = .ok again ∧ again.oid = t.oid ∧
        ∃ reread, CellReads conversions host t again.value reread ∧ t.Same read reread := by
  obtain ⟨param, built, oid, format, length, reads⟩ := parameter_reads conversions host formed
  have stays := formed_received host formed
  obtain ⟨again, rebuilt, sameOid, _, _, rereads⟩ := parameter_reads conversions host stays
  exact ⟨param, t.received host value, built, oid, format, length, reads,
    same_received_iff host formed, again, rebuilt, sameOid, _, rereads,
    (same_received_iff host stays).mpr (kept_received host t value)⟩

def privateNetwork : NetAddress :=
  { family := .inet, bits := 8, ipaddr := 10 :: List.replicate 15 0 }

theorem plain_returns_network : ∃ param read, cidr.newParameter privateNetwork = .ok param ∧
    param.oid = cidr.oid ∧ param.format = 1 ∧
    (∀ bytes, param.value = some bytes → param.length = bytes.length) ∧
    CellReads noConversions epochHost cidr param.value read ∧
    (cidr.Same privateNetwork read ↔ cidr.Kept privateNetwork) ∧
    ∃ again, cidr.newParameter read = .ok again ∧ again.oid = cidr.oid ∧
      ∃ reread, CellReads noConversions epochHost cidr again.value reread ∧ cidr.Same read reread :=
  plain_returns_iff noConversions epochHost cidr privateNetwork rfl

end PlainType

end PqAsync
