import PqAsync.ArrayDecoding
import PqAsync.ValueCodecs

/-!
The arrays of the types whose elements travel in their binary form or as plain text bytes:
when what the array encoder writes is decoded to the array.
-/

namespace PqAsync

inductive ElementType
  | string
  | int16
  | int32
  | int64
  | oid
  | macaddr
  | point
  | path
  | polygon
  | int4range
  | int8range
  deriving DecidableEq, Repr

namespace ElementType

def Value : ElementType → Type
  | string => List UInt8
  | int16 => BitVec 16
  | int32 => BitVec 32
  | int64 => BitVec 64
  | oid => BitVec 32
  | macaddr => Macaddr
  | point => Point
  | path => Path
  | polygon => Polygon
  | int4range => Range 32
  | int8range => Range 64

def eleOid : ElementType → Nat
  | string => textOid
  | int16 => int2Oid
  | int32 => int4Oid
  | int64 => int8Oid
  | oid => oidOid
  | macaddr => macaddrOid
  | point => pointOid
  | path => pathOid
  | polygon => polygonOid
  | int4range => int4rangeOid
  | int8range => int8rangeOid

def arrEleOid : ElementType → Nat
  | string => 1009
  | int16 => 1005
  | int32 => 1007
  | int64 => 1016
  | oid => 1028
  | macaddr => 1040
  | point => 1017
  | path => 1019
  | polygon => 1027
  | int4range => 3905
  | int8range => 3927

def newParameter : (type : ElementType) → type.Value → Except WireError Parameter
  | string => newParameterString
  | int16 => newParameterInt16
  | int32 => newParameterInt32
  | int64 => newParameterInt64
  | oid => newParameterOid
  | macaddr => newParameterMacaddr
  | point => newParameterPoint
  | path => newParameterPath
  | polygon => newParameterPolygon
  | int4range => newParameterInt4range
  | int8range => newParameterInt8range

/-- The `new_parameter` of the arrays. For the ranges it is declared in `data_parameters.h` and
never defined: the list of `PQ_ASYNC_NEW_PARAMETER` ends with the circles. -/
def newParameterArray : (type : ElementType) →
    Option (JaggedVector type.Value → Except WireError Parameter)
  | string => some fun value => newParameterGenString newParameterString value textOid 1009
  | int4range => none
  | int8range => none
  | type => some fun value =>
      newParameterGen type.newParameter value type.eleOid type.arrEleOid

def unsupportedOid {α : Type} : Reader α := fun _ _ _ =>
  .error (.exception "Unsupported oid convertion.")

/-- `val_from_pgparam` in the binary format. The conversions to text and to integers from
columns of other types are left open. -/
def valFromPgparam (others : (type : ElementType) → Int → Reader type.Value) :
    (type : ElementType) → Int → Reader type.Value
  | string, column =>
      if column = 114 ∨ column = 1043 ∨ column = 1042 ∨ column = textOid then pgvalToString
      else others string column
  | int16, column => if column = int2Oid then pgvalToInt16 else others int16 column
  | int32, column => if column = int4Oid then pgvalToInt32 else others int32 column
  | int64, column => if column = int8Oid then pgvalToInt64 else others int64 column
  | oid, column => if column = oidOid then pgvalToOid else unsupportedOid
  | macaddr, column => if column = macaddrOid then pgvalToMacaddr else unsupportedOid
  | point, column => if column = pointOid then pgvalToPoint else unsupportedOid
  | path, column => if column = pathOid then pgvalToPath else unsupportedOid
  | polygon, column => if column = polygonOid then pgvalToPolygon else unsupportedOid
  | int4range, column => if column = int4rangeOid then pgvalToInt4range else unsupportedOid
  | int8range, column => if column = int8rangeOid then pgvalToInt8range else unsupportedOid

def cut : ElementType → Int
  | string => 1
  | _ => 0

def form : (type : ElementType) → type.Value → List UInt8
  | string, value => value
  | int16, value => Bytes.bigEndian 2 (BitVec.toNat value)
  | int32, value => Bytes.bigEndian 4 (BitVec.toNat value)
  | int64, value => Bytes.bigEndian 8 (BitVec.toNat value)
  | oid, value => Bytes.bigEndian 4 (BitVec.toNat value)
  | macaddr, value => macaddrForm value
  | point, value => pointForm value
  | path, value => pathForm value
  | polygon, value => polygonForm value
  | int4range, value => rangeForm 4 value
  | int8range, value => rangeForm 8 value

def sent : (type : ElementType) → type.Value → type.Value
  | polygon, value => { points := Polygon.points value }
  | _, value => value

def wireArray (type : ElementType) (value : JaggedVector type.Value) : WireArray :=
  writtenArray type.eleOid value.dimSizes ((value.values.map type.form).map some)

def ArrayDefined (type : ElementType) : Prop := type ≠ int4range ∧ type ≠ int8range

def encodeArray (type : ElementType) (value : JaggedVector type.Value) :
    Except WireError Parameter :=
  appendElements type.newParameter type.cut (arrayHeader value.dimSizes type.eleOid)
    value.values >>= arrayParameter type.arrEleOid

theorem newParameterArray_eq {type : ElementType} (defined : type.ArrayDefined) :
    type.newParameterArray = some type.encodeArray := by
  cases type with
  | int4range => exact absurd rfl defined.1
  | int8range => exact absurd rfl defined.2
  | _ => rfl

theorem newParameterArray_none {type : ElementType} (undefined : ¬type.ArrayDefined) :
    type.newParameterArray = none := by
  cases type with
  | int4range | int8range => rfl
  | _ => exact absurd ⟨by decide, by decide⟩ undefined

theorem sends_form (type : ElementType) (value : type.Value)
    (small : (type.form value).length + 1 < 2 ^ 31) :
    Sends type.newParameter type.cut value (type.form value) := by
  cases type with
  | string => exact sends_string value small
  | int16 =>
      refine sends_binary int2Oid ?_ (by omega)
      rw [form, ← inMemory_swap2 value true]
      rfl
  | int32 =>
      refine sends_binary int4Oid ?_ (by omega)
      rw [form, ← inMemory_swap4 value true]
      rfl
  | int64 =>
      refine sends_binary int8Oid ?_ (by omega)
      rw [form, ← inMemory_swap8 value true]
      rfl
  | oid =>
      refine sends_binary oidOid ?_ (by omega)
      rw [form, ← inMemory_swap4 value true]
      rfl
  | macaddr => exact sends_binary macaddrOid rfl (by omega)
  | point => exact sends_point value
  | path => exact sends_path value (Nat.lt_of_succ_lt small)
  | polygon => exact sends_polygon value (Nat.lt_of_succ_lt small)
  | int4range =>
      exact sends_binary int4rangeOid (newParameterRange_eq int4rangeOid 4 (inMemory_swap4 · true) value)
        (Nat.lt_of_succ_lt small)
  | int8range =>
      exact sends_binary int8rangeOid (newParameterRange_eq int8rangeOid 8 (inMemory_swap8 · true) value)
        (Nat.lt_of_succ_lt small)

def pgval : (type : ElementType) → Reader type.Value
  | string => pgvalToString
  | int16 => pgvalToInt16
  | int32 => pgvalToInt32
  | int64 => pgvalToInt64
  | oid => pgvalToOid
  | macaddr => pgvalToMacaddr
  | point => pgvalToPoint
  | path => pgvalToPath
  | polygon => pgvalToPolygon
  | int4range => pgvalToInt4range
  | int8range => pgvalToInt8range

theorem valFromPgparam_eleOid (others : (type : ElementType) → Int → Reader type.Value)
    (type : ElementType) : valFromPgparam others type type.eleOid = type.pgval := by
  cases type <;> rfl

theorem pgval_holds {type : ElementType} (defined : type.ArrayDefined) (value : type.Value)
    (small : (type.form value).length < 2 ^ 31) {buffer : List UInt8} {offset : Int}
    (holds : Holds buffer offset (type.form value)) :
    type.pgval buffer offset (type.form value).length = .ok (type.sent value) := by
  have present : ((type.form value).length : Int) ≠ -1 := by omega
  cases type with
  | string => exact pgvalToString_holds holds
  | int16 => exact pgvalToInt16_holds present holds
  | int32 => exact pgvalToInt32_holds present holds
  | int64 => exact pgvalToInt64_holds present holds
  | oid => exact pgvalToOid_holds present holds
  | macaddr => exact pgvalToMacaddr_holds holds
  | point =>
      have length : (pointForm value).length = 16 := length_pointForm value
      change pgvalToPoint buffer offset (pointForm value).length = _
      rw [length]
      exact pgvalToPoint_holds holds
  | path =>
      have length := length_pathForm value
      change (pathForm value).length < 2 ^ 31 at small
      have count : (Path.points value).length < 2 ^ 31 := by omega
      exact pgvalToPath_holds present count holds
  | polygon =>
      have length := length_polygonForm value
      change (polygonForm value).length < 2 ^ 31 at small
      have count : (Polygon.points value).length < 2 ^ 31 := by omega
      exact pgvalToPolygon_holds present count holds
  | int4range => exact absurd rfl defined.1
  | int8range => exact absurd rfl defined.2

theorem length_form {type : ElementType} (defined : type.ArrayDefined) {value : type.Value}
    {payload : List UInt8} (writes : Writes type.newParameter type.cut value payload)
    {buffer : List UInt8} {offset : Int}
    (read : type.pgval buffer offset payload.length = .ok value) :
    (type.form value).length = payload.length := by
  obtain ⟨param, built, length⟩ := writes
  cases type with
  | string =>
      rcases length_pgvalToString read with ⟨null, _⟩ | same
      · omega
      · exact Int.ofNat.inj same
  | int16 | int32 | int64 | oid | macaddr =>
      cases built
      exact Int.ofNat.inj length
  | point =>
      have size : (Parameter.binary pointOid (pointForm value)).length = 16 :=
        congrArg toInt (length_pointForm value)
      have same := (newParameterPoint_eq value).symm.trans built
      rw [← Except.ok.inj same, size] at length
      exact (length_pointForm value).trans (Int.ofNat.inj length)
  | path =>
      have filled := @length_fillBuffer_points _ [if Path.closed value then 1 else 0] _
        (pgvalToPath_count read) _ _ built
      have whole := length_pathForm value
      change (pathForm value).length = payload.length
      change param.length - 0 = _ at length
      rw [List.length_singleton] at filled
      omega
  | polygon =>
      have filled := @length_fillBuffer_points _ [] _ (pgvalToPolygon_count read) _ _ built
      have whole := length_polygonForm value
      change (polygonForm value).length = payload.length
      change param.length - 0 = _ at length
      rw [List.length_nil] at filled
      omega
  | int4range => exact absurd rfl defined.1
  | int8range => exact absurd rfl defined.2

theorem lengths_form {type : ElementType} (defined : type.ArrayDefined) {buffer : List UInt8}
    {values : List type.Value} {payloads : List (List UInt8)}
    (writes : List.Forall₂ (Writes type.newParameter type.cut) values payloads)
    (each : List.Forall₂ (fun value (payload : List UInt8) => ∃ offset,
      type.pgval buffer offset payload.length = .ok value) values payloads) :
    List.Forall₂ (fun form payload => form.length = payload.length) (values.map type.form)
      payloads := by
  induction writes with
  | nil => exact .nil
  | cons own _ ih =>
      obtain _ | ⟨⟨_, read⟩, others⟩ := each
      exact .cons (length_form defined own read) (ih others)

theorem length_newParameter {type : ElementType} {value : type.Value} {param : Parameter}
    (built : type.newParameter value = .ok param) : param.length < 2 ^ 31 := by
  have filled {oid size : Nat} {bytes : List UInt8}
      (done : fillBuffer oid (toInt size) bytes = .ok param) : param.length < 2 ^ 31 := by
    obtain ⟨_, _, done⟩ := Results.bind_ok.mp done
    split at done
    · cases done
      exact toInt_lt size
    · cases done
  have binary (oid : Nat) (bytes : List UInt8) : (Parameter.binary oid bytes).length < 2 ^ 31 :=
    toInt_lt bytes.length
  have text (oid : Nat) (bytes : List UInt8) : (Parameter.text oid bytes).length < 2 ^ 31 :=
    toInt_lt (bytes.length + 1)
  cases type with
  | path | polygon => exact filled built
  | string =>
      cases built
      exact text _ _
  | _ =>
      cases built
      exact binary _ _

theorem length_writes {type : ElementType} {values : List type.Value}
    {payloads : List (List UInt8)}
    (writes : List.Forall₂ (Writes type.newParameter type.cut) values payloads) :
    ∀ payload ∈ payloads, payload.length < 2 ^ 31 := by
  have cut : 0 ≤ type.cut := by cases type <;> decide
  induction writes with
  | nil => exact List.forall_mem_nil _
  | cons own _ ih =>
      obtain ⟨param, built, length⟩ := own
      have bound := length_newParameter built
      exact List.forall_mem_cons.mpr ⟨by omega, ih⟩

/-- The array is sent, and decoding what is sent gives exactly the array back and stops where
the bytes end. -/
def RoundTrips (others : (type : ElementType) → Int → Reader type.Value) (type : ElementType)
    (value : JaggedVector type.Value) : Prop :=
  ∃ encode, type.newParameterArray = some encode ∧
    ∃ param bytes, encode value = .ok param ∧ param.value = some bytes ∧
      pgvalToArrayFrom (valFromPgparam others type) bytes param.format =
        .ok (value, (bytes.length : Int))

def Boxless : (type : ElementType) → type.Value → Prop
  | polygon, value => Polygon.boundBox value = {}
  | _, _ => True

/-- The array functions of the type are defined, the bytes of the array fit the `int` that is
the length of a parameter, and no polygon has a bounding box. -/
structure ArraySendable (type : ElementType) (value : JaggedVector type.Value) : Prop where
  defined : type.ArrayDefined
  small : (type.wireArray value).bytes.length < 2 ^ 31
  boxless : ∀ element ∈ value.values, type.Boxless element

theorem sent_eq_iff (type : ElementType) (value : type.Value) :
    type.sent value = value ↔ type.Boxless value := by
  cases type with
  | polygon =>
      obtain ⟨box, points⟩ := value
      constructor
      · intro same
        exact (congrArg Polygon.boundBox same).symm
      · rintro ⟨⟩
        rfl
  | _ => exact iff_of_true rfl trivial

theorem map_sent_eq_iff (type : ElementType) (values : List type.Value) :
    values.map type.sent = values ↔ ∀ element ∈ values, type.Boxless element := by
  simp only [← sent_eq_iff]
  induction values with
  | nil => simp
  | cons value values ih => simp [ih]

theorem encodeArray_wireArray (type : ElementType) (value : JaggedVector type.Value)
    (small : (type.wireArray value).bytes.length < 2 ^ 31) :
    type.encodeArray value =
      .ok { oid := type.arrEleOid, value := some (type.wireArray value).bytes,
            length := (type.wireArray value).bytes.length, format := 1 } := by
  have sends : List.Forall₂ (Sends type.newParameter type.cut) value.values
      (value.values.map type.form) := by
    rw [List.forall₂_map_right_iff, List.forall₂_same]
    intro element member
    apply sends_form
    have inside : some (type.form element) ∈ (value.values.map type.form).map some :=
      List.mem_map_of_mem (List.mem_map_of_mem member)
    have bound := length_payload inside
    rw [wireArray, length_writtenArray] at small
    omega
  exact appendElements_arrayParameter sends type.eleOid type.arrEleOid small

theorem slots_received (others : (type : ElementType) → Int → Reader type.Value)
    {type : ElementType} (defined : type.ArrayDefined) (value : JaggedVector type.Value)
    (small : (type.wireArray value).bytes.length < 2 ^ 31) :
    ((type.wireArray value).slots.mapM fun slot =>
      valFromPgparam others type type.eleOid (type.wireArray value).bytes slot.1 slot.2) =
        .ok (value.values.map type.sent) := by
  have places := elementSlots_holds _ _ (type.wireArray value).elements_hold
  have elements : (type.wireArray value).elements = value.values.map (some ∘ type.form) := by
    rw [wireArray, writtenArray, List.map_map]
  rw [elements, List.forall₂_map_left_iff] at places
  rw [WireArray.slots, elements, Results.mapM_ok, List.forall₂_map_right_iff]
  refine List.Forall₂.flip (List.Forall₂.imp ?_ places)
  rintro element ⟨offset, length⟩ ⟨sameLength, holds⟩
  dsimp only at sameLength holds ⊢
  rw [valFromPgparam_eleOid, sameLength]
  exact pgval_holds defined element (Nat.lt_of_le_of_lt holds.length_le small) holds

theorem decodes_sent (others : (type : ElementType) → Int → Reader type.Value)
    {type : ElementType} (defined : type.ArrayDefined) (value : JaggedVector type.Value)
    (filled : value.Filled) (small : (type.wireArray value).bytes.length < 2 ^ 31) :
    pgvalToArrayFrom (valFromPgparam others type) (type.wireArray value).bytes 1 =
      .ok ({ dimSizes := value.dimSizes, values := value.values.map type.sent },
        ((type.wireArray value).bytes.length : Int)) := by
  have wellFormed : (type.wireArray value).WellFormed :=
    filled.wellFormed type.eleOid (by simp) small
  have noNull : none ∉ (type.wireArray value).elements := by
    simp [wireArray, writtenArray]
  have oid : (type.wireArray value).oid.toInt = type.eleOid := by
    cases type <;> rfl
  have sizes : (type.wireArray value).dims.map Dimension.size = value.dimSizes :=
    writtenArray_sizes _ _ _
  have run := decodesEachPayload_of_noNull _ wellFormed noNull type.Value (valFromPgparam others type)
  rw [oid, slots_received others defined value small, sizes] at run
  exact run

theorem header_oid {dimSizes : List Nat} {eleOid : Nat} {rest : List UInt8} {column : BitVec 32}
    (read : readInt32 (arrayHeader dimSizes eleOid ++ rest) 8 = .ok column) :
    column = BitVec.ofNat 32 eleOid := by
  have there : Holds (arrayHeader dimSizes eleOid ++ rest) 8
      (wireInt32 (BitVec.ofNat 32 eleOid)) := by
    have third := (Holds.whole (arrayHeader dimSizes eleOid ++ rest)).left.right.right.left
    rw [length_int32Bytes, length_int32Bytes, int32Bytes_eq] at third
    exact third
  rw [there.readInt32] at read
  exact (Except.ok.inj read).symm

theorem RoundTrips.small {others : (type : ElementType) → Int → Reader type.Value}
    {type : ElementType} (defined : type.ArrayDefined) {value : JaggedVector type.Value}
    (trips : RoundTrips others type value) : (type.wireArray value).bytes.length < 2 ^ 31 := by
  obtain ⟨encode, built, param, bytes, sent, carried, read⟩ := trips
  rw [newParameterArray_eq defined] at built
  cases built
  obtain ⟨membuf, appended, fits⟩ := Results.bind_ok.mp sent
  obtain ⟨payloads, rfl, writes⟩ := appendElements_writes appended
  obtain ⟨_, _, fits⟩ := Results.bind_ok.mp fits
  cases fits
  cases carried
  obtain ⟨column, dims, columnRead, elementsRead⟩ := pgvalToArrayFrom_ok read
  obtain rfl := header_oid (readInt32_take columnRead)
  have header : (12 + 8 * value.dimSizes.length : Int) =
      (arrayHeader value.dimSizes type.eleOid).length := by
    rw [length_arrayHeader, toInt_of_lt dims]
    push_cast
    rfl
  rw [header, writes.length_eq] at elementsRead
  obtain ⟨reached, each⟩ :=
    readElements_reaches payloads (length_writes writes) _ elementsRead
  have column : (BitVec.ofNat 32 type.eleOid).toInt = type.eleOid := by cases type <;> rfl
  simp only [column, valFromPgparam_eleOid] at each
  have forms := length_elements_congr (lengths_form defined writes each)
  have whole := length_writtenArray type.eleOid value.dimSizes ((value.values.map type.form).map some)
  change (type.wireArray value).bytes.length = _ at whole
  rw [forms] at whole
  have written : (type.wireArray value).bytes.length =
      (arrayHeader value.dimSizes type.eleOid ++ (payloads.map some).flatMap elementBytes).length := by
    rw [List.length_append]
    omega
  have bound := toInt_lt (arrayHeader value.dimSizes type.eleOid ++
    (payloads.map some).flatMap elementBytes).length
  rw [List.length_take] at reached
  omega

/-- An array comes back exactly when it can be sent. -/
theorem roundTrips_iff (others : (type : ElementType) → Int → Reader type.Value)
    (type : ElementType) (value : JaggedVector type.Value) (filled : value.Filled) :
    RoundTrips others type value ↔ type.ArraySendable value := by
  constructor
  · intro trips
    by_cases defined : type.ArrayDefined
    · have small := trips.small defined
      refine ⟨defined, small, ?_⟩
      obtain ⟨encode, built, param, bytes, sent, carried, read⟩ := trips
      rw [newParameterArray_eq defined] at built
      cases built
      rw [encodeArray_wireArray type value small] at sent
      cases sent
      cases carried
      rw [decodes_sent others defined value filled small] at read
      have same := congrArg (fun done => done.1.values) (Except.ok.inj read)
      exact (map_sent_eq_iff type value.values).mp same
    · obtain ⟨encode, built, _⟩ := trips
      rw [newParameterArray_none defined] at built
      cases built
  · rintro ⟨defined, small, boxless⟩
    refine ⟨type.encodeArray, newParameterArray_eq defined, _, (type.wireArray value).bytes,
      encodeArray_wireArray type value small, rfl, ?_⟩
    rw [decodes_sent others defined value filled small,
      (map_sent_eq_iff type value.values).mpr boxless]

def oneAndEmpty : JaggedVector (Value string) := { dimSizes := [2, 1], values := [[49], []] }

theorem roundTrips_iff_oneAndEmpty :
    RoundTrips (fun _ _ => unsupportedOid) string oneAndEmpty ↔ string.ArraySendable oneAndEmpty :=
  roundTrips_iff _ string oneAndEmpty ⟨by decide, by decide, rfl⟩

def oneRange : JaggedVector (Value int4range) :=
  { dimSizes := [1], values := [{ flags := 2, lb := 1, ub := 5 }] }

theorem range_array_not_sent :
    oneRange.Filled ∧ int4range.newParameterArray = none ∧
      ∀ others, ¬RoundTrips others int4range oneRange := by
  refine ⟨⟨by decide, by decide, rfl⟩, rfl, ?_⟩
  rintro others ⟨encode, defined, _⟩
  cases defined

end ElementType

end PqAsync
