import PqAsync.ArrayEncoding
import PqAsync.Gregorian

/-!
Arrays of the types that have a null value. The parameter of a null value has the length 0,
which the array encoder copies, so that a null is written as an empty payload.
-/

namespace PqAsync

section

variable {α : Type} (newParameter : α → Except WireError Parameter) (isNull : α → Bool)

/-- An array-format reader finds a NULL at each null value and the bytes of its own parameter
at each other one. -/
def WritesNulls (eleOid arrEleOid : Nat) (value : JaggedVector α) : Prop :=
  ∃ param bytes array, newParameterGen newParameter value eleOid arrEleOid = .ok param ∧
    param.value = some bytes ∧ parseArray bytes = some array ∧
    array.dims.map Dimension.size = value.dimSizes ∧
    List.Forall₂ (fun element written =>
      if isNull element then written = none
      else ∃ own, newParameter element = .ok own ∧ written = own.value)
      value.values array.elements

structure NullEncoder (width : Nat) : Prop where
  small : width < 2 ^ 31
  null : ∀ {element}, isNull element → ∃ oid, newParameter element = .ok (newNullParameter oid)
  binary : ∀ {element param}, isNull element = false → newParameter element = .ok param →
    ∃ oid bytes, param = .binary oid bytes ∧ bytes.length = width

variable {newParameter isNull}

theorem NullEncoder.sends_null {width : Nat} (encoder : NullEncoder newParameter isNull width)
    {element : α} (null : isNull element) : Sends newParameter 0 element [] := by
  obtain ⟨oid, built⟩ := encoder.null null
  exact ⟨newNullParameter oid, [], built, rfl, rfl⟩

theorem NullEncoder.sends_binary {width : Nat} (encoder : NullEncoder newParameter isNull width)
    {element : α} {own : Parameter} (present : isNull element = false)
    (built : newParameter element = .ok own) :
    ∃ bytes, own.value = some bytes ∧ bytes.length = width ∧
      Sends newParameter 0 element bytes := by
  obtain ⟨oid, bytes, rfl, length⟩ := encoder.binary present built
  refine ⟨bytes, rfl, length, .binary oid bytes, [], built, ?_, ?_⟩
  · exact (List.append_nil _).symm
  · have small := encoder.small
    rw [Parameter.binary, toInt_of_lt (by omega)]
    exact Int.sub_zero _

theorem length_written (elements : List (Option (List UInt8))) :
    (((elements.map fun element => element.getD []).map some).flatMap elementBytes).length =
      (elements.flatMap elementBytes).length := by
  induction elements with
  | nil => rfl
  | cons element elements ih =>
      simp only [List.map_cons, List.flatMap_cons, List.length_append, ih]
      cases element with
      | none => simp [elementBytes]
      | some payload => rfl

theorem length_elements_width {width : Nat} (payloads : List (List UInt8))
    (widths : ∀ payload ∈ payloads, payload.length = width) :
    ((payloads.map some).flatMap elementBytes).length = (4 + width) * payloads.length := by
  induction payloads with
  | nil => rfl
  | cons payload payloads ih =>
      have parts := List.forall_mem_cons.mp widths
      rw [List.map_cons, List.flatMap_cons, List.length_append, ih parts.2, elementBytes,
        List.length_append, length_wireNat, parts.1, List.length_cons]
      ring

theorem arrayParameter_length {arrEleOid : Nat} {membuf bytes : List UInt8} {param : Parameter}
    (sent : arrayParameter arrEleOid membuf = .ok param) (value : param.value = some bytes) :
    bytes.length < 2 ^ 31 := by
  rw [arrayParameter] at sent
  obtain ⟨_, _, sent⟩ := Results.bind_ok.mp sent
  cases sent
  cases value
  have bound : toInt membuf.length < 2 ^ 31 := BitVec.toInt_lt
  rw [List.length_take]
  omega

theorem WritesNulls.parts {width : Nat} (encoder : NullEncoder newParameter isNull width)
    {eleOid arrEleOid : Nat} {value : JaggedVector α} (filled : value.Filled)
    (writes : WritesNulls newParameter isNull eleOid arrEleOid value) :
    ∃ payloads,
      (writtenArray eleOid value.dimSizes (payloads.map some)).bytes.length < 2 ^ 31 ∧
      List.Forall₂ (fun element payload => isNull element = false ∧
        (∃ own, newParameter element = .ok own) ∧ List.length payload = width)
        value.values payloads := by
  obtain ⟨param, bytes, array, sent, bytesEq, parsed, dims, elements⟩ := writes
  obtain ⟨membuf, appended, fits⟩ := Results.bind_ok.mp sent
  have short := arrayParameter_length fits bytesEq
  have dimsLength := congrArg List.length dims
  rw [List.length_map] at dimsLength
  rw [length_parseArray parsed, WireArray.length_bytes, dimsLength, ← length_written,
    ← length_writtenArray eleOid] at short
  have sends : List.Forall₂ (Sends newParameter 0) value.values
      (array.elements.map fun element => element.getD []) := by
    rw [List.forall₂_map_right_iff]
    refine List.Forall₂.imp ?_ elements
    intro element written own
    by_cases null : isNull element
    · rw [if_pos null] at own
      rw [own]
      exact encoder.sends_null null
    · rw [if_neg null] at own
      obtain ⟨param, done, rfl⟩ := own
      obtain ⟨payload, payloadEq, _, sends⟩ :=
        encoder.sends_binary (Bool.eq_false_iff.mpr null) done
      rw [payloadEq]
      exact sends
  have written := appendElements_arrayParameter sends eleOid arrEleOid short
  have same := Except.ok.inj (sent.symm.trans written)
  rw [same] at bytesEq
  have count : ((array.elements.map fun element => element.getD []).map some).length =
      value.values.length := by
    rw [List.length_map, ← sends.length_eq]
  have read := parseArray_bytes _ (filled.wellFormed eleOid count short)
  rw [Option.some.inj bytesEq, parsed] at read
  have allPresent : array.elements = (array.elements.map fun element => element.getD []).map some :=
    congrArg WireArray.elements (Option.some.inj read)
  refine ⟨array.elements.map fun element : Option (List UInt8) => element.getD [], short, ?_⟩
  rw [allPresent, List.forall₂_map_right_iff] at elements
  refine List.Forall₂.imp ?_ elements
  intro element payload own
  by_cases null : isNull element
  · rw [if_pos null] at own
    exact absurd own (by simp)
  · rw [if_neg null] at own
    obtain ⟨param, done, value⟩ := own
    obtain ⟨payload', payloadEq, length, _⟩ :=
      encoder.sends_binary (Bool.eq_false_iff.mpr null) done
    rw [← value] at payloadEq
    rw [Option.some.inj payloadEq]
    exact ⟨Bool.eq_false_iff.mpr null, ⟨param, done⟩, length⟩

theorem writesNulls_generic {width : Nat} (encoder : NullEncoder newParameter isNull width)
    (eleOid arrEleOid : Nat) (value : JaggedVector α) (filled : value.Filled) :
    WritesNulls newParameter isNull eleOid arrEleOid value ↔
      (∀ element ∈ value.values, isNull element = false) ∧
      (∀ element ∈ value.values, ∃ own, newParameter element = .ok own) ∧
      12 + 8 * value.dimSizes.length + (4 + width) * value.values.length < 2 ^ 31 := by
  constructor
  · intro writes
    obtain ⟨payloads, short, each⟩ := writes.parts encoder filled
    obtain ⟨present, others⟩ := (List.forall₂_and_left _ _).mp each
    obtain ⟨built, lengths⟩ := (List.forall₂_and_left _ _).mp others
    have widths : ∀ payload ∈ payloads, payload.length = width := by
      intro payload member
      obtain ⟨element, length⟩ := Results.forall₂_right lengths member
      exact length
    rw [length_writtenArray, length_elements_width payloads widths, ← each.length_eq] at short
    exact ⟨present, built, short⟩
  · rintro ⟨present, built, short⟩
    have each : List.Forall₂ (fun element other => ∃ own, newParameter other = .ok own ∧
        (isNull element = false ∧ newParameter element = .ok own ∧
          ∃ bytes, own.value = some bytes ∧ bytes.length = width ∧
            Sends newParameter 0 element bytes)) value.values value.values := by
      rw [List.forall₂_same]
      intro element member
      obtain ⟨own, done⟩ := built element member
      obtain ⟨bytes, sends⟩ := encoder.sends_binary (present element member) done
      exact ⟨own, done, present element member, done, bytes, sends⟩
    obtain ⟨owns, _, each⟩ := Results.exists_mapM each
    have sends : List.Forall₂ (Sends newParameter 0) value.values
        (owns.map fun own => own.value.getD []) := by
      rw [List.forall₂_map_right_iff]
      refine List.Forall₂.imp ?_ each
      rintro element own ⟨_, _, bytes, bytesEq, _, sends⟩
      rw [bytesEq]
      exact sends
    have widths : ∀ payload ∈ owns.map fun own => own.value.getD [], payload.length = width := by
      intro payload member
      obtain ⟨own, inside, rfl⟩ := List.mem_map.mp member
      obtain ⟨element, _, _, bytes, bytesEq, length, _⟩ := Results.forall₂_right each inside
      rw [bytesEq]
      exact length
    have size : (writtenArray eleOid value.dimSizes
        ((owns.map fun own => own.value.getD []).map some)).bytes.length < 2 ^ 31 := by
      rw [length_writtenArray, length_elements_width _ widths, ← sends.length_eq]
      exact short
    have count : ((owns.map fun own => own.value.getD []).map some).length =
        value.values.length := by
      rw [List.length_map, ← sends.length_eq]
    refine ⟨_, _, _, appendElements_arrayParameter sends eleOid arrEleOid size, rfl,
      parseArray_bytes _ (filled.wellFormed eleOid count size), writtenArray_sizes _ _ _, ?_⟩
    rw [writtenArray, List.forall₂_map_right_iff, List.forall₂_map_right_iff]
    refine List.Forall₂.imp ?_ each
    rintro element own ⟨present, done, bytes, bytesEq, _, _⟩
    rw [if_neg (by rw [present]; decide)]
    refine ⟨own, done, ?_⟩
    rw [bytesEq]
    rfl

end

inductive NullableType
  | time
  | timeTz
  | timestamp
  | timestampTz
  | date
  | interval
  deriving DecidableEq, Repr

namespace NullableType

def Value : NullableType → Type
  | time => Time
  | timeTz => TimeTz
  | timestamp => Timestamp
  | timestampTz => TimestampTz
  | date => Date
  | interval => Interval

def isNull : (type : NullableType) → type.Value → Bool
  | time => Time.isNull
  | timeTz => TimeTz.isNull
  | timestamp => Timestamp.isNull
  | timestampTz => TimestampTz.isNull
  | date => Date.isNull
  | interval => Interval.isNull

def newParameter (calendar : Calendar) :
    (type : NullableType) → type.Value → Except WireError Parameter
  | time => newParameterTime
  | timeTz => newParameterTimeTz
  | timestamp => newParameterTimestamp calendar
  | timestampTz => newParameterTimestampTz calendar
  | date => newParameterDate calendar
  | interval => newParameterInterval

def eleOid : NullableType → Nat
  | time => timeOid
  | timeTz => timetzOid
  | timestamp => timestampOid
  | timestampTz => timestamptzOid
  | date => dateOid
  | interval => intervalOid

def arrEleOid : NullableType → Nat
  | time => 1183
  | timeTz => 1270
  | timestamp => 1115
  | timestampTz => 1185
  | date => 1182
  | interval => 1187

def width : NullableType → Nat
  | time => 8
  | timeTz => 12
  | timestamp => 8
  | timestampTz => 8
  | date => 4
  | interval => 16

theorem newParameter_null (calendar : Calendar) (type : NullableType) {element : type.Value}
    (null : type.isNull element) :
    type.newParameter calendar element = .ok (newNullParameter type.eleOid) := by
  cases type <;> exact if_pos null

theorem newParameter_binary (calendar : Calendar) (type : NullableType) {element : type.Value}
    {param : Parameter} (present : type.isNull element = false)
    (built : type.newParameter calendar element = .ok param) :
    ∃ bytes, param = .binary type.eleOid bytes ∧ bytes.length = type.width := by
  have notNull : ¬ type.isNull element = true := by
    rw [present]
    decide
  cases type with
  | time =>
      cases (if_neg notNull).symm.trans built
      exact ⟨_, rfl, by simp [inMemory, width]⟩
  | timeTz =>
      cases (if_neg notNull).symm.trans built
      exact ⟨_, rfl, by simp [inMemory, width]⟩
  | timestamp =>
      have done := (if_neg notNull).symm.trans built
      obtain ⟨ticks, _, done⟩ := Results.bind_ok.mp done
      obtain ⟨val, _, done⟩ := Results.bind_ok.mp done
      cases done
      exact ⟨_, rfl, by simp [inMemory, width]⟩
  | timestampTz =>
      have done := (if_neg notNull).symm.trans built
      obtain ⟨ticks, _, done⟩ := Results.bind_ok.mp done
      obtain ⟨val, _, done⟩ := Results.bind_ok.mp done
      cases done
      exact ⟨_, rfl, by simp [inMemory, width]⟩
  | date =>
      have done := (if_neg notNull).symm.trans built
      obtain ⟨ticks, _, done⟩ := Results.bind_ok.mp done
      obtain ⟨val, _, done⟩ := Results.bind_ok.mp done
      cases done
      exact ⟨_, rfl, by simp [inMemory, width]⟩
  | interval =>
      cases (if_neg notNull).symm.trans built
      exact ⟨_, rfl, by simp [inMemory, width]⟩

theorem nullEncoder (calendar : Calendar) (type : NullableType) :
    NullEncoder (type.newParameter calendar) type.isNull type.width := by
  constructor
  · cases type <;> decide
  · intro element null
    exact ⟨_, newParameter_null calendar type null⟩
  · intro element param present built
    exact ⟨_, newParameter_binary calendar type present built⟩

/-- `new_parameter` of the arrays of a type writes a NULL at each null value exactly when there
is none, each value has a parameter of its own and the array fits one. -/
theorem writesNulls_iff (calendar : Calendar) (type : NullableType)
    (value : JaggedVector type.Value) (filled : value.Filled) :
    WritesNulls (type.newParameter calendar) type.isNull type.eleOid type.arrEleOid value ↔
      (∀ element ∈ value.values, type.isNull element = false) ∧
      (∀ element ∈ value.values, ∃ own, type.newParameter calendar element = .ok own) ∧
      12 + 8 * value.dimSizes.length + (4 + type.width) * value.values.length < 2 ^ 31 :=
  writesNulls_generic (nullEncoder calendar type) type.eleOid type.arrEleOid value filled

def nullTime : JaggedVector (Value time) :=
  { dimSizes := [1], values := [({ isNull := true, tod := 0 } : Time)] }

theorem nullTime_filled : nullTime.Filled := ⟨List.cons_ne_nil _ _, List.cons_ne_nil _ _, rfl⟩

theorem writesNulls_iff_nullTime :
    WritesNulls (time.newParameter gregorian) time.isNull timeOid 1183 nullTime ↔
      (∀ element ∈ nullTime.values, time.isNull element = false) ∧
      (∀ element ∈ nullTime.values, ∃ own, time.newParameter gregorian element = .ok own) ∧
      12 + 8 * 1 + (4 + 8) * 1 < 2 ^ 31 :=
  writesNulls_iff gregorian time nullTime nullTime_filled

def nullTimeBytes : List UInt8 :=
  [0, 0, 0, 1, 0, 0, 0, 0, 0, 0, 4, 59, 0, 0, 0, 1, 0, 0, 0, 1, 0, 0, 0, 0]

theorem nullTime_sent : newParameterGen (time.newParameter gregorian) nullTime timeOid 1183 =
    .ok { oid := 1183, value := some nullTimeBytes, length := 24, format := 1 } := rfl

theorem nullTime_parsed : (parseArray nullTimeBytes).map WireArray.elements = some [some []] :=
  rfl

theorem null_time_empty :
    nullTime.Filled ∧ (parseArray nullTimeBytes).map WireArray.elements = some [some []] ∧
      ¬ WritesNulls (time.newParameter gregorian) time.isNull timeOid 1183 nullTime := by
  refine ⟨nullTime_filled, nullTime_parsed, ?_⟩
  rintro ⟨param, bytes, array, sent, value, parsed, dims, elements⟩
  rw [nullTime_sent] at sent
  cases sent
  cases value
  have read := nullTime_parsed
  rw [parsed] at read
  rw [Option.some.inj read] at elements
  cases elements with
  | cons own others =>
      have missing : (some [] : Option (List UInt8)) = none := own
      cases missing

end NullableType

end PqAsync
