import PqAsync.ArrayFormat
import PqAsync.Library.Results

/-!
What the array encoders write, from what the encoder of the elements gives for each value.
-/

namespace PqAsync

variable {α : Type}

structure JaggedVector.Filled (array : JaggedVector α) : Prop where
  dims : array.dimSizes ≠ []
  values : array.values ≠ []
  count : array.values.length = array.dimSizes.prod

def writtenArray (eleOid : Nat) (dimSizes : List Nat) (elements : List (Option (List UInt8))) :
    WireArray :=
  { flags := 0, oid := BitVec.ofNat 32 eleOid,
    dims := dimSizes.map fun size => { size, lowerBound := 1 }, elements }

def Sends (newParameter : α → Except WireError Parameter) (cut : Int) (value : α)
    (payload : List UInt8) : Prop :=
  ∃ param tail, newParameter value = .ok param ∧ param.value.getD [] = payload ++ tail ∧
    param.length - cut = payload.length

def Writes (newParameter : α → Except WireError Parameter) (cut : Int) (value : α)
    (payload : List UInt8) : Prop :=
  ∃ param, newParameter value = .ok param ∧ param.length - cut = payload.length

theorem vecAppend_prefix (vec buf tail : List UInt8) :
    vecAppend vec (buf ++ tail) buf.length = .ok (vec ++ buf) := by
  rw [vecAppend, if_neg (by omega), if_pos (by simp)]
  simp

theorem appendElements_payloads {newParameter : α → Except WireError Parameter} {cut : Int}
    {values : List α} {payloads : List (List UInt8)}
    (sends : List.Forall₂ (Sends newParameter cut) values payloads) (membuf : List UInt8) :
    appendElements newParameter cut membuf values =
      .ok (membuf ++ (payloads.map some).flatMap elementBytes) := by
  induction sends generalizing membuf with
  | nil => simp [appendElements]
  | @cons value payload values payloads own others ih =>
      obtain ⟨param, tail, built, bytes, length⟩ := own
      have lengthBytes : int32Bytes (BitVec.ofInt 32 payload.length) = wireNat payload.length := by
        rw [int32Bytes_eq, BitVec.ofInt_natCast]
        rfl
      have lengthAppended : vecAppend membuf (wireNat payload.length) 4 =
          .ok (membuf ++ wireNat payload.length) := by
        have appended := vecAppend_prefix membuf (wireNat payload.length) []
        rwa [List.append_nil, length_wireNat] at appended
      rw [appendElements, built]
      simp only [bind, Except.bind, length, lengthBytes, lengthAppended, bytes, vecAppend_prefix]
      rw [ih, List.map_cons, List.flatMap_cons, elementBytes]
      simp only [List.append_assoc]

theorem vecAppend_extends {vec buf written : List UInt8} {len : Int}
    (done : vecAppend vec buf len = .ok written) : ∃ tail, written = vec ++ tail := by
  rw [vecAppend] at done
  by_cases negative : len < 0
  · rw [if_pos negative] at done
    exact absurd done (by simp)
  · rw [if_neg negative] at done
    by_cases inside : len ≤ buf.length
    · rw [if_pos inside] at done
      exact ⟨buf.take len.toNat, (Except.ok.inj done).symm⟩
    · rw [if_neg inside] at done
      exact absurd done (by simp)

theorem appendElements_extends {newParameter : α → Except WireError Parameter} {cut : Int}
    {values : List α} {membuf written : List UInt8}
    (done : appendElements newParameter cut membuf values = .ok written) :
    ∃ tail, written = membuf ++ tail := by
  induction values generalizing membuf with
  | nil =>
      cases done
      exact ⟨[], (List.append_nil _).symm⟩
  | cons value values ih =>
      rw [appendElements] at done
      obtain ⟨param, _, done⟩ := Results.bind_ok.mp done
      obtain ⟨withLength, first, done⟩ := Results.bind_ok.mp done
      obtain ⟨withBytes, second, done⟩ := Results.bind_ok.mp done
      obtain ⟨_, rfl⟩ := vecAppend_extends first
      obtain ⟨_, rfl⟩ := vecAppend_extends second
      obtain ⟨_, rfl⟩ := ih done
      exact ⟨_, by rw [List.append_assoc, List.append_assoc]⟩

theorem vecAppend_ok {vec buf written : List UInt8} {len : Int}
    (done : vecAppend vec buf len = .ok written) :
    ∃ taken : List UInt8, written = vec ++ taken ∧ len = taken.length := by
  rw [vecAppend] at done
  by_cases negative : len < 0
  · rw [if_pos negative] at done
    cases done
  rw [if_neg negative] at done
  by_cases inside : len ≤ buf.length
  · rw [if_pos inside] at done
    refine ⟨buf.take len.toNat, (Except.ok.inj done).symm, ?_⟩
    rw [List.length_take]
    omega
  · rw [if_neg inside] at done
    cases done

theorem appendElements_writes {newParameter : α → Except WireError Parameter} {cut : Int}
    {values : List α} {membuf written : List UInt8}
    (done : appendElements newParameter cut membuf values = .ok written) :
    ∃ payloads, written = membuf ++ (payloads.map some).flatMap elementBytes ∧
      List.Forall₂ (Writes newParameter cut) values payloads := by
  induction values generalizing membuf with
  | nil =>
      cases done
      exact ⟨[], (List.append_nil _).symm, .nil⟩
  | cons value values ih =>
      rw [appendElements] at done
      obtain ⟨param, built, done⟩ := Results.bind_ok.mp done
      obtain ⟨withLength, first, done⟩ := Results.bind_ok.mp done
      obtain ⟨withBytes, second, done⟩ := Results.bind_ok.mp done
      obtain ⟨payload, rfl, length⟩ := vecAppend_ok second
      obtain ⟨payloads, rfl, others⟩ := ih done
      refine ⟨payload :: payloads, ?_, .cons ⟨param, built, length⟩ others⟩
      have lengthBytes := vecAppend_prefix membuf (wireNat payload.length) []
      rw [length, int32Bytes_eq, BitVec.ofInt_natCast] at first
      rw [List.append_nil, length_wireNat] at lengthBytes
      rw [Except.ok.inj (first.symm.trans lengthBytes), List.map_cons, List.flatMap_cons,
        elementBytes]
      simp only [List.append_assoc]

theorem appendElements_first {newParameter : α → Except WireError Parameter} {cut : Int}
    {value : α} {values : List α} {membuf written : List UInt8}
    (done : appendElements newParameter cut membuf (value :: values) = .ok written) :
    ∃ own tail, newParameter value = .ok own ∧
      written = membuf ++ (wireInt32 (BitVec.ofInt 32 (own.length - cut)) ++ tail) := by
  rw [appendElements] at done
  obtain ⟨own, built, done⟩ := Results.bind_ok.mp done
  obtain ⟨withLength, first, done⟩ := Results.bind_ok.mp done
  obtain ⟨withBytes, second, done⟩ := Results.bind_ok.mp done
  have appended := vecAppend_prefix membuf (wireInt32 (BitVec.ofInt 32 (own.length - cut))) []
  rw [List.append_nil, length_wireInt32, ← int32Bytes_eq] at appended
  rw [show ((4 : Nat) : Int) = 4 from rfl, first] at appended
  obtain ⟨payload, rfl⟩ := vecAppend_extends second
  obtain ⟨rest, rfl⟩ := appendElements_extends done
  refine ⟨own, payload ++ rest, built, ?_⟩
  rw [Except.ok.inj appended, int32Bytes_eq]
  simp only [List.append_assoc]

theorem length_int32Bytes (x : BitVec 32) : (int32Bytes x).length = 4 := by
  rw [int32Bytes_eq, length_wireInt32]

theorem length_arrayHeader (dimSizes : List Nat) (eleOid : Nat) :
    (arrayHeader dimSizes eleOid).length = 12 + 8 * (toInt dimSizes.length).toNat := by
  have dims (sizes : List Nat) : (sizes.flatMap fun size =>
      int32Bytes (BitVec.ofNat 32 size) ++ int32Bytes 1).length = 8 * sizes.length := by
    induction sizes with
    | nil => rfl
    | cons size sizes ih =>
        simp only [List.flatMap_cons, List.length_append, length_int32Bytes, ih, List.length_cons]
        omega
  have bound := toInt_le dimSizes.length
  simp only [arrayHeader, List.length_append, length_int32Bytes, dims, List.length_take]
  omega

theorem arrayHeader_eq (dimSizes : List Nat) (eleOid : Nat)
    (elements : List (Option (List UInt8))) (small : dimSizes.length < 2 ^ 31) :
    arrayHeader dimSizes eleOid = (writtenArray eleOid dimSizes elements).header := by
  have count : BitVec.ofInt 32 (toInt dimSizes.length) = BitVec.ofNat 32 dimSizes.length := by
    rw [toInt_of_lt small, BitVec.ofInt_natCast]
  have taken : dimSizes.take (toInt dimSizes.length).toNat = dimSizes := by
    rw [toInt_of_lt small, Int.toNat_natCast, List.take_length]
  rw [arrayHeader, count, taken]
  simp only [int32Bytes_eq, WireArray.header, writtenArray, List.length_map, List.flatMap_map,
    wireNat]
  rfl

theorem WireArray.length_bytes (array : WireArray) :
    array.bytes.length =
      12 + 8 * array.dims.length + (array.elements.flatMap elementBytes).length := by
  simp only [WireArray.bytes, WireArray.header, List.length_append, length_wireNat,
    length_wireInt32, length_dims]
  omega

theorem length_writtenArray (eleOid : Nat) (dimSizes : List Nat)
    (elements : List (Option (List UInt8))) :
    (writtenArray eleOid dimSizes elements).bytes.length =
      12 + 8 * dimSizes.length + (elements.flatMap elementBytes).length := by
  rw [WireArray.length_bytes, writtenArray, List.length_map]

theorem length_elements (elements : List (Option (List UInt8))) :
    4 * elements.length ≤ (elements.flatMap elementBytes).length := by
  induction elements with
  | nil => simp
  | cons element elements ih =>
      rw [List.flatMap_cons, List.length_append, List.length_cons]
      cases element with
      | none =>
          rw [elementBytes, length_wireInt32]
          omega
      | some payload =>
          rw [elementBytes, List.length_append, length_wireNat]
          omega

theorem length_elements_congr {forms payloads : List (List UInt8)}
    (same : List.Forall₂ (fun form payload => form.length = payload.length) forms payloads) :
    ((forms.map some).flatMap elementBytes).length =
      ((payloads.map some).flatMap elementBytes).length := by
  induction same with
  | nil => rfl
  | cons own _ ih =>
      simp only [List.map_cons, List.flatMap_cons, List.length_append, elementBytes,
        length_wireNat, own, ih]

theorem length_payload {elements : List (Option (List UInt8))} {payload : List UInt8}
    (member : some payload ∈ elements) :
    payload.length < (elements.flatMap elementBytes).length := by
  obtain ⟨before, after, rfl⟩ := List.append_of_mem member
  simp only [List.flatMap_append, List.flatMap_cons, List.length_append, elementBytes,
    length_wireNat]
  omega

theorem writtenArray_sizes (eleOid : Nat) (dimSizes : List Nat)
    (elements : List (Option (List UInt8))) :
    (writtenArray eleOid dimSizes elements).dims.map Dimension.size = dimSizes := by
  rw [writtenArray, List.map_map]
  exact List.map_id _

theorem JaggedVector.Filled.wellFormed {array : JaggedVector α} (filled : array.Filled)
    (eleOid : Nat) {elements : List (Option (List UInt8))}
    (count : elements.length = array.values.length)
    (small : (writtenArray eleOid array.dimSizes elements).bytes.length < 2 ^ 31) :
    (writtenArray eleOid array.dimSizes elements).WellFormed := by
  rw [length_writtenArray] at small
  have elementsLength := length_elements elements
  apply WireArray.WellFormed.of_elements
  · simp only [writtenArray, List.length_map]
    omega
  · intro empty
    apply filled.values
    apply List.length_eq_zero_iff.mp
    rw [← count]
    exact List.length_eq_zero_iff.mpr empty
  · rw [writtenArray_sizes, ← filled.count]
    exact count
  · simp only [writtenArray, ne_eq, List.map_eq_nil_iff]
    exact filled.dims
  · simp only [writtenArray]
    omega
  · intro payload member
    have bound := length_payload member
    simp only [writtenArray] at bound
    omega

theorem arrayParameter_of_lt (arrEleOid : Nat) {membuf : List UInt8}
    (small : membuf.length < 2 ^ 31) :
    arrayParameter arrEleOid membuf =
      .ok { oid := arrEleOid, value := some membuf, length := membuf.length, format := 1 } := by
  rw [arrayParameter, toInt_of_lt small, newBuffer, if_neg (by omega)]
  change Except.ok _ = _
  rw [Int.toNat_natCast, List.take_length]

theorem appendElements_arrayParameter {newParameter : α → Except WireError Parameter}
    {cut : Int} {array : JaggedVector α} {payloads : List (List UInt8)}
    (sends : List.Forall₂ (Sends newParameter cut) array.values payloads)
    (eleOid arrEleOid : Nat)
    (small : (writtenArray eleOid array.dimSizes (payloads.map some)).bytes.length < 2 ^ 31) :
    (appendElements newParameter cut (arrayHeader array.dimSizes eleOid) array.values >>=
        arrayParameter arrEleOid) =
      .ok { oid := arrEleOid,
            value := some (writtenArray eleOid array.dimSizes (payloads.map some)).bytes,
            length := (writtenArray eleOid array.dimSizes (payloads.map some)).bytes.length,
            format := 1 } := by
  have dims : array.dimSizes.length < 2 ^ 31 := by
    rw [length_writtenArray] at small
    omega
  rw [appendElements_payloads sends, arrayHeader_eq _ _ (payloads.map some) dims]
  exact arrayParameter_of_lt arrEleOid small

end PqAsync
