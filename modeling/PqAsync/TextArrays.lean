import PqAsync.ArrayDecoding
import PqAsync.ValueCodecs

/-!
Arrays of the types whose scalar parameter is text. The array encoder copies that text with
its terminator into an array that is announced as binary.
-/

namespace PqAsync

structure Uuid where
  bytes : List UInt8
  size : bytes.length = 16
  deriving DecidableEq

structure CString where
  text : List UInt8
  noTerminator : 0 ∉ text
  deriving DecidableEq

section

-- `md::hex_to_str`, which is not part of the source
variable (hexToStr : List UInt8 → List UInt8)

def uuidText (value : Uuid) : List UInt8 :=
  hexToStr (value.bytes.take 4) ++ (45 :: (hexToStr ((value.bytes.drop 4).take 2) ++
    (45 :: (hexToStr ((value.bytes.drop 6).take 2) ++
      (45 :: (hexToStr ((value.bytes.drop 8).take 2) ++
        (45 :: hexToStr ((value.bytes.drop 10).take 6))))))))

def newParameterUuid (value : Uuid) : Except WireError Parameter :=
  .ok (.text 2950 (uuidText hexToStr value))

/-- The text starts with a backslash and an `x`. -/
def newParameterBytea (value : List UInt8) : Except WireError Parameter :=
  .ok (.text 17 (92 :: 120 :: hexToStr value))

end

def newParameterCString (value : CString) : Except WireError Parameter :=
  .ok (.text 25 value.text)

def emptyUuid : Uuid := { bytes := List.replicate 16 0, size := rfl }

def pgvalToUuid : Reader Uuid := fun buffer val len =>
  if len = -1 then .ok emptyUuid
  else if len ≠ 16 then .error (.exception "len is not valid for uuid type!")
  else do
    let bytes ← readBytes buffer val 16
    if size : bytes.length = 16 then return { bytes, size } else .error .outOfBounds

def pgvalToBytea : Reader (List UInt8) := fun buffer val len =>
  if len = -1 then .ok []
  else if len < 0 then .error .lengthError
  else readBytes buffer val len.toNat

theorem first_read {α β : Type} {newParameter : α → Except WireError Parameter}
    {reader : Reader β} {array : JaggedVector α} {value : α}
    {values : List α} (first : array.values = value :: values) {eleOid arrEleOid : Nat}
    {param : Parameter} (sent : newParameterGen newParameter array eleOid arrEleOid = .ok param)
    {bytes : List UInt8} (bytesEq : param.value = some bytes) {decoded : JaggedVector β}
    {cursor : Int}
    (read : pgvalToArrayFrom (fun _ => reader) bytes param.format = .ok (decoded, cursor))
    {received : β} {others : List β} (values : decoded.values = received :: others) :
    ∃ own offset, newParameter value = .ok own ∧
      reader bytes offset (BitVec.ofInt 32 own.length).toInt = .ok received := by
  obtain ⟨membuf, appended, fits⟩ := Results.bind_ok.mp sent
  rw [first] at appended
  obtain ⟨own, tail, built, written⟩ := appendElements_first appended
  obtain ⟨_, _, fits⟩ := Results.bind_ok.mp fits
  cases fits
  cases bytesEq
  dsimp only at read
  rw [pgvalToArrayFrom, if_neg (by decide)] at read
  obtain ⟨dimCount, dimCountRead, read⟩ := Results.bind_ok.mp read
  dsimp only at read
  by_cases negative : dimCount.toInt < 0
  · rw [if_pos negative] at read
    obtain ⟨_, thrown, _⟩ := Results.bind_ok.mp read
    cases thrown
  rw [if_neg negative] at read
  obtain ⟨_, _, read⟩ := Results.bind_ok.mp read
  obtain ⟨⟨sizes, count, val⟩, dimsRead, read⟩ := Results.bind_ok.mp read
  obtain ⟨⟨elements, last⟩, elementsRead, same⟩ := Results.bind_ok.mp read
  cases same
  have dims : dimCount.toInt = toInt array.dimSizes.length := by
    have start : Holds membuf 0 (wireInt32 (BitVec.ofInt 32 (toInt array.dimSizes.length))) := by
      rw [written, arrayHeader, int32Bytes_eq, List.append_assoc]
      exact (Holds.whole _).left
    have known := readInt32_take dimCountRead
    rw [start.readInt32] at known
    rw [← Except.ok.inj known, toInt, BitVec.ofInt_toInt]
  have place : val = (arrayHeader array.dimSizes eleOid).length := by
    rw [readDims_cursor dimsRead, length_arrayHeader, dims]
    push_cast
    rfl
  cases remaining : count.toNat with
  | zero =>
      rw [remaining, readElements] at elementsRead
      cases elementsRead
      cases values
  | succ remaining' =>
      dsimp only at elementsRead
      rw [remaining] at elementsRead
      obtain ⟨length, element, rest, lengthRead, firstRead, _, same⟩ := readElements_succ elementsRead
      have known := readInt32_take lengthRead
      have there : Holds membuf val (wireInt32 (BitVec.ofInt 32 (own.length - 0))) := by
        rw [place, written]
        have whole := (Holds.whole (arrayHeader array.dimSizes eleOid ++
          (wireInt32 (BitVec.ofInt 32 (own.length - 0)) ++ tail))).right
        rw [zero_add] at whole
        exact whole.left
      rw [there.readInt32] at known
      rw [← Except.ok.inj known, Int.sub_zero] at firstRead
      rw [same] at values
      rw [(List.cons.inj values).1] at firstRead
      exact ⟨own, val + 4, built, firstRead⟩

theorem length_congr {buffer text : List UInt8} {offset : Int} {size : Nat}
    (read : pgvalToString buffer offset (toInt size) = .ok text) :
    text.length < 2 ^ 31 ∧ ∃ wraps : Int, (size : Int) = text.length + 2 ^ 32 * wraps ∨
      text.length = 0 ∧ (size : Int) = 2 ^ 32 * wraps - 1 := by
  have bound : toInt size < 2 ^ 31 := BitVec.toInt_lt
  obtain ⟨wraps, wrapped⟩ := toInt_congr size
  rcases length_pgvalToString read with ⟨null, empty⟩ | length
  · have zero : text.length = 0 := by
      rw [empty]
      rfl
    exact ⟨by omega, wraps, Or.inr ⟨zero, by omega⟩⟩
  · exact ⟨by omega, wraps, Or.inl (by omega)⟩

theorem pgvalToString_terminated {buffer text : List UInt8} {offset : Int} :
    pgvalToString buffer offset (toInt (text.length + 1)) ≠ .ok text := by
  intro read
  obtain ⟨bound, wraps, same | ⟨zero, same⟩⟩ := length_congr read
  · omega
  · omega

theorem pgvalToBytea_text {hexToStr : List UInt8 → List UInt8}
    (hexLength : ∀ bytes, (hexToStr bytes).length = 2 * bytes.length)
    {buffer bytes : List UInt8} {offset : Int} :
    pgvalToBytea buffer offset (toInt ((92 :: 120 :: hexToStr bytes).length + 1)) ≠
      .ok bytes := by
  intro read
  have size : (92 :: 120 :: hexToStr bytes).length + 1 = 2 * bytes.length + 3 := by
    rw [List.length_cons, List.length_cons, hexLength]
  rw [size] at read
  obtain ⟨bound, wraps, same | ⟨zero, same⟩⟩ := length_congr read
  · omega
  · omega

theorem pgvalToUuid_text {hexToStr : List UInt8 → List UInt8}
    (hexLength : ∀ bytes, (hexToStr bytes).length = 2 * bytes.length)
    {buffer : List UInt8} {offset : Int} {value : Uuid} :
    pgvalToUuid buffer offset (toInt ((uuidText hexToStr value).length + 1)) ≠ .ok value := by
  intro read
  have text : (uuidText hexToStr value).length = 36 := by
    have size := value.size
    simp only [uuidText, List.length_append, List.length_cons, hexLength, List.length_take,
      List.length_drop, size]
    decide
  rw [text, pgvalToUuid] at read
  cases read

inductive TextType
  | uuid
  | bytea
  | cstring
  deriving DecidableEq, Repr

namespace TextType

def Value : TextType → Type
  | uuid => Uuid
  | bytea => List UInt8
  | cstring => CString

def Received : TextType → Type
  | uuid => Uuid
  | bytea => List UInt8
  | cstring => List UInt8

def received : (type : TextType) → type.Value → type.Received
  | uuid, value => value
  | bytea, value => value
  | cstring, value => CString.text value

def eleOid : TextType → Nat
  | uuid => 2950
  | bytea => 17
  | cstring => 25

def arrEleOid : TextType → Nat
  | uuid => 2951
  | bytea => 1001
  | cstring => 1009

def newParameter (hexToStr : List UInt8 → List UInt8) :
    (type : TextType) → type.Value → Except WireError Parameter
  | uuid => newParameterUuid hexToStr
  | bytea => newParameterBytea hexToStr
  | cstring => newParameterCString

def pgval : (type : TextType) → Reader type.Received
  | uuid => pgvalToUuid
  | bytea => pgvalToBytea
  | cstring => pgvalToString

def ReadsBack (hexToStr : List UInt8 → List UInt8) (type : TextType)
    (array : JaggedVector type.Value) : Prop :=
  ∃ param bytes cursor,
    newParameterGen (type.newParameter hexToStr) array type.eleOid type.arrEleOid = .ok param ∧
    param.value = some bytes ∧
    pgvalToArrayFrom (fun _ => type.pgval) bytes param.format =
      .ok ({ dimSizes := array.dimSizes, values := array.values.map type.received }, cursor)

theorem pgval_text {hexToStr : List UInt8 → List UInt8}
    (hexLength : ∀ bytes, (hexToStr bytes).length = 2 * bytes.length) (type : TextType)
    {value : type.Value} {own : Parameter} (built : type.newParameter hexToStr value = .ok own)
    {buffer : List UInt8} {offset : Int} :
    type.pgval buffer offset own.length ≠ .ok (type.received value) := by
  cases type with
  | uuid =>
      cases built
      exact pgvalToUuid_text hexLength
  | bytea =>
      cases built
      exact pgvalToBytea_text hexLength
  | cstring =>
      cases built
      exact pgvalToString_terminated

theorem newParameter_length {hexToStr : List UInt8 → List UInt8} (type : TextType)
    {value : type.Value} {own : Parameter} (built : type.newParameter hexToStr value = .ok own) :
    (BitVec.ofInt 32 own.length).toInt = own.length := by
  obtain ⟨size, length⟩ : ∃ size, own.length = toInt size := by
    cases type <;> cases built <;> exact ⟨_, rfl⟩
  rw [length, toInt, BitVec.ofInt_toInt]

/-- No array of these types is decoded to its elements. -/
theorem not_readsBack (hexToStr : List UInt8 → List UInt8)
    (hexLength : ∀ bytes, (hexToStr bytes).length = 2 * bytes.length) (type : TextType)
    (array : JaggedVector type.Value) (nonempty : array.values ≠ []) :
    ¬ ReadsBack hexToStr type array := by
  rintro ⟨param, bytes, cursor, sent, bytesEq, read⟩
  obtain ⟨value, values, split⟩ := List.exists_cons_of_ne_nil nonempty
  have decoded : array.values.map type.received =
      type.received value :: values.map type.received := by
    rw [split, List.map_cons]
  obtain ⟨own, offset, built, readFirst⟩ := first_read split sent bytesEq read decoded
  rw [newParameter_length type built] at readFirst
  exact pgval_text hexLength type built readFirst

def hexDigits (bytes : List UInt8) : List UInt8 :=
  let digit (nibble : Nat) : UInt8 := .ofNat (if nibble < 10 then 48 + nibble else 87 + nibble)
  bytes.flatMap fun byte => [digit (byte.toNat / 16), digit (byte.toNat % 16)]

theorem length_hexDigits (bytes : List UInt8) : (hexDigits bytes).length = 2 * bytes.length := by
  induction bytes with
  | nil => rfl
  | cons byte bytes ih =>
      rw [hexDigits] at ih ⊢
      rw [List.flatMap_cons, List.length_append, ih]
      simp only [List.length_cons, List.length_nil]
      omega

def oneByte : JaggedVector (Value bytea) := { dimSizes := [1], values := [[(171 : UInt8)]] }

theorem not_readsBack_oneByte : ¬ ReadsBack hexDigits bytea oneByte :=
  not_readsBack hexDigits length_hexDigits bytea oneByte (List.cons_ne_nil _ _)

def oneByteArray : List UInt8 :=
  [0, 0, 0, 1, 0, 0, 0, 0, 0, 0, 0, 17, 0, 0, 0, 1, 0, 0, 0, 1, 0, 0, 0, 5, 92, 120, 97, 98, 0]

theorem one_byte_as_text :
    newParameterGen (bytea.newParameter hexDigits) oneByte 17 1001 =
        .ok { oid := 1001, value := some oneByteArray, length := 29, format := 1 } ∧
      pgvalToArray (fun _ => pgvalToBytea) oneByteArray 1 =
        .ok { dimSizes := [1], values := [[92, 120, 97, 98, 0]] } ∧
      ¬ ReadsBack hexDigits bytea oneByte := by
  have sent : newParameterGen (bytea.newParameter hexDigits) oneByte 17 1001 =
      .ok { oid := 1001, value := some oneByteArray, length := 29, format := 1 } := rfl
  have decoded : pgvalToArrayFrom (fun _ => bytea.pgval) oneByteArray 1 =
      .ok ({ dimSizes := [1], values := [([92, 120, 97, 98, 0] : List UInt8)] }, 29) := rfl
  refine ⟨sent, rfl, ?_⟩
  rintro ⟨param, bytes, cursor, built, bytesEq, read⟩
  cases sent.symm.trans built
  cases bytesEq
  have values := congrArg (fun done => done.1.values) (Except.ok.inj (decoded.symm.trans read))
  have first : ([92, 120, 97, 98, 0] : List UInt8) = [171] := (List.cons.inj values).1
  exact absurd first (by decide)

end TextType

end PqAsync
