import PqAsync.Wire
import PqAsync.ArrayCore
import Mathlib.Algebra.BigOperators.Group.List.Lemmas

/-!
The array format of the protocol, stated apart from the code: an array as its header, its
dimensions and its optional payloads, the bytes that stand for it, and a reader of the
format.
-/

namespace PqAsync

structure Dimension where
  size : Nat
  lowerBound : BitVec 32
  deriving DecidableEq, Repr

structure WireArray where
  flags : BitVec 32
  oid : BitVec 32
  dims : List Dimension
  elements : List (Option (List UInt8))
  deriving DecidableEq, Repr

def wireInt32 (x : BitVec 32) : List UInt8 := Bytes.bigEndian 4 x.toNat

def wireNat (x : Nat) : List UInt8 := wireInt32 (BitVec.ofNat 32 x)

def Dimension.bytes (dim : Dimension) : List UInt8 := wireNat dim.size ++ wireInt32 dim.lowerBound

def elementBytes : Option (List UInt8) → List UInt8
  | none => wireInt32 (-1)
  | some payload => wireNat payload.length ++ payload

def elementCount (dims : List Dimension) : Nat :=
  if dims = [] then 0 else (dims.map Dimension.size).prod

namespace WireArray

def header (array : WireArray) : List UInt8 :=
  wireNat array.dims.length ++ (wireInt32 array.flags ++ (wireInt32 array.oid ++
    array.dims.flatMap Dimension.bytes))

def bytes (array : WireArray) : List UInt8 := array.header ++ array.elements.flatMap elementBytes

/-- The sizes are numbers of the format and their product stays one while it is computed. -/
structure WellFormed (array : WireArray) : Prop where
  dimCount : array.dims.length < 2 ^ 31
  sizes : ∀ dim ∈ array.dims, dim.size < 2 ^ 31
  products : ∀ n, ((array.dims.map Dimension.size).take n).prod < 2 ^ 31
  count : array.elements.length = elementCount array.dims
  payloads : ∀ payload, some payload ∈ array.elements → payload.length < 2 ^ 31

theorem WellFormed.of_elements {array : WireArray} (dimCount : array.dims.length < 2 ^ 31)
    (nonempty : array.elements ≠ [])
    (count : array.elements.length = (array.dims.map Dimension.size).prod)
    (dims : array.dims ≠ []) (bound : array.elements.length < 2 ^ 31)
    (payloads : ∀ payload, some payload ∈ array.elements → payload.length < 2 ^ 31) :
    array.WellFormed := by
  have positive : 0 < (array.dims.map Dimension.size).prod := by
    rw [← count]
    exact List.length_pos_of_ne_nil nonempty
  have small : (array.dims.map Dimension.size).prod < 2 ^ 31 := by rwa [← count]
  constructor
  · exact dimCount
  · intro dim member
    have divides : dim.size ∣ (array.dims.map Dimension.size).prod :=
      List.dvd_prod (List.mem_map_of_mem member)
    exact Nat.lt_of_le_of_lt (Nat.le_of_dvd positive divides) small
  · intro n
    have divides : ((array.dims.map Dimension.size).take n).prod ∣
        (array.dims.map Dimension.size).prod :=
      ⟨_, (List.prod_take_mul_prod_drop _ n).symm⟩
    exact Nat.lt_of_le_of_lt (Nat.le_of_dvd positive divides) small
  · rw [count, elementCount, if_neg dims]
  · exact payloads

end WireArray

@[simp] theorem length_wireInt32 (x : BitVec 32) : (wireInt32 x).length = 4 := by
  simp [wireInt32]

@[simp] theorem length_wireNat (x : Nat) : (wireNat x).length = 4 := length_wireInt32 _

@[simp] theorem length_dimension (dim : Dimension) : dim.bytes.length = 8 := by
  simp [Dimension.bytes]

theorem length_dims (dims : List Dimension) :
    (dims.flatMap Dimension.bytes).length = 8 * dims.length := by
  induction dims with
  | nil => rfl
  | cons dim dims ih =>
      rw [List.flatMap_cons, List.length_append, length_dimension, ih, List.length_cons]
      omega

theorem int32Bytes_eq (x : BitVec 32) : int32Bytes x = wireInt32 x := inMemory_swap4 x true

theorem ofNat_toInt {x : Nat} (small : x < 2 ^ 31) : (BitVec.ofNat 32 x).toInt = x :=
  toInt_of_lt small

def takeInt32 : List UInt8 → Option (BitVec 32 × List UInt8)
  | a :: b :: c :: d :: rest => some (fromMemory 32 [d, c, b, a], rest)
  | _ => none

def takeDims : Nat → List UInt8 → Option (List Dimension × List UInt8)
  | 0, text => some ([], text)
  | count + 1, text => do
      let (size, text) ← takeInt32 text
      let (lowerBound, text) ← takeInt32 text
      let (dims, text) ← takeDims count text
      return ({ size := size.toNat, lowerBound } :: dims, text)

def takeElements : Nat → List UInt8 → Option (List (Option (List UInt8)) × List UInt8)
  | 0, text => some ([], text)
  | count + 1, text => do
      let (length, text) ← takeInt32 text
      if length = -1 then
        let (elements, text) ← takeElements count text
        return (none :: elements, text)
      else if length.toInt < 0 ∨ text.length < length.toNat then none
      else
        let (elements, rest) ← takeElements count (text.drop length.toNat)
        return (some (text.take length.toNat) :: elements, rest)

def parseArray (text : List UInt8) : Option WireArray := do
  let (dimCount, text) ← takeInt32 text
  let (flags, text) ← takeInt32 text
  let (oid, text) ← takeInt32 text
  let (dims, text) ← takeDims dimCount.toNat text
  let (elements, text) ← takeElements (elementCount dims) text
  if text = [] then some { flags, oid, dims, elements } else none

theorem takeInt32_wireInt32 (x : BitVec 32) (rest : List UInt8) :
    takeInt32 (wireInt32 x ++ rest) = some (x, rest) := by
  obtain ⟨a, b, c, d, spelled⟩ : ∃ a b c d, wireInt32 x = [a, b, c, d] := by
    have length := length_wireInt32 x
    match wireInt32 x, length with
    | [a, b, c, d], _ => exact ⟨a, b, c, d, rfl⟩
  have reversed : [d, c, b, a] = inMemory 4 x := by
    have memory : (wireInt32 x).reverse = inMemory 4 x := by
      simp [wireInt32, Bytes.bigEndian, inMemory]
    rw [← memory, spelled]
    rfl
  rw [spelled]
  change some (fromMemory 32 [d, c, b, a], rest) = _
  rw [reversed, fromMemory_inMemory 4 rfl]

theorem takeDims_bytes (dims : List Dimension) (bound : ∀ dim ∈ dims, dim.size < 2 ^ 31)
    (rest : List UInt8) :
    takeDims dims.length (dims.flatMap Dimension.bytes ++ rest) = some (dims, rest) := by
  induction dims with
  | nil => rfl
  | cons dim dims ih =>
      have parts := List.forall_mem_cons.mp bound
      have size : (BitVec.ofNat 32 dim.size).toNat = dim.size := by
        rw [BitVec.toNat_ofNat]
        exact Nat.mod_eq_of_lt (Nat.lt_trans parts.1 (by decide))
      rw [List.flatMap_cons, Dimension.bytes, List.length_cons, takeDims, List.append_assoc,
        List.append_assoc, wireNat, takeInt32_wireInt32]
      simp only [Option.bind_eq_bind, Option.bind_some]
      rw [takeInt32_wireInt32]
      simp only [Option.bind_some]
      rw [ih parts.2]
      simp [size]

theorem takeElements_bytes (elements : List (Option (List UInt8)))
    (bound : ∀ payload, some payload ∈ elements → payload.length < 2 ^ 31)
    (rest : List UInt8) :
    takeElements elements.length (elements.flatMap elementBytes ++ rest) =
      some (elements, rest) := by
  induction elements with
  | nil => rfl
  | cons element elements ih =>
      have tail := ih (fun payload member => bound payload (List.mem_cons_of_mem _ member))
      rw [List.flatMap_cons, List.length_cons, takeElements]
      cases element with
      | none =>
          rw [elementBytes, List.append_assoc, takeInt32_wireInt32]
          simp only [Option.bind_eq_bind, Option.bind_some, if_true]
          rw [tail]
          rfl
      | some payload =>
          have small := bound payload List.mem_cons_self
          have positive := ofNat_toInt small
          have notNull : BitVec.ofNat 32 payload.length ≠ -1 := by
            intro null
            rw [null] at positive
            have minusOne : (-1 : BitVec 32).toInt = -1 := by decide
            omega
          have length : (BitVec.ofNat 32 payload.length).toNat = payload.length := by
            rw [BitVec.toNat_ofNat]
            exact Nat.mod_eq_of_lt (Nat.lt_trans small (by decide))
          rw [elementBytes, List.append_assoc, List.append_assoc, wireNat, takeInt32_wireInt32]
          simp only [Option.bind_eq_bind, Option.bind_some, notNull, if_false, positive, length]
          rw [if_neg (by simp only [List.length_append]; omega), List.drop_left, List.take_left, tail]
          rfl

theorem length_takeInt32 {text rest : List UInt8} {x : BitVec 32}
    (taken : takeInt32 text = some (x, rest)) : text.length = 4 + rest.length := by
  match text, taken with
  | a :: b :: c :: d :: others, taken =>
      have same := (Prod.mk.inj (Option.some.inj taken)).2
      rw [← same]
      simp only [List.length_cons]
      omega

theorem length_takeDims {count : Nat} {text rest : List UInt8} {dims : List Dimension}
    (taken : takeDims count text = some (dims, rest)) :
    text.length = 8 * dims.length + rest.length := by
  induction count generalizing text dims with
  | zero =>
      cases taken
      simp
  | succ count ih =>
      rw [takeDims] at taken
      obtain ⟨⟨size, afterSize⟩, first, taken⟩ := Option.bind_eq_some_iff.mp taken
      obtain ⟨⟨bound, afterBound⟩, second, taken⟩ := Option.bind_eq_some_iff.mp taken
      obtain ⟨⟨others, final⟩, third, taken⟩ := Option.bind_eq_some_iff.mp taken
      cases taken
      have sizeLength := length_takeInt32 first
      have boundLength := length_takeInt32 second
      have othersLength := ih third
      rw [List.length_cons]
      omega

theorem length_takeElements {count : Nat} {text rest : List UInt8}
    {elements : List (Option (List UInt8))}
    (taken : takeElements count text = some (elements, rest)) :
    text.length = (elements.flatMap elementBytes).length + rest.length := by
  induction count generalizing text elements with
  | zero =>
      cases taken
      simp
  | succ count ih =>
      rw [takeElements] at taken
      obtain ⟨⟨length, afterLength⟩, first, taken⟩ := Option.bind_eq_some_iff.mp taken
      have lengthLength := length_takeInt32 first
      dsimp only at taken
      by_cases null : length = -1
      · rw [if_pos null] at taken
        obtain ⟨⟨others, final⟩, second, taken⟩ := Option.bind_eq_some_iff.mp taken
        simp only [pure, Option.some.injEq, Prod.mk.injEq] at taken
        obtain ⟨rfl, rfl⟩ := taken
        have othersLength := ih second
        rw [List.flatMap_cons, List.length_append, elementBytes, length_wireInt32]
        omega
      · rw [if_neg null] at taken
        by_cases short : length.toInt < 0 ∨ afterLength.length < length.toNat
        · rw [if_pos short] at taken
          exact absurd taken (by simp)
        · rw [if_neg short] at taken
          obtain ⟨⟨others, final⟩, second, taken⟩ := Option.bind_eq_some_iff.mp taken
          simp only [pure, Option.some.injEq, Prod.mk.injEq] at taken
          obtain ⟨rfl, rfl⟩ := taken
          have othersLength := ih second
          rw [List.length_drop] at othersLength
          rw [List.flatMap_cons, List.length_append, elementBytes, List.length_append,
            length_wireNat, List.length_take]
          omega

theorem length_parseArray {text : List UInt8} {array : WireArray}
    (parsed : parseArray text = some array) : text.length = array.bytes.length := by
  rw [parseArray] at parsed
  obtain ⟨⟨dimCount, afterCount⟩, first, parsed⟩ := Option.bind_eq_some_iff.mp parsed
  obtain ⟨⟨flags, afterFlags⟩, second, parsed⟩ := Option.bind_eq_some_iff.mp parsed
  obtain ⟨⟨oid, afterOid⟩, third, parsed⟩ := Option.bind_eq_some_iff.mp parsed
  obtain ⟨⟨dims, afterDims⟩, fourth, parsed⟩ := Option.bind_eq_some_iff.mp parsed
  obtain ⟨⟨elements, rest⟩, fifth, parsed⟩ := Option.bind_eq_some_iff.mp parsed
  dsimp only at first second third fourth fifth parsed
  by_cases whole : rest = []
  · rw [if_pos whole] at parsed
    cases parsed
    have countLength := length_takeInt32 first
    have flagsLength := length_takeInt32 second
    have oidLength := length_takeInt32 third
    have dimsLength := length_takeDims fourth
    have elementsLength := length_takeElements fifth
    rw [whole, List.length_nil] at elementsLength
    simp only [WireArray.bytes, WireArray.header, List.length_append, length_wireNat,
      length_wireInt32, length_dims]
    omega
  · rw [if_neg whole] at parsed
    exact absurd parsed (by simp)

theorem parseArray_bytes (array : WireArray) (wellFormed : array.WellFormed) :
    parseArray array.bytes = some array := by
  have dimCount : (BitVec.ofNat 32 array.dims.length).toNat = array.dims.length := by
    rw [BitVec.toNat_ofNat]
    exact Nat.mod_eq_of_lt (Nat.lt_trans wellFormed.dimCount (by decide))
  have elements := takeElements_bytes array.elements wellFormed.payloads []
  rw [List.append_nil] at elements
  rw [parseArray, WireArray.bytes, WireArray.header, wireNat]
  simp only [List.append_assoc, takeInt32_wireInt32, Option.bind_eq_bind, Option.bind_some,
    dimCount, takeDims_bytes array.dims wellFormed.sizes, ← wellFormed.count, elements, if_true]

end PqAsync
