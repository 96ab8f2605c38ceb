import PqAsync.ArrayFormat
import PqAsync.ValueCore
import PqAsync.Library.Results

/-!
The cursor of `pgval_to_array`. On an array without NULL elements each element is decoded
from its own payload and the whole value is consumed; after a NULL element the cursor is one
byte short.
-/

namespace PqAsync

def elementSlots (offset : Int) : List (Option (List UInt8)) → List (Int × Int)
  | [] => []
  | none :: rest => (offset + 4, -1) :: elementSlots (offset + 4) rest
  | some payload :: rest =>
      (offset + 4, payload.length) :: elementSlots (offset + 4 + payload.length) rest

def WireArray.slots (array : WireArray) : List (Int × Int) :=
  elementSlots array.header.length array.elements

/-- `val_from_pgparam` is given each payload in turn, and the whole value is consumed. -/
def DecodesEachPayload (array : WireArray) : Prop :=
  ∀ (α : Type) (valFromPgparam : Int → Reader α),
    pgvalToArrayFrom valFromPgparam array.bytes 1 =
      (array.slots.mapM fun slot =>
        valFromPgparam array.oid.toInt array.bytes slot.1 slot.2).map fun values =>
          ({ dimSizes := array.dims.map Dimension.size, values }, (array.bytes.length : Int))

theorem elementSlots_holds {buffer : List UInt8} (elements : List (Option (List UInt8)))
    (offset : Int) (holds : Holds buffer offset (elements.flatMap elementBytes)) :
    List.Forall₂ (fun element slot => match element with
      | none => slot.2 = -1
      | some payload => slot.2 = payload.length ∧ Holds buffer slot.1 payload)
      elements (elementSlots offset elements) := by
  induction elements generalizing offset with
  | nil => exact List.Forall₂.nil
  | cons element elements ih =>
      rw [List.flatMap_cons] at holds
      have tail := holds.right
      cases element with
      | none =>
          rw [elementBytes, length_wireInt32] at tail
          exact List.Forall₂.cons rfl (ih _ tail)
      | some payload =>
          have front := holds.left
          rw [elementBytes] at front tail
          rw [List.length_append, length_wireNat, Nat.cast_add, ← add_assoc] at tail
          have own := front.right
          rw [length_wireNat] at own
          exact List.Forall₂.cons ⟨rfl, own⟩ (ih _ tail)

theorem WireArray.elements_hold (array : WireArray) :
    Holds array.bytes array.header.length (array.elements.flatMap elementBytes) := by
  have own := (Holds.whole array.bytes).right
  rwa [zero_add] at own

theorem signExtend_ofNat {x : Nat} (small : x < 2 ^ 31) :
    ((BitVec.ofNat 32 x).signExtend 64).toNat = x := by
  have positive : (BitVec.ofNat 32 x).msb = false := by
    rw [BitVec.msb_eq_false_iff_two_mul_lt, BitVec.toNat_ofNat]
    omega
  rw [BitVec.signExtend_eq_setWidth_of_msb_false positive, BitVec.toNat_setWidth,
    BitVec.toNat_ofNat]
  omega

theorem readDims_bytes {buffer : List UInt8} (dims : List Dimension) (count : Nat) (val : Int)
    (holds : Holds buffer val (dims.flatMap Dimension.bytes))
    (sizes : ∀ dim ∈ dims, dim.size < 2 ^ 31)
    (products : ∀ n, count * ((dims.map Dimension.size).take n).prod < 2 ^ 31) :
    readDims buffer dims.length count val =
      .ok (dims.map Dimension.size, ((count * (dims.map Dimension.size).prod : Nat) : Int),
        val + (dims.flatMap Dimension.bytes).length) := by
  induction dims generalizing count val with
  | nil => simp [readDims]
  | cons dim dims ih =>
      have parts := List.forall_mem_cons.mp sizes
      rw [List.flatMap_cons] at holds
      have own : readInt32 buffer val = .ok (BitVec.ofNat 32 dim.size) := by
        have front := holds.left
        rw [Dimension.bytes] at front
        exact front.left.readInt32
      have tail := holds.right
      rw [length_dimension] at tail
      have product : count * dim.size < 2 ^ 31 := by
        have first := products 1
        simpa using first
      have inside : mulInt count (BitVec.ofNat 32 dim.size).toInt =
          .ok ((count * dim.size : Nat) : Int) := by
        rw [ofNat_toInt parts.1, mulInt, if_pos (by constructor <;> push_cast at * <;> omega)]
        push_cast
        rfl
      have rest := ih (count * dim.size) (val + 4 + 4) (by rw [add_assoc]; exact tail) parts.2
        (by
          intro n
          have next := products (n + 1)
          rw [List.map_cons, List.take_succ_cons, List.prod_cons, ← Nat.mul_assoc] at next
          exact next)
      rw [List.length_cons, readDims, own]
      change (mulInt _ _ >>= fun eleCount => _) = _
      rw [inside]
      change (readDims _ _ _ _ >>= fun _ => _) = _
      rw [rest]
      change Except.ok _ = Except.ok _
      rw [signExtend_ofNat parts.1, List.flatMap_cons, List.length_append, length_dimension,
        List.map_cons, List.prod_cons, Nat.mul_assoc]
      congr 3
      push_cast
      ring

theorem readDims_cursor {buffer : List UInt8} {remaining : Nat} {eleCount val last count : Int}
    {sizes : List Nat} (read : readDims buffer remaining eleCount val = .ok (sizes, count, last)) :
    last = val + 8 * remaining := by
  induction remaining generalizing eleCount val sizes with
  | zero =>
      cases read
      simp
  | succ remaining ih =>
      rw [readDims] at read
      obtain ⟨dimVal, _, read⟩ := Results.bind_ok.mp read
      obtain ⟨product, _, read⟩ := Results.bind_ok.mp read
      obtain ⟨⟨others, final, cursor⟩, rest, same⟩ := Results.bind_ok.mp read
      cases same
      rw [ih rest]
      push_cast
      ring

theorem readElements_slots {α : Type} {buffer : List UInt8} (reader : Reader α)
    (elements : List (Option (List UInt8))) (val : Int)
    (holds : Holds buffer val (elements.flatMap elementBytes))
    (payloads : ∀ payload, some payload ∈ elements → payload.length < 2 ^ 31)
    (noNull : none ∉ elements) :
    readElements reader buffer elements.length val =
      ((elementSlots val elements).mapM fun slot => reader buffer slot.1 slot.2).map
        fun values => (values, val + (elements.flatMap elementBytes).length) := by
  induction elements generalizing val with
  | nil => simp [readElements, elementSlots, Except.map, pure, Except.pure]
  | cons element elements ih =>
      cases element with
      | none => exact absurd List.mem_cons_self noNull
      | some payload =>
          have small := payloads payload List.mem_cons_self
          rw [List.flatMap_cons] at holds
          have tail := holds.right
          rw [elementBytes, List.length_append, length_wireNat, Nat.cast_add, ← add_assoc] at tail
          have length : readInt32 buffer val = .ok (BitVec.ofNat 32 payload.length) :=
            holds.left.left.readInt32
          have rest := ih (val + 4 + payload.length) tail
            (fun other member => payloads other (List.mem_cons_of_mem _ member))
            (fun member => noNull (List.mem_cons_of_mem _ member))
          rw [List.length_cons, readElements, length]
          change (reader buffer (val + 4) _ >>= fun value => _) = _
          rw [ofNat_toInt small, elementSlots, List.mapM_cons, rest]
          cases reader buffer (val + 4) payload.length with
          | error failure => rfl
          | ok value =>
              cases (elementSlots (val + 4 + payload.length) elements).mapM
                  fun slot => reader buffer slot.1 slot.2 with
              | error failure => rfl
              | ok values =>
                  simp only [List.flatMap_cons, elementBytes, List.length_append, length_wireNat]
                  change Except.ok _ = Except.ok _
                  push_cast
                  congr 2
                  ring

theorem pgvalToArrayFrom_header {α : Type} (valFromPgparam : Int → Reader α) (array : WireArray)
    (wellFormed : array.WellFormed) :
    pgvalToArrayFrom valFromPgparam array.bytes 1 =
      (readElements (valFromPgparam array.oid.toInt) array.bytes array.elements.length
        array.header.length).map fun (values, val) =>
          ({ dimSizes := array.dims.map Dimension.size, values }, val) := by
  have whole : Holds array.bytes 0 array.header := (Holds.whole array.bytes).left
  rw [WireArray.header] at whole
  have dimCount : readInt32 array.bytes 0 = .ok (BitVec.ofNat 32 array.dims.length) :=
    whole.left.readInt32
  have afterCount := whole.right
  have afterFlags := afterCount.right
  have oid : readInt32 array.bytes 8 = .ok array.oid := by
    have own := afterFlags.left.readInt32
    simpa using own
  have afterOid := afterFlags.right
  have dims : Holds array.bytes 12 (array.dims.flatMap Dimension.bytes) := by
    simpa using afterOid
  have positive := ofNat_toInt wellFormed.dimCount
  have one : (if (array.dims.length : Int) > 0 then 1 else 0 : Int) =
      ((if array.dims = [] then 0 else 1 : Nat) : Int) := by
    by_cases empty : array.dims = []
    · simp [empty]
    · have nonempty := List.length_pos_of_ne_nil empty
      rw [if_pos (by omega), if_neg empty]
      rfl
  have read := readDims_bytes array.dims (if array.dims = [] then 0 else 1) 12 dims
    wellFormed.sizes (by
      intro n
      have product := wellFormed.products n
      split <;> omega)
  have count : (if array.dims = [] then 0 else 1) * (array.dims.map Dimension.size).prod =
      array.elements.length := by
    rw [wellFormed.count, elementCount]
    split <;> simp
  have header : (12 : Int) + (array.dims.flatMap Dimension.bytes).length =
      array.header.length := by
    simp only [WireArray.header, List.length_append, length_wireNat, length_wireInt32]
    push_cast
    ring
  rw [pgvalToArrayFrom, if_neg (by decide), dimCount, oid]
  simp only [bind, Except.bind, pure, Except.pure, positive]
  rw [if_neg (by omega), one]
  simp only [Int.toNat_natCast]
  rw [read]
  simp only [count, header, Int.toNat_natCast]
  cases readElements (valFromPgparam array.oid.toInt) array.bytes array.elements.length
    array.header.length <;> rfl

theorem decodesEachPayload_of_noNull (array : WireArray) (wellFormed : array.WellFormed)
    (noNull : none ∉ array.elements) : DecodesEachPayload array := by
  intro α valFromPgparam
  have length : (array.header.length : Int) + (array.elements.flatMap elementBytes).length =
      array.bytes.length := by
    rw [WireArray.bytes, List.length_append]
    push_cast
    rfl
  rw [pgvalToArrayFrom_header valFromPgparam array wellFormed,
    readElements_slots _ array.elements _ array.elements_hold wellFormed.payloads noNull, length,
    WireArray.slots]
  cases (elementSlots array.header.length array.elements).mapM fun slot =>
    valFromPgparam array.oid.toInt array.bytes slot.1 slot.2 <;> rfl

theorem readElements_succ {α : Type} {reader : Reader α} {buffer : List UInt8} {remaining : Nat}
    {val : Int} {values : List α} {last : Int}
    (done : readElements reader buffer (remaining + 1) val = .ok (values, last)) :
    ∃ length value rest, readInt32 buffer val = .ok length ∧
      reader buffer (val + 4) length.toInt = .ok value ∧
      readElements reader buffer remaining (val + 4 + length.toInt) = .ok (rest, last) ∧
      values = value :: rest := by
  rw [readElements] at done
  obtain ⟨length, read, done⟩ := Results.bind_ok.mp done
  obtain ⟨value, own, done⟩ := Results.bind_ok.mp done
  obtain ⟨⟨rest, final⟩, others, same⟩ := Results.bind_ok.mp done
  cases same
  exact ⟨length, value, rest, read, own, others, rfl⟩

theorem readElements_reaches {α : Type} {reader : Reader α} {count : Nat}
    (payloads : List (List UInt8)) (small : ∀ payload ∈ payloads, payload.length < 2 ^ 31)
    (front : List UInt8) {values : List α} {last : Int}
    (done : readElements reader
      ((front ++ (payloads.map some).flatMap elementBytes).take count) payloads.length
        front.length = .ok (values, last)) :
    last = (front ++ (payloads.map some).flatMap elementBytes).length ∧
      List.Forall₂ (fun value (payload : List UInt8) => ∃ offset,
        reader ((front ++ (payloads.map some).flatMap elementBytes).take count) offset
          payload.length = .ok value) values payloads := by
  obtain ⟨buffer, bufferEq⟩ : ∃ buffer, buffer =
    front ++ (payloads.map some).flatMap elementBytes := ⟨_, rfl⟩
  rw [← bufferEq] at done ⊢
  induction payloads generalizing front values with
  | nil =>
      cases done
      rw [bufferEq, List.map_nil, List.flatMap_nil, List.append_nil]
      exact ⟨rfl, .nil⟩
  | cons payload payloads ih =>
      obtain ⟨length, value, rest, lengthRead, own, others, rfl⟩ := readElements_succ done
      have there : Holds buffer front.length (wireInt32 (BitVec.ofNat 32 payload.length)) := by
        rw [bufferEq, List.map_cons, List.flatMap_cons, elementBytes]
        have behind := (Holds.whole (front ++ ((wireNat payload.length ++ payload) ++
          (payloads.map some).flatMap elementBytes))).right.left.left
        rwa [zero_add] at behind
      have known := readInt32_take lengthRead
      rw [there.readInt32] at known
      have size : length.toInt = payload.length := by
        rw [← Except.ok.inj known]
        exact ofNat_toInt (small payload List.mem_cons_self)
      rw [size] at own others
      have cursor : (front.length : Int) + 4 + payload.length =
          (front ++ elementBytes (some payload)).length := by
        rw [elementBytes, List.length_append, List.length_append, length_wireNat]
        push_cast
        ring
      rw [cursor] at others
      have rest := ih (fun other member => small other (List.mem_cons_of_mem _ member))
        (front ++ elementBytes (some payload)) others
        (by rw [bufferEq, List.map_cons, List.flatMap_cons, List.append_assoc])
      exact ⟨rest.1, .cons ⟨_, own⟩ rest.2⟩

theorem length_readElements {α : Type} {reader : Reader α} {buffer : List UInt8} {count : Nat}
    {val last : Int} {values : List α}
    (done : readElements reader buffer count val = .ok (values, last)) :
    values.length = count := by
  induction count generalizing val values with
  | zero =>
      cases done
      rfl
  | succ count ih =>
      obtain ⟨_, _, _, _, _, others, rfl⟩ := readElements_succ done
      rw [List.length_cons, ih others]

theorem length_readDims {buffer : List UInt8} {remaining : Nat} {eleCount val last count : Int}
    {sizes : List Nat} (read : readDims buffer remaining eleCount val = .ok (sizes, count, last)) :
    sizes.length = remaining := by
  induction remaining generalizing eleCount val sizes with
  | zero =>
      cases read
      rfl
  | succ remaining ih =>
      rw [readDims] at read
      obtain ⟨dimVal, _, read⟩ := Results.bind_ok.mp read
      obtain ⟨product, _, read⟩ := Results.bind_ok.mp read
      obtain ⟨⟨others, final, cursor⟩, rest, same⟩ := Results.bind_ok.mp read
      cases same
      rw [List.length_cons, ih rest]

/-- What `pgval_to_array` has read when it returns: an element oid, as many sizes as it gives,
and the elements behind them. -/
theorem pgvalToArrayFrom_ok {α : Type} {valFromPgparam : Int → Reader α} {buffer : List UInt8}
    {array : JaggedVector α} {last : Int}
    (done : pgvalToArrayFrom valFromPgparam buffer 1 = .ok (array, last)) :
    ∃ eleOid, array.dimSizes.length < 2 ^ 31 ∧ readInt32 buffer 8 = .ok eleOid ∧
      readElements (valFromPgparam eleOid.toInt) buffer array.values.length
        (12 + 8 * array.dimSizes.length) = .ok (array.values, last) := by
  rw [pgvalToArrayFrom, if_neg (by decide)] at done
  obtain ⟨dimCount, _, done⟩ := Results.bind_ok.mp done
  dsimp only at done
  by_cases negative : dimCount.toInt < 0
  · rw [if_pos negative] at done
    obtain ⟨_, thrown, _⟩ := Results.bind_ok.mp done
    cases thrown
  rw [if_neg negative] at done
  obtain ⟨eleOid, eleOidRead, done⟩ := Results.bind_ok.mp done
  obtain ⟨⟨sizes, count, val⟩, dimsRead, done⟩ := Results.bind_ok.mp done
  obtain ⟨⟨elements, final⟩, elementsRead, same⟩ := Results.bind_ok.mp done
  cases same
  have length := length_readDims dimsRead
  refine ⟨eleOid, ?_, eleOidRead, ?_⟩
  · have bound := dimCount.toInt_lt
    change sizes.length < 2 ^ 31
    omega
  · change readElements _ buffer elements.length (12 + 8 * sizes.length) = _
    rw [length_readElements elementsRead, length, ← readDims_cursor dimsRead]
    exact elementsRead

def placeReader : Reader (Int × Int) := fun _ offset length => .ok (offset, length)

theorem mapM_placeReader (buffer : List UInt8) (slots : List (Int × Int)) :
    (slots.mapM fun slot => placeReader buffer slot.1 slot.2) = .ok slots := by
  rw [Results.mapM_ok, List.forall₂_same]
  intro slot member
  rfl

theorem readElements_null {buffer : List UInt8} (elements : List (Option (List UInt8)))
    (val : Int) (holds : Holds buffer val (elements.flatMap elementBytes))
    (payloads : ∀ payload, some payload ∈ elements → payload.length < 2 ^ 31)
    (isNull : none ∈ elements) :
    readElements placeReader buffer elements.length val ≠
      .ok (elementSlots val elements, val + (elements.flatMap elementBytes).length) := by
  induction elements generalizing val with
  | nil => exact absurd isNull List.not_mem_nil
  | cons element elements ih =>
      intro done
      rw [List.length_cons] at done
      obtain ⟨length, value, rest, read, own, others, same⟩ := readElements_succ done
      rw [List.flatMap_cons] at holds
      cases element with
      | none =>
          have minusOne : length = -1 := by
            have known : readInt32 buffer val = .ok (-1) := holds.left.readInt32
            rw [known] at read
            exact (Except.ok.inj read).symm
          subst length
          have tail : rest = elementSlots (val + 4) elements := by
            rw [elementSlots] at same
            exact (List.cons.inj same).2.symm
          subst tail
          cases elements with
          | nil =>
              rw [List.length_nil, readElements] at others
              have cursor := (Prod.mk.inj (Except.ok.inj others)).2
              simp [elementBytes] at cursor
          | cons next elements =>
              rw [List.length_cons] at others
              obtain ⟨nextLength, _, _, _, place, _, slots⟩ := readElements_succ others
              have known := Except.ok.inj place
              subst known
              cases next with
              | none =>
                  have early := congrArg Prod.fst (List.cons.inj slots).1
                  simp at early
              | some payload =>
                  have early := congrArg Prod.fst (List.cons.inj slots).1
                  simp at early
      | some payload =>
          have small := payloads payload List.mem_cons_self
          have known : readInt32 buffer val = .ok (BitVec.ofNat 32 payload.length) :=
            holds.left.left.readInt32
          rw [known] at read
          have tail := holds.right
          rw [elementBytes, List.length_append, length_wireNat, Nat.cast_add, ← add_assoc] at tail
          have null : none ∈ elements := by simpa using isNull
          apply ih (val + 4 + payload.length) tail
            (fun other member => payloads other (List.mem_cons_of_mem _ member)) null
          rw [← Except.ok.inj read, ofNat_toInt small] at others
          rw [others]
          rw [elementSlots] at same
          rw [← (List.cons.inj same).2, List.flatMap_cons, elementBytes, List.length_append,
            List.length_append, length_wireNat]
          congr 2
          push_cast
          ring

def nullThenSeven : WireArray :=
  { flags := 1, oid := 23, dims := [{ size := 2, lowerBound := 1 }],
    elements := [none, some [0, 0, 0, 7]] }

theorem nullThenSeven_wellFormed : nullThenSeven.WellFormed := by
  apply WireArray.WellFormed.of_elements
  · decide
  · decide
  · decide
  · decide
  · decide
  · intro payload member
    rcases List.mem_cons.mp member with null | seven
    · cases null
    · rw [Option.some.inj (List.mem_singleton.mp seven)]
      decide

/-- Every element is decoded from its own payload exactly when no element is NULL. -/
theorem decodesEachPayload_iff (array : WireArray) (wellFormed : array.WellFormed) :
    DecodesEachPayload array ↔ none ∉ array.elements := by
  constructor
  · intro decodes isNull
    have run := decodes (Int × Int) (fun _ => placeReader)
    rw [pgvalToArrayFrom_header _ array wellFormed, mapM_placeReader] at run
    obtain ⟨⟨values, last⟩, read, same⟩ := Results.map_ok.mp run
    have parts := Prod.mk.inj same
    have values : values = elementSlots array.header.length array.elements :=
      congrArg JaggedVector.values parts.1
    apply readElements_null array.elements array.header.length array.elements_hold wellFormed.payloads isNull
    rw [read, values, parts.2, WireArray.bytes, List.length_append]
    push_cast
    rfl
  · exact decodesEachPayload_of_noNull array wellFormed

theorem decodesEachPayload_iff_nullThenSeven :
    DecodesEachPayload nullThenSeven ↔ none ∉ nullThenSeven.elements :=
  decodesEachPayload_iff nullThenSeven nullThenSeven_wellFormed

theorem seven_after_null_lost :
    nullThenSeven.WellFormed ∧
      pgvalToArray (fun _ => pgvalToInt32) nullThenSeven.bytes 1 =
        .ok { dimSizes := [2], values := [0, 67108864] } ∧
      ¬ DecodesEachPayload nullThenSeven := by
  refine ⟨nullThenSeven_wellFormed, by decide, ?_⟩
  intro decodes
  have run := decodes (BitVec 32) (fun _ => pgvalToInt32)
  exact absurd run (by decide)

end PqAsync
