import PqAsync.Wire
import PqAsync.ValueCore
import PqAsync.ArrayEncoding

/-!
The wire form of each kind of value, that its encoder sends this form, and that its reader
gives the value back from a place that holds it.
-/

namespace PqAsync

def pointForm (value : Point) : List UInt8 :=
  Bytes.bigEndian 8 value.x.toNat ++ Bytes.bigEndian 8 value.y.toNat

def pathForm (value : Path) : List UInt8 :=
  (if value.closed then 1 else 0) :: (wireNat value.points.length ++
    value.points.flatMap pointForm)

def polygonForm (value : Polygon) : List UInt8 :=
  wireNat value.points.length ++ value.points.flatMap pointForm

def boundForm {w : Nat} (vl : Nat) (bound : BitVec w) : List UInt8 :=
  wireNat vl ++ Bytes.bigEndian vl bound.toNat

def rangeForm {w : Nat} (vl : Nat) (value : Range w) : List UInt8 :=
  .ofBitVec (value.flags.setWidth 8) ::
    ((if value.hasLbound then boundForm vl value.lb else []) ++
      (if value.hasUbound then boundForm vl value.ub else []))

def macaddrForm (value : Macaddr) : List UInt8 :=
  [value.a, value.b, value.c, value.d, value.e, value.f]

@[simp] theorem length_pointForm (value : Point) : (pointForm value).length = 16 := by
  simp [pointForm]

theorem length_points (points : List Point) :
    (points.flatMap pointForm).length = 16 * points.length := by
  induction points with
  | nil => rfl
  | cons point points ih =>
      rw [List.flatMap_cons, List.length_append, length_pointForm, ih, List.length_cons]
      omega

theorem length_pathForm (value : Path) :
    (pathForm value).length = 5 + 16 * value.points.length := by
  rw [pathForm, List.length_cons, List.length_append, length_wireNat, length_points]
  omega

theorem length_polygonForm (value : Polygon) :
    (polygonForm value).length = 4 + 16 * value.points.length := by
  rw [polygonForm, List.length_append, length_wireNat, length_points]

theorem pointMemory_eq (value : Point) : pointMemory value = pointForm value := by
  rw [pointMemory, pointForm, inMemory_swap8, inMemory_swap8]

theorem sends_binary {α : Type} {newParameter : α → Except WireError Parameter} {value : α}
    (oid : Nat) {bytes : List UInt8} (built : newParameter value = .ok (.binary oid bytes))
    (small : bytes.length < 2 ^ 31) : Sends newParameter 0 value bytes := by
  refine ⟨.binary oid bytes, [], built, ?_, ?_⟩
  · rw [Parameter.binary, List.append_nil]
    rfl
  · rw [Parameter.binary, toInt_of_lt small]
    exact Int.sub_zero _

theorem sends_string (value : List UInt8) (small : value.length + 1 < 2 ^ 31) :
    Sends newParameterString 1 value value := by
  refine ⟨.text textOid value, [0], rfl, rfl, ?_⟩
  rw [Parameter.text, toInt_of_lt small]
  change ((value.length + 1 : Nat) : Int) - 1 = _
  omega

theorem newParameterPoint_eq (value : Point) :
    newParameterPoint value = .ok (.binary pointOid (pointForm value)) := by
  rw [newParameterPoint, pointMemory_eq]

theorem sends_point (value : Point) : Sends newParameterPoint 0 value (pointForm value) :=
  sends_binary pointOid (newParameterPoint_eq value) (by rw [length_pointForm]; decide)

theorem fillBuffer_of_length {oid : Nat} {bytes : List UInt8} :
    fillBuffer oid bytes.length bytes =
      .ok { oid, value := some bytes, length := bytes.length, format := 1 } := by
  rw [fillBuffer, newBuffer, if_neg (by omega)]
  exact if_pos rfl

theorem points_sent {points : List Point} (small : points.length < 2 ^ 31) :
    inMemory 4 (swap4 (BitVec.ofInt 32 (toInt points.length)) true) ++
        (points.take (toInt points.length).toNat).flatMap pointMemory =
      wireNat points.length ++ points.flatMap pointForm := by
  rw [toInt_of_lt small, BitVec.ofInt_natCast, inMemory_swap4, Int.toNat_natCast,
    List.take_length, funext pointMemory_eq]
  rfl

theorem fillBuffer_points (oid : Nat) (front : List UInt8) (points : List Point)
    (small : (front ++ (wireNat points.length ++ points.flatMap pointForm)).length < 2 ^ 31) :
    fillBuffer oid (toInt (front.length + 4 + points.length * 16))
        (front ++ (inMemory 4 (swap4 (BitVec.ofInt 32 (toInt points.length)) true) ++
          (points.take (toInt points.length).toNat).flatMap pointMemory)) =
      .ok { oid, value := some (front ++ (wireNat points.length ++ points.flatMap pointForm)),
            length := (front ++ (wireNat points.length ++ points.flatMap pointForm)).length,
            format := 1 } := by
  have length : (front ++ (wireNat points.length ++ points.flatMap pointForm)).length =
      front.length + 4 + points.length * 16 := by
    rw [List.length_append, List.length_append, length_wireNat, length_points, Nat.mul_comm,
      Nat.add_assoc]
  have count : points.length < 2 ^ 31 := by omega
  rw [points_sent count, ← length, toInt_of_lt small]
  exact fillBuffer_of_length

theorem newParameterPath_eq (value : Path) (small : (pathForm value).length < 2 ^ 31) :
    newParameterPath value = .ok
      { oid := pathOid, value := some (pathForm value), length := (pathForm value).length,
        format := 1 } :=
  fillBuffer_points pathOid [if value.closed then 1 else 0] value.points small

theorem newParameterPolygon_eq (value : Polygon) (small : (polygonForm value).length < 2 ^ 31) :
    newParameterPolygon value = .ok
      { oid := polygonOid, value := some (polygonForm value),
        length := (polygonForm value).length, format := 1 } := by
  have filled := fillBuffer_points polygonOid [] value.points small
  rwa [List.length_nil, Nat.zero_add] at filled

theorem sends_path (value : Path) (small : (pathForm value).length < 2 ^ 31) :
    Sends newParameterPath 0 value (pathForm value) :=
  ⟨_, [], newParameterPath_eq value small, (List.append_nil _).symm, Int.sub_zero _⟩

theorem sends_polygon (value : Polygon) (small : (polygonForm value).length < 2 ^ 31) :
    Sends newParameterPolygon 0 value (polygonForm value) :=
  ⟨_, [], newParameterPolygon_eq value small, (List.append_nil _).symm, Int.sub_zero _⟩

theorem newParameterRange_eq {w : Nat} (oid vl : Nat) {toNetwork : BitVec w → BitVec w}
    (swapped : ∀ bound, inMemory vl (toNetwork bound) = Bytes.bigEndian vl bound.toNat)
    (value : Range w) :
    newParameterRange oid vl toNetwork value = .ok (.binary oid (rangeForm vl value)) := by
  have bounds (bound : BitVec w) : boundMemory vl toNetwork bound = boundForm vl bound := by
    rw [boundMemory, inMemory_swap4, swapped]
    rfl
  rw [newParameterRange, bounds, bounds]
  rfl

theorem Holds.readByte {buffer : List UInt8} {offset : Int} {byte : UInt8} {rest : List UInt8}
    (holds : Holds buffer offset (byte :: rest)) : PqAsync.readByte buffer offset = .ok byte := by
  have single : Holds buffer offset [byte] := Holds.left (show Holds buffer offset ([byte] ++ rest) from holds)
  rw [PqAsync.readByte, show PqAsync.readBytes buffer offset (1 : Nat) = .ok [byte] from single.readBytes rfl]
  rfl

theorem Holds.tail {buffer : List UInt8} {offset : Int} {byte : UInt8} {rest : List UInt8}
    (holds : Holds buffer offset (byte :: rest)) : Holds buffer (offset + 1) rest :=
  Holds.right (show Holds buffer offset ([byte] ++ rest) from holds)

theorem pgvalToString_holds {buffer : List UInt8} {offset : Int} {value : List UInt8}
    (holds : Holds buffer offset value) :
    pgvalToString buffer offset value.length = .ok value := by
  rw [pgvalToString, if_neg (by omega), if_neg (by omega), Int.toNat_natCast]
  exact holds.readBytes rfl

theorem pgvalToInt16_holds {buffer : List UInt8} {offset len : Int} {value : BitVec 16}
    (present : len ≠ -1) (holds : Holds buffer offset (Bytes.bigEndian 2 value.toNat)) :
    pgvalToInt16 buffer offset len = .ok value := by
  rw [pgvalToInt16, if_neg present, holds.readInt16]

theorem pgvalToInt32_holds {buffer : List UInt8} {offset len : Int} {value : BitVec 32}
    (present : len ≠ -1) (holds : Holds buffer offset (Bytes.bigEndian 4 value.toNat)) :
    pgvalToInt32 buffer offset len = .ok value := by
  rw [pgvalToInt32, if_neg present, holds.readInt32]

theorem pgvalToInt64_holds {buffer : List UInt8} {offset len : Int} {value : BitVec 64}
    (present : len ≠ -1) (holds : Holds buffer offset (Bytes.bigEndian 8 value.toNat)) :
    pgvalToInt64 buffer offset len = .ok value := by
  rw [pgvalToInt64, if_neg present, holds.readInt64]

theorem pgvalToOid_holds {buffer : List UInt8} {offset len : Int} {value : BitVec 32}
    (present : len ≠ -1) (holds : Holds buffer offset (Bytes.bigEndian 4 value.toNat)) :
    pgvalToOid buffer offset len = .ok value := by
  rw [pgvalToOid, if_neg present, holds.readInt32]

theorem pgvalToMacaddr_holds {buffer : List UInt8} {offset : Int} {value : Macaddr}
    (holds : Holds buffer offset (macaddrForm value)) :
    pgvalToMacaddr buffer offset 6 = .ok value := by
  rw [macaddrForm] at holds
  have b := holds.tail
  have c := b.tail
  have d := c.tail
  have e := d.tail
  have f := e.tail
  simp only [add_assoc, Int.reduceAdd] at b c d e f
  rw [pgvalToMacaddr, if_neg (by decide), holds.readByte, b.readByte, c.readByte, d.readByte,
    e.readByte, f.readByte]
  rfl

theorem pgvalToPoint_holds {buffer : List UInt8} {offset : Int} {value : Point}
    (holds : Holds buffer offset (pointForm value)) :
    pgvalToPoint buffer offset 16 = .ok value := by
  have y : Holds buffer (offset + 8) (Bytes.bigEndian 8 value.y.toNat) :=
    holds.after (by rw [Bytes.length_bigEndian]; rfl)
  rw [pgvalToPoint, if_neg (by decide), pgvalToDouble, if_neg (by decide), holds.left.readInt64]
  change (readInt64 buffer (offset + 8) >>= fun y => _) = _
  rw [y.readInt64]
  rfl

theorem readPoints_holds {buffer : List UInt8} (points : List Point) {offset : Int}
    (holds : Holds buffer offset (points.flatMap pointForm)) :
    readPoints buffer points.length offset = .ok points := by
  induction points generalizing offset with
  | nil => rfl
  | cons point points ih =>
      rw [List.flatMap_cons] at holds
      have rest : Holds buffer (offset + 16) (points.flatMap pointForm) :=
        holds.after (by rw [length_pointForm]; rfl)
      rw [List.length_cons, readPoints, pgvalToPoint_holds holds.left]
      change (readPoints buffer points.length (offset + 16) >>= fun points => _) = _
      rw [ih rest]
      rfl

theorem pgvalToPath_holds {buffer : List UInt8} {offset : Int} {value : Path} {len : Int}
    (present : len ≠ -1) (small : value.points.length < 2 ^ 31)
    (holds : Holds buffer offset (pathForm value)) :
    pgvalToPath buffer offset len = .ok value := by
  have counted := holds.tail
  have points : Holds buffer (offset + 5) (value.points.flatMap pointForm) := by
    have own := counted.after (show ((wireNat value.points.length).length : Int) = 4 by rw [length_wireNat]; rfl)
    rwa [add_assoc] at own
  have count : pgvalToInt32 buffer (offset + 1) 4 = .ok (BitVec.ofNat 32 value.points.length) :=
    pgvalToInt32_holds (by decide) counted.left
  rw [pgvalToPath, if_neg present, holds.readByte, count]
  simp only [bind, Except.bind, pure, Except.pure, ofNat_toInt small, Int.toNat_natCast]
  change (readPoints buffer value.points.length (offset + 5) >>= fun points => _) = _
  rw [readPoints_holds value.points points]
  obtain ⟨closed, points⟩ := value
  cases closed <;> rfl

theorem pgvalToPolygon_holds {buffer : List UInt8} {offset : Int} {value : Polygon} {len : Int}
    (present : len ≠ -1) (small : value.points.length < 2 ^ 31)
    (holds : Holds buffer offset (polygonForm value)) :
    pgvalToPolygon buffer offset len = .ok { points := value.points } := by
  have points : Holds buffer (offset + 4) (value.points.flatMap pointForm) :=
    holds.after (by rw [length_wireNat]; rfl)
  have count : pgvalToInt32 buffer offset 4 = .ok (BitVec.ofNat 32 value.points.length) :=
    pgvalToInt32_holds (by decide) holds.left
  rw [pgvalToPolygon, if_neg present, count]
  simp only [bind, Except.bind, pure, Except.pure, ofNat_toInt small, Int.toNat_natCast]
  rw [readPoints_holds value.points points]

theorem length_pgvalToString {buffer text : List UInt8} {offset len : Int}
    (read : pgvalToString buffer offset len = .ok text) :
    (len = -1 ∧ text = []) ∨ (text.length : Int) = len := by
  rw [pgvalToString] at read
  by_cases null : len = -1
  · rw [if_pos null] at read
    exact Or.inl ⟨null, (Except.ok.inj read).symm⟩
  · rw [if_neg null] at read
    by_cases negative : len < 0
    · rw [if_pos negative] at read
      exact absurd read (by simp)
    · rw [if_neg negative] at read
      have length := length_readBytes read
      exact Or.inr (by omega)

theorem length_readPoints {buffer : List UInt8} {remaining : Nat} {val : Int}
    {points : List Point} (read : readPoints buffer remaining val = .ok points) :
    points.length = remaining := by
  induction remaining generalizing val points with
  | zero =>
      cases read
      rfl
  | succ remaining ih =>
      rw [readPoints] at read
      obtain ⟨point, _, read⟩ := Results.bind_ok.mp read
      obtain ⟨others, rest, same⟩ := Results.bind_ok.mp read
      cases same
      rw [List.length_cons, ih rest]

theorem length_fillBuffer_points {oid : Nat} {front : List UInt8} {points : List Point}
    (small : points.length < 2 ^ 31) {len : Int} {param : Parameter}
    (filled : fillBuffer oid len
      (front ++ (inMemory 4 (swap4 (BitVec.ofInt 32 (toInt points.length)) true) ++
        (points.take (toInt points.length).toNat).flatMap pointMemory)) = .ok param) :
    param.length = front.length + 4 + 16 * points.length := by
  obtain ⟨_, _, filled⟩ := Results.bind_ok.mp filled
  rw [points_sent small] at filled
  split at filled
  next whole =>
    cases filled
    change len = _
    rw [← whole, List.length_append, List.length_append, length_wireNat, length_points]
    push_cast
    ring
  next => cases filled

theorem pgvalToPath_count {buffer : List UInt8} {val len : Int} {value : Path}
    (read : pgvalToPath buffer val len = .ok value) : value.points.length < 2 ^ 31 := by
  rw [pgvalToPath] at read
  by_cases null : len = -1
  · rw [if_pos null] at read
    cases read
    decide
  rw [if_neg null] at read
  obtain ⟨closed, _, read⟩ := Results.bind_ok.mp read
  obtain ⟨nb, _, read⟩ := Results.bind_ok.mp read
  obtain ⟨points, pointsRead, same⟩ := Results.bind_ok.mp read
  cases same
  have count := length_readPoints pointsRead
  have bound := nb.toInt_lt
  change points.length < 2 ^ 31
  omega

theorem pgvalToPolygon_count {buffer : List UInt8} {val len : Int} {value : Polygon}
    (read : pgvalToPolygon buffer val len = .ok value) : value.points.length < 2 ^ 31 := by
  rw [pgvalToPolygon] at read
  by_cases null : len = -1
  · rw [if_pos null] at read
    cases read
    decide
  rw [if_neg null] at read
  obtain ⟨nb, _, read⟩ := Results.bind_ok.mp read
  obtain ⟨points, pointsRead, same⟩ := Results.bind_ok.mp read
  cases same
  have count := length_readPoints pointsRead
  have bound := nb.toInt_lt
  change points.length < 2 ^ 31
  omega

theorem Range.mask_eq {flags received : BitVec 32} (mask : Nat) (small : mask < 256)
    (same : received.setWidth 8 = flags.setWidth 8) :
    received &&& BitVec.ofNat 32 mask = flags &&& BitVec.ofNat 32 mask := by
  have lowByte (x : BitVec 32) : (x &&& BitVec.ofNat 32 mask).toNat =
      (x.setWidth 8).toNat &&& mask := by
    have fits : mask % 2 ^ 32 = mask := Nat.mod_eq_of_lt (by omega)
    have own : mask % 2 ^ 8 = mask := Nat.mod_eq_of_lt small
    have bound : x.toNat &&& mask < 2 ^ 8 := Nat.lt_of_le_of_lt Nat.and_le_right small
    rw [BitVec.toNat_and, BitVec.toNat_ofNat, BitVec.toNat_setWidth, fits]
    conv_rhs => rw [← own, ← Nat.and_mod_two_pow, Nat.mod_eq_of_lt bound]
  apply BitVec.eq_of_toNat_eq
  rw [lowByte, lowByte, same]

theorem setWidth_signExtend (x : BitVec 8) : (x.signExtend 32).setWidth 8 = x := by
  apply BitVec.eq_of_getLsbD_eq
  intro i inside
  rw [BitVec.getLsbD_setWidth, BitVec.getLsbD_signExtend]
  have wide : i < 32 := by omega
  simp [inside, wide]

end PqAsync
