import PqAsync.CellCore
import PqAsync.ValueCodecs

/-!
The encoders of lines, segments, boxes and circles, and what decoding the parameter of any
geometric value gives back.
-/

namespace PqAsync

def doubleMemory (value : BitVec 64) : List UInt8 := inMemory 8 (swap8 value true)

def newParameterLine (value : Line) : Except WireError Parameter :=
  .ok (.binary lineOid.toNat
    (doubleMemory value.a ++ (doubleMemory value.b ++ doubleMemory value.c)))

def newParameterLseg (value : Lseg) : Except WireError Parameter :=
  .ok (.binary lsegOid.toNat (pointMemory value.a ++ pointMemory value.b))

def newParameterBox (value : Box) : Except WireError Parameter :=
  .ok (.binary boxOid.toNat (pointMemory value.high ++ pointMemory value.low))

def newParameterCircle (value : Circle) : Except WireError Parameter :=
  .ok (.binary circleOid.toNat (pointMemory value.center ++ doubleMemory value.radius))

def doubleForm (value : BitVec 64) : List UInt8 := Bytes.bigEndian 8 value.toNat

def lineForm (value : Line) : List UInt8 :=
  doubleForm value.a ++ (doubleForm value.b ++ doubleForm value.c)

def lsegForm (value : Lseg) : List UInt8 := pointForm value.a ++ pointForm value.b

def boxForm (value : Box) : List UInt8 := pointForm value.high ++ pointForm value.low

def circleForm (value : Circle) : List UInt8 :=
  pointForm value.center ++ doubleForm value.radius

@[simp] theorem length_doubleForm (value : BitVec 64) : (doubleForm value).length = 8 := by
  simp [doubleForm]

theorem doubleMemory_eq (value : BitVec 64) : doubleMemory value = doubleForm value := by
  rw [doubleMemory, inMemory_swap8, doubleForm]

theorem newParameterLine_eq (value : Line) :
    newParameterLine value = .ok (.binary lineOid.toNat (lineForm value)) := by
  rw [newParameterLine, lineForm, doubleMemory_eq, doubleMemory_eq, doubleMemory_eq]

theorem newParameterLseg_eq (value : Lseg) :
    newParameterLseg value = .ok (.binary lsegOid.toNat (lsegForm value)) := by
  rw [newParameterLseg, lsegForm, pointMemory_eq, pointMemory_eq]

theorem newParameterBox_eq (value : Box) :
    newParameterBox value = .ok (.binary boxOid.toNat (boxForm value)) := by
  rw [newParameterBox, boxForm, pointMemory_eq, pointMemory_eq]

theorem newParameterCircle_eq (value : Circle) :
    newParameterCircle value = .ok (.binary circleOid.toNat (circleForm value)) := by
  rw [newParameterCircle, circleForm, pointMemory_eq, doubleMemory_eq]

section Readers

variable {buffer : List UInt8} {offset len : Int}

theorem pgvalToDouble_holds {value : BitVec 64} (holds : Holds buffer offset (doubleForm value)) :
    pgvalToDouble buffer offset 8 = .ok value := by
  rw [pgvalToDouble, if_neg (by decide)]
  exact holds.readInt64

theorem Holds.point {value : Point} {rest : List UInt8}
    (holds : Holds buffer offset (pointForm value ++ rest)) :
    pgvalToPoint buffer offset 16 = .ok value ∧ Holds buffer (offset + 16) rest := by
  refine ⟨pgvalToPoint_holds holds.left, holds.after ?_⟩
  rw [length_pointForm]
  rfl

theorem Holds.double {value : BitVec 64} {rest : List UInt8}
    (holds : Holds buffer offset (doubleForm value ++ rest)) :
    pgvalToDouble buffer offset 8 = .ok value ∧ Holds buffer (offset + 8) rest := by
  refine ⟨pgvalToDouble_holds holds.left, holds.after ?_⟩
  rw [length_doubleForm]
  rfl

theorem pgvalToLine_holds {value : Line} (present : len ≠ -1)
    (holds : Holds buffer offset (lineForm value)) : pgvalToLine buffer offset len = .ok value := by
  obtain ⟨a, rest⟩ := Holds.double holds
  obtain ⟨b, last⟩ := Holds.double rest
  rw [add_assoc, show (8 + 8 : Int) = 16 from rfl] at last
  have c := pgvalToDouble_holds last
  rw [pgvalToLine, if_neg present, a, b, c]
  rfl

theorem pgvalToLseg_holds {value : Lseg} (present : len ≠ -1)
    (holds : Holds buffer offset (lsegForm value)) : pgvalToLseg buffer offset len = .ok value := by
  obtain ⟨a, rest⟩ := Holds.point holds
  rw [pgvalToLseg, if_neg present, a, pgvalToPoint_holds rest]
  rfl

theorem pgvalToBox_holds {value : Box} (present : len ≠ -1)
    (holds : Holds buffer offset (boxForm value)) : pgvalToBox buffer offset len = .ok value := by
  obtain ⟨high, rest⟩ := Holds.point holds
  rw [pgvalToBox, if_neg present, high, pgvalToPoint_holds rest]
  rfl

theorem pgvalToCircle_holds {value : Circle} (present : len ≠ -1)
    (holds : Holds buffer offset (circleForm value)) :
    pgvalToCircle buffer offset len = .ok value := by
  obtain ⟨center, rest⟩ := Holds.point holds
  rw [pgvalToCircle, if_neg present, center, pgvalToDouble_holds rest]
  rfl

end Readers

inductive GeoType
  | point
  | line
  | lseg
  | box
  | path
  | polygon
  | circle
  deriving DecidableEq, Repr

namespace GeoType

def Value : GeoType → Type
  | point => Point
  | line => Line
  | lseg => Lseg
  | box => Box
  | path => Path
  | polygon => Polygon
  | circle => Circle

def oid : GeoType → Int
  | point => pointOid
  | line => lineOid
  | lseg => lsegOid
  | box => boxOid
  | path => pathOid
  | polygon => polygonOid
  | circle => circleOid

def newParameter : (type : GeoType) → type.Value → Except WireError Parameter
  | point => newParameterPoint
  | line => newParameterLine
  | lseg => newParameterLseg
  | box => newParameterBox
  | path => newParameterPath
  | polygon => newParameterPolygon
  | circle => newParameterCircle

def pgval : (type : GeoType) → Reader type.Value
  | point => pgvalToPoint
  | line => pgvalToLine
  | lseg => pgvalToLseg
  | box => pgvalToBox
  | path => pgvalToPath
  | polygon => pgvalToPolygon
  | circle => pgvalToCircle

def form : (type : GeoType) → type.Value → List UInt8
  | point => pointForm
  | line => lineForm
  | lseg => lsegForm
  | box => boxForm
  | path => pathForm
  | polygon => polygonForm
  | circle => circleForm

def size : (type : GeoType) → type.Value → Nat
  | point, _ => 16
  | line, _ => 24
  | lseg, _ => 32
  | box, _ => 32
  | path, value => 5 + 16 * (Path.points value).length
  | polygon, value => 4 + 16 * (Polygon.points value).length
  | circle, _ => 24

/-- What there is of a value in its wire form: all of it, but for the bounding box that a
polygon was given. -/
def sent : (type : GeoType) → type.Value → type.Value
  | polygon, value => { points := Polygon.points value : Polygon }
  | _, value => value

theorem length_form (type : GeoType) (value : type.Value) :
    (type.form value).length = type.size value := by
  cases type with
  | point => exact length_pointForm value
  | line => simp [form, size, lineForm]
  | lseg => simp [form, size, lsegForm]
  | box => simp [form, size, boxForm]
  | path => exact length_pathForm value
  | polygon => exact length_polygonForm value
  | circle => simp [form, size, circleForm]

theorem binary_of_lt (oid : Nat) {bytes : List UInt8} (small : bytes.length < 2 ^ 31) :
    Parameter.binary oid bytes =
      { oid, value := some bytes, length := bytes.length, format := 1 } := by
  rw [Parameter.binary, toInt_of_lt small]

theorem newParameter_form (type : GeoType) (value : type.Value)
    (small : (type.form value).length < 2 ^ 31) :
    type.newParameter value = .ok
      { oid := type.oid.toNat, value := some (type.form value),
        length := (type.form value).length, format := 1 } := by
  cases type with
  | point => exact (newParameterPoint_eq value).trans (congrArg Except.ok (binary_of_lt _ small))
  | line => exact (newParameterLine_eq value).trans (congrArg Except.ok (binary_of_lt _ small))
  | lseg => exact (newParameterLseg_eq value).trans (congrArg Except.ok (binary_of_lt _ small))
  | box => exact (newParameterBox_eq value).trans (congrArg Except.ok (binary_of_lt _ small))
  | path => exact newParameterPath_eq value small
  | polygon => exact newParameterPolygon_eq value small
  | circle => exact (newParameterCircle_eq value).trans (congrArg Except.ok (binary_of_lt _ small))

theorem pgval_holds (type : GeoType) (value : type.Value) (small : type.size value < 2 ^ 31)
    {buffer : List UInt8} {offset : Int} (holds : Holds buffer offset (type.form value)) :
    type.pgval buffer offset (type.form value).length = .ok (type.sent value) := by
  have present : ((type.form value).length : Int) ≠ -1 := by omega
  cases type with
  | point =>
      have length : (pointForm value).length = 16 := length_pointForm value
      change pgvalToPoint buffer offset (pointForm value).length = _
      rw [length]
      exact pgvalToPoint_holds holds
  | line => exact pgvalToLine_holds present holds
  | lseg => exact pgvalToLseg_holds present holds
  | box => exact pgvalToBox_holds present holds
  | path =>
      have few : (Path.points value).length < 2 ^ 31 := by
        change 5 + 16 * (Path.points value).length < 2 ^ 31 at small
        omega
      exact pgvalToPath_holds present few holds
  | polygon =>
      have few : (Polygon.points value).length < 2 ^ 31 := by
        change 4 + 16 * (Polygon.points value).length < 2 ^ 31 at small
        omega
      exact pgvalToPolygon_holds present few holds
  | circle => exact pgvalToCircle_holds present holds

/-- Decoding the parameter of a geometric value gives back what was sent of it, and as many
bytes are written as are announced. -/
theorem geometry_round_trip (type : GeoType) (value : type.Value)
    (small : type.size value < 2 ^ 31) :
    ∃ param bytes, type.newParameter value = .ok param ∧ param.oid = type.oid ∧
      param.format = 1 ∧ param.value = some bytes ∧ bytes.length = type.size value ∧
      param.length = bytes.length ∧
      type.pgval bytes 0 param.length = .ok (type.sent value) := by
  have length := length_form type value
  have built := newParameter_form type value (by omega)
  refine ⟨_, type.form value, built, ?_, rfl, rfl, length, rfl, ?_⟩
  · cases type <;> rfl
  · exact pgval_holds type value small (Holds.whole (type.form value))

theorem geometry_round_trip_open : ∃ param bytes,
    newParameter path { closed := false, points := [{ x := 1, y := 2 }] : Path } = .ok param ∧
      param.oid = path.oid ∧ param.format = 1 ∧ param.value = some bytes ∧
      bytes.length = path.size { closed := false, points := [{ x := 1, y := 2 }] : Path } ∧
      param.length = bytes.length ∧ path.pgval bytes 0 param.length =
        .ok (path.sent { closed := false, points := [{ x := 1, y := 2 }] : Path }) :=
  geometry_round_trip path { closed := false, points := [{ x := 1, y := 2 }] : Path } (by decide)

theorem bounding_box_lost :
    ∃ value : Polygon, 4 + 16 * value.points.length < 2 ^ 31 ∧
      ∃ param bytes, newParameterPolygon value = .ok param ∧ param.value = some bytes ∧
        pgvalToPolygon bytes 0 param.length ≠ .ok value := by
  let value : Polygon :=
    { boundBox := { high := { x := 1, y := 1 }, low := {} }, points := [{ x := 1, y := 1 }] }
  have small : (polygonForm value).length < 2 ^ 31 := by decide
  refine ⟨value, by decide, _, polygonForm value, newParameterPolygon_eq value small, rfl, ?_⟩
  intro same
  have read : pgvalToPolygon (polygonForm value) 0 (polygonForm value).length =
      .ok { points := value.points } :=
    pgvalToPolygon_holds (by omega) (by decide) (Holds.whole (polygonForm value))
  exact absurd (congrArg Polygon.boundBox (Except.ok.inj (read.symm.trans same))) (by decide)

end GeoType

end PqAsync
