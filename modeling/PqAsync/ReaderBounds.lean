import PqAsync.RangeRoundTrip
import PqAsync.ReaderNeeds

/-!
What the readers of ranges and arrays touch, whose bounds and elements carry lengths of their own,
and the condition for each reader to stay inside its value.
-/

namespace PqAsync

open Results

section

variable (buffer : List UInt8)

def BoundFits (fits : Int → Int → Prop) (present : Bool) (out : Int) : Prop :=
  present = true → InBuffer buffer out 4 ∧ fits (out + 4) (int32At buffer out)

def boundEnd (present : Bool) (out : Int) : Int :=
  if present then out + 4 + int32At buffer out else out

def lowerPresent (val : Int) : Bool := (byteAt buffer val).toBitVec.signExtend 32 &&& 0x29 == 0

def upperPresent (val : Int) : Bool := (byteAt buffer val).toBitVec.signExtend 32 &&& 0x51 == 0

def BoundsFit (fits stops : Int → Int → Prop) (val : Int) : Prop :=
  InBuffer buffer val 1 ∧ BoundFits buffer fits (lowerPresent buffer val) (val + 1) ∧
    (lowerPresent buffer val = true ∧ stops (val + 5) (int32At buffer (val + 1)) ∨
      BoundFits buffer fits (upperPresent buffer val)
        (boundEnd buffer (lowerPresent buffer val) (val + 1)))

def ElementsFit (fits stops : Int → Int → Prop) : Nat → Int → Prop
  | 0, _ => True
  | remaining + 1, val =>
      InBuffer buffer val 4 ∧ fits (val + 4) (int32At buffer val) ∧
        (stops (val + 4) (int32At buffer val) ∨
          ElementsFit fits stops remaining (val + 4 + int32At buffer val))

/-- The sizes of the dimensions, whose product stays an `int`, and what is to follow them. -/
def DimsFit (rest : Int → Int → Prop) : Nat → Int → Int → Prop
  | 0, eleCount, val => rest eleCount val
  | remaining + 1, eleCount, val =>
      InBuffer buffer val 4 ∧
        (-2 ^ 31 ≤ eleCount * int32At buffer val ∧ eleCount * int32At buffer val < 2 ^ 31) ∧
        DimsFit rest remaining (eleCount * int32At buffer val) (val + 4 + 4)

/-- An array with a negative number of dimensions is rejected. -/
def ArrayFits (fits stops : Int → Int → Int → Prop) : Prop :=
  InBuffer buffer 0 4 ∧ (0 ≤ int32At buffer 0 →
    InBuffer buffer 8 4 ∧
      DimsFit buffer
        (fun eleCount val => ElementsFit buffer (fits (int32At buffer 8)) (stops (int32At buffer 8))
          eleCount.toNat val)
        (int32At buffer 0).toNat (if int32At buffer 0 > 0 then 1 else 0) 12)

end

section

variable {α β : Type} {buffer : List UInt8}

structure Within (reader : Reader α) (buffer : List UInt8) (fits stops : Int → Int → Prop) : Prop where
  contained {val len : Int} : Contained (reader buffer val len) ↔ fits val len
  given {val len : Int} : fits val len →
    ((∃ a, reader buffer val len = .ok a) ↔ ¬stops val len)

theorem contained_map {first : Except WireError α} (f : α → β) :
    Contained (first >>= fun a => pure (f a)) ↔ Contained first := by
  rw [contained_bind]
  exact and_iff_left fun a _ => contained_ok (f a)

theorem Within.contained_bind {reader : Reader α} {fits stops : Int → Int → Prop}
    (within : Within reader buffer fits stops) {val len : Int} {next : α → Except WireError β}
    {others : Prop} (rest : ∀ a, reader buffer val len = .ok a → (Contained (next a) ↔ others)) :
    Contained (reader buffer val len >>= next) ↔ fits val len ∧ (stops val len ∨ others) := by
  rw [PqAsync.contained_bind, within.contained]
  refine and_congr_right fun given => ?_
  have accepted := within.given given
  by_cases stopped : stops val len
  · refine iff_of_true ?_ (Or.inl stopped)
    intro a read
    exact absurd stopped (accepted.mp ⟨a, read⟩)
  · obtain ⟨a, read⟩ := accepted.mpr stopped
    rw [or_iff_right stopped]
    constructor
    · intro all
      exact (rest a read).mp (all a read)
    · intro left own readOwn
      exact (rest own readOwn).mpr left

variable {reader : Reader α} {fits stops : Int → Int → Prop}
  (within : Within reader buffer fits stops) {val len : Int} {present : Bool}

include within

theorem contained_bound {absent : α} {next : α × Int → Except WireError β} {others : Prop}
    (rest : ∀ bound, Contained (next (bound, boundEnd buffer present val)) ↔ others) :
    Contained (readBoundOr absent reader buffer present val >>= next) ↔
      BoundFits buffer fits present val ∧
        (present = true ∧ stops (val + 4) (int32At buffer val) ∨ others) := by
  rw [readBoundOr, BoundFits]
  rw [boundEnd] at rest
  cases present with
  | false =>
      rw [if_neg Bool.false_ne_true, ok_bind]
      rw [if_neg Bool.false_ne_true] at rest
      rw [rest absent]
      simp
  | true =>
      rw [if_pos rfl, bind_assoc, forall_prop_of_true rfl, and_assoc]
      rw [if_pos rfl] at rest
      refine needs_readInt32.contained_bind fun l read => ?_
      rw [bind_assoc, readInt32_eq read]
      refine (within.contained_bind fun bound _ => rest bound).trans ?_
      simp

theorem contained_lastBound {absent : α} (f : α × Int → β) :
    Contained (readBoundOr absent reader buffer present val >>= fun x => pure (f x)) ↔
      BoundFits buffer fits present val := by
  refine (@contained_bound α β buffer reader fits stops within val present absent
    (fun x => pure (f x)) True fun bound => iff_of_true (contained_ok _) trivial).trans ?_
  simp

theorem contained_elements {remaining : Nat} :
    Contained (readElements reader buffer remaining val) ↔
      ElementsFit buffer fits stops remaining val := by
  induction remaining generalizing val with
  | zero => exact iff_of_true (contained_ok _) trivial
  | succ remaining ih =>
      refine needs_readInt32.contained_bind fun valLen read => ?_
      rw [readInt32_eq read]
      refine within.contained_bind fun value _ => ?_
      exact (contained_map _).trans ih

theorem contained_bounds {absent : α} :
    Contained (pgvalToBoundsFrom absent reader buffer val len) ↔
      BoundsFit buffer fits stops val := by
  refine needs_readByte.contained_bind fun byte read => ?_
  have shift : val + 1 + 4 = val + 5 := by ring
  have lower : (BoundRange.mk (byte.toBitVec.signExtend 32) absent absent).hasLbound =
      lowerPresent buffer val := by
    rw [readByte_eq read]
    rfl
  have upper : (BoundRange.mk (byte.toBitVec.signExtend 32) absent absent).hasUbound =
      upperPresent buffer val := by
    rw [readByte_eq read]
    rfl
  rw [← shift]
  dsimp only
  rw [lower, upper]
  refine contained_bound within fun lb => ?_
  exact contained_lastBound within _

omit within

theorem contained_dims {others : Int → Int → Prop}
    {next : List Nat × Int × Int → Except WireError β}
    (rest : ∀ dimSizes eleCount val,
      Contained (next (dimSizes, eleCount, val)) ↔ others eleCount val)
    {remaining : Nat} {eleCount : Int} :
    Contained (readDims buffer remaining eleCount val >>= next) ↔
      DimsFit buffer others remaining eleCount val := by
  induction remaining generalizing eleCount val next with
  | zero => exact rest [] eleCount val
  | succ remaining ih =>
      rw [readDims, bind_assoc]
      refine needs_readInt32.contained_bind fun dimVal read => ?_
      rw [bind_assoc, readInt32_eq read, mulInt]
      by_cases fitting : -2 ^ 31 ≤ eleCount * int32At buffer val ∧
          eleCount * int32At buffer val < 2 ^ 31
      · rw [if_pos fitting, ok_bind, bind_assoc, and_iff_right fitting]
        refine ih ?_
        intro dimSizes eleCount val
        exact rest _ eleCount val
      · rw [if_neg fitting, error_bind]
        exact iff_of_false (fun contained => contained.2 rfl) fun both => fitting both.1

theorem contained_array {valFromPgparam : Int → Reader α} {fits stops : Int → Int → Int → Prop}
    (within : ∀ eleOid, Within (valFromPgparam eleOid) buffer (fits eleOid) (stops eleOid)) :
    Contained (pgvalToArray valFromPgparam buffer 1) ↔ ArrayFits buffer fits stops := by
  refine (contained_map _).trans ?_
  refine needs_readInt32.contained_bind fun svrDimCount read => ?_
  rw [← readInt32_eq read]
  dsimp only
  by_cases negative : svrDimCount.toInt < 0
  · rw [if_pos negative]
    exact iff_of_true (contained_thrown (by decide) (by decide)) fun nonneg => by omega
  · rw [if_neg negative, forall_prop_of_true (by omega)]
    refine needs_readInt32.contained_bind fun eleOid own => ?_
    rw [readInt32_eq own]
    refine contained_dims fun dimSizes eleCount val => ?_
    exact (contained_map _).trans (contained_elements (within _))

end

section

variable (buffer : List UInt8) (val len : Int)

def FixedFits (size : Nat) : Prop := len = -1 ∨ InBuffer buffer val size

def NumericStops : Prop := len ≠ -1 ∧ int16At buffer val < -1

/-- The condition for the reader of a type to stay inside the buffer. -/
def PgType.Fits : PgType → Prop
  | bool => FixedFits buffer val len 1
  | int16 => FixedFits buffer val len 2
  | int32 | float | oid | date => FixedFits buffer val len 4
  | macaddr => FixedFits buffer val len 6
  | int64 | double | money | time | timeTz | timestamp | timestampTz | macaddr8 =>
      FixedFits buffer val len 8
  | interval | point => FixedFits buffer val len 16
  | line | circle => FixedFits buffer val len 24
  | lseg | box => FixedFits buffer val len 32
  | string | bytea => 0 ≤ len → InBuffer buffer val len
  | uuid => len = 16 → InBuffer buffer val 16
  | numeric => NumericFits buffer val len
  | cidr | inet => AddressFits buffer val len
  | path => PathFits buffer val len
  | polygon => PolygonFits buffer val len
  | int4range | daterange =>
      BoundsFit buffer (fun val len => FixedFits buffer val len 4) (fun _ _ => False) val
  | int8range | tsrange | tstzrange =>
      BoundsFit buffer (fun val len => FixedFits buffer val len 8) (fun _ _ => False) val
  | numrange => BoundsFit buffer (NumericFits buffer) (NumericStops buffer) val

/-- The same for the reader that the switch of an element type chooses. -/
def Scalar.Fits (oid : Int) : Scalar → Prop
  | value target =>
      if oid ∈ target.ownOids then target.Fits buffer val len
      else ∀ source, target.source oid = some source → source.Fits buffer val len
  | json => oid ∈ PgType.jsonOids → ∀ source, PgType.ofOid oid = some source →
      source.Fits buffer val len

end

section

variable {host : Host} {buffer : List UInt8} {val len : Int}

theorem PgType.sentinel {t : PgType} {size : Nat} (fixed : t.fixedSize = some size) :
    ∃ a, t.pgval host buffer val (-1) = .ok a := by
  cases t <;> first | exact ⟨_, rfl⟩ | cases fixed

theorem PgType.contained_fixed {t : PgType} {size : Nat} (fixed : t.fixedSize = some size) :
    Contained (t.pgval host buffer val len) ↔ FixedFits buffer val len size := by
  by_cases absent : len = -1
  · obtain ⟨a, read⟩ := @PgType.sentinel host buffer val _ _ fixed
    rw [absent, read]
    exact iff_of_true (contained_ok a) (Or.inl rfl)
  · rw [FixedFits, or_iff_right absent]
    exact (PgType.needs_fixed fixed absent).contained_iff

theorem PgType.within_fixed {t : PgType} {size : Nat} (fixed : t.fixedSize = some size) :
    Within (t.pgval host) buffer (fun val len => FixedFits buffer val len size)
      fun _ _ => False := by
  refine ⟨PgType.contained_fixed fixed, ?_⟩
  intro val len given
  refine iff_of_true ?_ not_false
  by_cases absent : len = -1
  · rw [absent]
    exact PgType.sentinel fixed
  · exact (PgType.needs_fixed fixed absent).given (given.resolve_left absent)

theorem within_numeric : Within pgvalToNumeric buffer (NumericFits buffer) (NumericStops buffer) := by
  refine ⟨contained_numeric, ?_⟩
  intro val len given
  rw [pgvalToNumeric, NumericStops]
  by_cases absent : len = -1
  · rw [if_pos absent]
    exact iff_of_true ⟨_, rfl⟩ fun stops => stops.1 absent
  · obtain ⟨header, counted, digits⟩ := given.resolve_left absent
    rw [if_neg absent, and_iff_right absent]
    have inside {offset : Int} (low : 0 ≤ offset) (high : offset + 2 ≤ 8) :
        InBuffer buffer (val + offset) 2 := by
      rw [InBuffer] at header ⊢
      omega
    obtain ⟨ndigits, first⟩ := needs_readInt16.given (add_zero val ▸ @inside 0 (by decide) (by decide))
    obtain ⟨weight, second⟩ := needs_readInt16.given (@inside 2 (by decide) (by decide))
    obtain ⟨sign, third⟩ := needs_readInt16.given (@inside 4 (by decide) (by decide))
    obtain ⟨dscale, fourth⟩ := needs_readInt16.given (@inside 6 (by decide) (by decide))
    rw [first, ok_bind, second, ok_bind, third, ok_bind, fourth, ok_bind, ← readInt16_eq first, newDigits]
    rw [← readInt16_eq first] at counted digits
    by_cases negative : ndigits.toInt + 1 < 0
    · rw [if_pos negative]
      refine iff_of_false ?_ (by omega)
      rintro ⟨a, read⟩
      contradiction
    · rw [if_neg negative, if_neg (by omega), ok_bind]
      refine iff_of_true ((needs_readDigits.map _).given ?_) (by omega)
      intro _
      rw [InBuffer] at digits ⊢
      omega

theorem contained_range {w : Nat} {reader : Reader (BitVec w)} {fits stops : Int → Int → Prop}
    (within : Within reader buffer fits stops) (len : Int) :
    Contained (pgvalToRange reader buffer val len) ↔ BoundsFit buffer fits stops val := by
  rw [pgvalToRange_bounds]
  exact (contained_map _).trans (contained_bounds within)

theorem contained_boundRange {α : Type} {absent : α} {reader : Reader α}
    {fits stops : Int → Int → Prop} (within : Within reader buffer fits stops) (len : Int) :
    Contained (pgvalToBounds absent reader buffer val len) ↔ BoundsFit buffer fits stops val :=
  (contained_map _).trans (contained_bounds within)

theorem PgType.contained_pgval {t : PgType} :
    Contained (t.pgval host buffer val len) ↔ t.Fits buffer val len := by
  cases t
  case string | bytea => exact contained_bytes
  case uuid => exact contained_uuid
  case numeric => exact contained_numeric
  case cidr | inet => exact contained_address
  case path => exact contained_path
  case polygon => exact contained_polygon
  case int4range => exact contained_range (@PgType.within_fixed host buffer int32 4 rfl) len
  case int8range => exact contained_range (@PgType.within_fixed host buffer int64 8 rfl) len
  case numrange => exact contained_boundRange within_numeric len
  case tsrange => exact contained_boundRange (@PgType.within_fixed host buffer timestamp 8 rfl) len
  case tstzrange => exact contained_boundRange (@PgType.within_fixed host buffer timestampTz 8 rfl) len
  case daterange => exact contained_boundRange (@PgType.within_fixed host buffer date 4 rfl) len
  all_goals exact PgType.contained_fixed rfl

variable {conversions : Conversions}

theorem contained_orThrow {α : Type} (result : Except String α) : Contained (orThrow result) := by
  cases result with
  | error message => exact contained_thrown (by simp) (by simp)
  | ok a => exact contained_ok a

theorem Scalar.contained_val {element : Scalar} {oid : Int} :
    Contained (element.valFromPgparam conversions host oid buffer val len) ↔
      element.Fits buffer val len oid := by
  have converted {α : Type} {source : PgType} (convert : source.Value → Except String α) :
      Contained (source.pgval host buffer val len >>= fun value => orThrow (convert value)) ↔
        source.Fits buffer val len := by
    rw [contained_bind, PgType.contained_pgval]
    exact and_iff_left fun value _ => contained_orThrow _
  have unsupported {α : Type} : Contained (.error unsupportedOid : Except WireError α) :=
    contained_thrown (by decide) (by decide)
  have onlySource {source : PgType} : source.Fits buffer val len ↔
      ∀ t, some source = some t → t.Fits buffer val len := by
    simp
  cases element with
  | value target =>
      change Contained (PgType.select conversions oid (fun t => t.pgval host buffer val len) target) ↔
        if oid ∈ target.ownOids then target.Fits buffer val len
        else ∀ source, target.source oid = some source → source.Fits buffer val len
      rw [PgType.select]
      by_cases own : oid ∈ target.ownOids
      · rw [if_pos own, if_pos own, PgType.contained_pgval]
      · rw [if_neg own, if_neg own]
        cases target.source oid with
        | none => exact iff_of_true unsupported nofun
        | some source => exact (converted _).trans onlySource
  | json =>
      change Contained (selectJson conversions oid fun t => t.pgval host buffer val len) ↔
        (oid ∈ PgType.jsonOids → ∀ source, PgType.ofOid oid = some source →
          source.Fits buffer val len)
      rw [selectJson]
      by_cases inSwitch : oid ∈ PgType.jsonOids
      · rw [if_pos inSwitch, forall_prop_of_true inSwitch]
        cases PgType.ofOid oid with
        | none => exact iff_of_true unsupported nofun
        | some source => exact (converted _).trans onlySource
      · rw [if_neg inSwitch]
        exact iff_of_true unsupported fun member => absurd member inSwitch

theorem Scalar.within_val {element : Scalar} (oid : Int) :
    Within (element.valFromPgparam conversions host oid) buffer
      (fun val len => element.Fits buffer val len oid)
      fun val len => ¬∃ a, element.valFromPgparam conversions host oid buffer val len = .ok a :=
  ⟨Scalar.contained_val, fun _ => not_not.symm⟩

theorem length_readAddress {room nb : Nat} {bytes : List UInt8}
    (read : readAddress buffer room nb val = .ok bytes) : bytes.length = room := by
  induction room generalizing nb val bytes with
  | zero =>
      cases nb with
      | zero =>
          cases read
          rfl
      | succ nb => contradiction
  | succ room ih =>
      cases nb with
      | zero =>
          cases read
          exact List.length_replicate
      | succ nb =>
          obtain ⟨byte, _, rest⟩ := bind_ok.mp read
          obtain ⟨others, done, same⟩ := bind_ok.mp rest
          cases same
          rw [List.length_cons, ih done]

theorem length_ipaddr {address : NetAddress} (read : pgvalToAddress buffer val len = .ok address) :
    address.ipaddr.length = 16 := by
  rw [pgvalToAddress] at read
  split at read
  · cases read
    rfl
  · obtain ⟨f, _, rest⟩ := bind_ok.mp read
    dsimp only at rest
    split at rest
    · contradiction
    · obtain ⟨bits, _, rest⟩ := bind_ok.mp rest
      obtain ⟨nb, _, rest⟩ := bind_ok.mp rest
      obtain ⟨ipaddr, copied, same⟩ := bind_ok.mp rest
      cases same
      exact length_readAddress copied

end

/-- A reader of a whole value stays inside it exactly if the counts and lengths that it finds
there fit, and an array reader exactly if its dimensions and its elements up to the first rejected
one do. -/
theorem readers_stay_inside_iff (conversions : Conversions) (host : Host) (buffer : List UInt8) :
    (∀ t : PgType, Contained (t.pgval host buffer 0 buffer.length) ↔
      t.Fits buffer 0 buffer.length) ∧
    (∀ element : Scalar,
      Contained (pgvalToArray (element.valFromPgparam conversions host) buffer 1) ↔
        ArrayFits buffer (fun oid val len => element.Fits buffer val len oid) fun oid val len =>
          ¬∃ a, element.valFromPgparam conversions host oid buffer val len = .ok a) ∧
    ∀ address, pgvalToAddress buffer 0 buffer.length = .ok address →
      address.ipaddr.length = 16 :=
  ⟨fun _ => PgType.contained_pgval, fun _ => contained_array Scalar.within_val,
    fun _ => length_ipaddr⟩

/-- A numeric that counts three digits and has none, and an address of 17 bytes that are there but
do not fit the address field. -/
theorem counts_leave_the_value :
    pgvalToNumeric [0, 3, 0, 0, 0, 0, 0, 0] 0 8 = .error .outOfBounds ∧
      pgvalToInet ([2, 32, 0, 17] ++ List.replicate 17 1) 0 21 = .error .outOfBounds ∧
      ¬Contained (pgvalToNumeric [0, 3, 0, 0, 0, 0, 0, 0] 0 8) ∧
      ¬Contained (pgvalToInet ([2, 32, 0, 17] ++ List.replicate 17 1) 0 21) := by
  have numeric : pgvalToNumeric [0, 3, 0, 0, 0, 0, 0, 0] 0 8 = .error .outOfBounds := rfl
  have inet : pgvalToInet ([2, 32, 0, 17] ++ List.replicate 17 1) 0 21 = .error .outOfBounds := rfl
  exact ⟨numeric, inet, fun contained => contained.1 numeric, fun contained => contained.1 inet⟩

end PqAsync
