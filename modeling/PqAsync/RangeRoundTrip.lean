import PqAsync.NumericWire
import PqAsync.TimestampTicks

/-!
Every kind of range comes back from the wire: one codec for each kind of bound, and what the
flags and the two traversals do with any of them.
-/

namespace PqAsync

open Results

section

variable {calendar : Calendar} (rules : calendar.Proleptic)

include rules

theorem sysDays_bounds {date : YearMonthDay} (ok : date.Ok) :
    -13000000 ≤ calendar.sysDays date ∧ calendar.sysDays date ≤ 13000000 := by
  obtain ⟨year, month, day⟩ := date
  obtain ⟨inYears, months, first, last⟩ := ok
  dsimp only at inYears months first last
  by_cases before : year ≤ 1970
  · have short := last.trans (daysInMonth_le year month)
    have bounds := sysDays_before_bounds rules inYears before months ⟨first, short⟩
    omega
  · have short := last.trans (daysInMonth_le year month)
    obtain ⟨day, rfl⟩ : ∃ n, day = n + 1 := ⟨day - 1, by omega⟩
    have epoch := rules.epoch
    have years := sysDays_years_later rules inYears_epoch (le_of_not_ge before) inYears
    have inYear := sysDays_month_bounds rules inYears months.1 months.2
    have inMonth := rules.day day inYears months.1 months.2 (by omega)
    rw [InYears] at inYears
    omega

end

section Bounds

structure NumericBound (x : Numeric) : Prop where
  sign : x.sign = numericPos ∨ x.sign = numericNeg
  digits : ∀ d ∈ x.digits, FitsInt16 d
  ndigits : FitsInt16 x.ndigits
  weight : FitsInt16 x.weight
  dscale : FitsInt16 x.dscale

def AdTicks (calendar : Calendar) (t : BitVec 64) : Prop :=
  ∃ date : YearMonthDay, date.Ok ∧ 1 ≤ date.year ∧ calendar.sysDays date = t.toInt / usecPerDay

def AdDate (d : YearMonthDay) : Prop := d.Ok ∧ 1 ≤ d.year

/-- The encoder sends every valid bound as its payload, and the reader gives from that payload
what the bound is kept as. -/
structure BoundCodec {α : Type} (valid : α → Prop) (encoder : BoundEncoder α)
    (pgvalToBound : Reader α) (payload : α → List UInt8) (kept : α → α) : Prop where
  encodes : ∀ {bound}, valid bound → encoder.Encodes bound (payload bound)
  reads : ∀ {bound}, valid bound → ReadsAs pgvalToBound (payload bound) (.ok (kept bound))
  short : ∀ {bound}, valid bound → (payload bound).length ≤ 65542

theorem int_codec {w vl : Nat} {toNetwork : BitVec w → BitVec w} {reader : Reader (BitVec w)}
    (swapped : ∀ bound, inMemory vl (toNetwork bound) = Bytes.bigEndian vl bound.toNat)
    (reads : ∀ {bound : BitVec w}, ReadsAs reader (Bytes.bigEndian vl bound.toNat) (.ok bound))
    (few : vl ≤ 65542) : BoundCodec (fun _ => True) (intEncoder vl toNetwork) reader
      (fun bound => Bytes.bigEndian vl bound.toNat) id where
  encodes _ := by
    refine ⟨?_, ?_⟩
    · simp [intEncoder]
    · simp [intEncoder, swapped]
  reads _ := reads
  short _ := by
    rw [Bytes.length_bigEndian]
    exact few

theorem int4_codec : BoundCodec (fun _ => True) (intEncoder 4 (swap4 · true)) pgvalToInt32
    (fun bound => Bytes.bigEndian 4 bound.toNat) id :=
  int_codec (inMemory_swap4 · true) (pgvalToInt32_holds (by simp)) (by decide)

theorem int8_codec : BoundCodec (fun _ => True) (intEncoder 8 (swap8 · true)) pgvalToInt64
    (fun bound => Bytes.bigEndian 8 bound.toNat) id :=
  int_codec (inMemory_swap8 · true) (pgvalToInt64_holds (by simp)) (by decide)

theorem numeric_codec : BoundCodec NumericBound numericEncoder pgvalToNumeric numericMemory
    (fun x => { x with spare := 1 }) where
  encodes {x} bound := by
    have few := bound.ndigits.2
    rw [Numeric.ndigits] at few
    exact numericEncoder_encodes (by omega)
  reads {x} bound := by
    intro buffer offset holds
    have counted := narrow_eq_iff.mpr bound.ndigits
    have nonneg : 0 ≤ x.ndigits := by rw [Numeric.ndigits]; omega
    have all : x.digits.take (narrow x.ndigits).toNat = x.digits := by
      rw [counted, Numeric.ndigits, Int.toNat_natCast, List.take_length]
    rw [pgvalToNumeric_holds (fun d member => narrow_eq_iff.mpr (bound.digits d member))
      (by omega) holds, newDigits_ok (by rw [counted]; exact nonneg), ok_bind, received, all,
      narrow_eq_iff.mpr bound.weight, Numeric.narrow_sign bound.sign,
      narrow_eq_iff.mpr bound.dscale]
    rfl
  short {x} bound := by
    have few := bound.ndigits.2
    rw [Numeric.ndigits] at few
    rw [length_numericMemory]
    omega

variable {calendar : Calendar} (rules : calendar.Proleptic) (clock : BitVec 64)

def serverTicks (t : BitVec 64) : BitVec 64 := t - BitVec.ofInt 64 postgresEpochUsec

theorem serverTicks_add (t : BitVec 64) : serverTicks t + BitVec.ofInt 64 postgresEpochUsec = t :=
  BitVec.sub_add_cancel t _

def serverDays (calendar : Calendar) (d : YearMonthDay) : BitVec 32 :=
  BitVec.ofInt 32 (calendar.sysDays d - postgresEpochJdate)

include rules

theorem adTicks_aligned {t : BitVec 64} (ad : AdTicks calendar t) :
    alignedTicks calendar t.toInt = .ok t.toInt ∧ shiftedTicks calendar t = t := by
  obtain ⟨date, ok, after, day⟩ := ad
  have read := yearMonthDay_of rules ok day
  rw [alignedTicks, shiftedTicks, read, if_neg (by omega), if_pos (by omega), if_neg (by omega)]
  exact ⟨rfl, rfl⟩

theorem adTicks_sent {t : BitVec 64} (ad : AdTicks calendar t) :
    checkedInt 64 (t.toInt - postgresEpochUsec) = .ok (serverTicks t) := by
  obtain ⟨date, ok, _, day⟩ := ad
  have bounds := sysDays_bounds rules ok
  have fits : FitsInt64 (t.toInt - postgresEpochUsec) := by
    rw [day] at bounds
    simp only [usecPerDay, postgresEpochUsec] at bounds ⊢
    constructor
    · omega
    · omega
  obtain ⟨v, same⟩ := exists_toInt fits
  have whole := add_epoch (show v.toInt + postgresEpochUsec = t.toInt by omega)
  have difference : serverTicks t = v := by
    rw [serverTicks, ← whole, BitVec.add_sub_cancel]
  rw [difference]
  exact checkedInt_ok.mpr ⟨fits, same⟩

theorem timestamp_codec : BoundCodec (fun bound => AdTicks calendar bound.ts)
    (timestampEncoder calendar) (pgvalToTimestamp calendar clock)
    (fun bound => Bytes.bigEndian 8 (serverTicks bound.ts).toNat)
    (fun bound => { bound with isNull := false }) where
  encodes {bound} ad := by
    refine ⟨by simp [timestampEncoder], ?_⟩
    refine bind_ok.mpr ⟨_, (adTicks_aligned rules ad).1, bind_ok.mpr ⟨_, adTicks_sent rules ad, ?_⟩⟩
    rw [inMemory_swap8]
    rfl
  reads {bound} ad := by
    intro buffer offset holds
    rw [pgvalToTimestamp, if_neg (by simp), holds.readInt64, ok_bind, serverTicks_add,
      Timestamp.ofTicks, (adTicks_aligned rules ad).2]
    rfl
  short _ := by simp

theorem timestampTz_codec : BoundCodec (fun bound => AdTicks calendar bound.sysTime)
    (timestampTzEncoder calendar) (pgvalToTimestampTz calendar clock)
    (fun bound => Bytes.bigEndian 8 (serverTicks bound.sysTime).toNat)
    (fun bound => { bound with isNull := false }) where
  encodes {bound} ad := by
    refine ⟨by simp [timestampTzEncoder], ?_⟩
    refine bind_ok.mpr ⟨_, (adTicks_aligned rules ad).1, bind_ok.mpr ⟨_, adTicks_sent rules ad, ?_⟩⟩
    rw [inMemory_swap8]
    rfl
  reads {bound} ad := by
    intro buffer offset holds
    rw [pgvalToTimestampTz, if_neg (by simp), holds.readInt64, ok_bind, serverTicks_add,
      TimestampTz.ofTicks, (adTicks_aligned rules ad).2]
    rfl
  short _ := by simp

theorem date_codec : BoundCodec (fun bound => AdDate bound.d) (dateEncoder calendar)
    (pgvalToDate calendar clock) (fun bound => Bytes.bigEndian 4 (serverDays calendar bound.d).toNat)
    (fun bound => { bound with isNull := false }) where
  encodes {bound} ad := by
    obtain ⟨ok, after⟩ := ad
    have bounds := sysDays_bounds rules ok
    have ticks : bound.pgticks calendar = .ok (calendar.sysDays bound.d) := by
      rw [Date.pgticks, if_neg (by omega), if_pos (by omega)]
    have fits : checkedInt 32 (calendar.sysDays bound.d - postgresEpochJdate) =
        .ok (serverDays calendar bound.d) := by
      rw [checkedInt, if_pos]
      · rfl
      · simp only [postgresEpochJdate]
        omega
    refine ⟨by simp [dateEncoder], bind_ok.mpr ⟨_, ticks, bind_ok.mpr ⟨_, fits, ?_⟩⟩⟩
    rw [inMemory_swap4]
    rfl
  reads {bound} ad := by
    intro buffer offset holds
    obtain ⟨ok, after⟩ := ad
    have bounds := sysDays_bounds rules ok
    have whole : (serverDays calendar bound.d + BitVec.ofInt 32 postgresEpochJdate).toInt =
        calendar.sysDays bound.d := by
      rw [serverDays, ← BitVec.ofInt_add, sub_add_cancel, BitVec.toInt_ofInt, Int.bmod_eq_of_le]
      · omega
      · omega
    rw [pgvalToDate, if_neg (by simp), holds.readInt32, ok_bind, Date.ofDays, whole,
      rules.yearMonthDay ok, if_neg (by omega)]
    rfl
  short _ := by simp

end Bounds

/-- The same answers about both ranges, and related bounds where there are any. -/
structure BoundRange.Agrees {α : Type} (related : α → α → Prop) (value got : BoundRange α) :
    Prop where
  isEmpty : got.isEmpty = value.isEmpty
  isOrContainsEmpty : got.isOrContainsEmpty = value.isOrContainsEmpty
  hasLbound : got.hasLbound = value.hasLbound
  hasUbound : got.hasUbound = value.hasUbound
  lboundInclusion : got.lboundInclusion = value.lboundInclusion
  uboundInclusion : got.uboundInclusion = value.uboundInclusion
  lbound : value.hasLbound = true → related value.lb got.lb
  ubound : value.hasUbound = true → related value.ub got.ub

section Codec

variable {α : Type}

theorem agrees_of_sentFlags {related : α → α → Prop} {value : BoundRange α} {lb ub : α}
    (lower : value.hasLbound = true → related value.lb lb)
    (upper : value.hasUbound = true → related value.ub ub) :
    value.Agrees related { flags := sentFlags value.flags, lb, ub } where
  isEmpty := congrArg (· != 0) (sentFlags_mask value.flags 0x01 (by decide))
  isOrContainsEmpty := congrArg (· != 0) (sentFlags_mask value.flags 0x81 (by decide))
  hasLbound := congrArg (· == 0) (sentFlags_mask value.flags 0x29 (by decide))
  hasUbound := congrArg (· == 0) (sentFlags_mask value.flags 0x51 (by decide))
  lboundInclusion := congrArg (fun kept : BitVec 32 => if kept != 0 then _ else _)
    (sentFlags_mask value.flags 0x02 (by decide))
  uboundInclusion := congrArg (fun kept : BitVec 32 => if kept != 0 then _ else _)
    (sentFlags_mask value.flags 0x04 (by decide))
  lbound := lower
  ubound := upper

variable {valid : α → Prop} {encoder : BoundEncoder α} {pgvalToBound : Reader α}
  {payload : α → List UInt8} {kept : α → α} {value : BoundRange α}

theorem BoundCodec.round_trip (codec : BoundCodec valid encoder pgvalToBound payload kept)
    (absent : α) (oid : Nat) (lower : value.hasLbound = true → valid value.lb)
    (upper : value.hasUbound = true → valid value.ub) :
    ∃ bytes got,
      newParameterBounds encoder oid value =
        .ok { oid, value := some bytes, length := bytes.length, format := 1 } ∧
      (∀ before after, pgvalToBoundsFrom absent pgvalToBound (before ++ (bytes ++ after))
        before.length bytes.length = .ok (got, before.length + bytes.length)) ∧
      value.Agrees (fun sent read => read = kept sent) got := by
  have total := @form_short _ payload value (fun there => codec.short (lower there))
    (fun there => codec.short (upper there))
  obtain ⟨lb, lbRead, lbKept⟩ := @boundOr_exists _ absent value.hasLbound _ (kept value.lb)
    (fun _ => rfl)
  obtain ⟨ub, ubRead, ubKept⟩ := @boundOr_exists _ absent value.hasUbound _ (kept value.ub)
    (fun _ => rfl)
  refine ⟨value.form payload, { flags := sentFlags value.flags, lb, ub }, ?_, ?_,
    agrees_of_sentFlags lbKept ubKept⟩
  · exact newParameterBounds_form (fun there => codec.encodes (lower there))
      (fun there => codec.encodes (upper there)) total oid
  · intro before after
    have holds : Holds (before ++ (value.form payload ++ after)) before.length
        (value.form payload) := ⟨before, after, rfl, rfl⟩
    rw [@pgvalToBoundsFrom_holds _ absent pgvalToBound _ payload (fun bound => .ok (kept bound)) _ _
      (fun there => ⟨(codec.short (lower there)).trans_lt (by decide), codec.reads (lower there)⟩)
      (fun there => ⟨(codec.short (upper there)).trans_lt (by decide), codec.reads (upper there)⟩)
      holds, lbRead, ubRead]
    rfl

end Codec

section Integers

variable {w : Nat}

def Range.bounds (value : Range w) : BoundRange (BitVec w) :=
  { flags := value.flags, lb := value.lb, ub := value.ub }

def BoundRange.integers (value : BoundRange (BitVec w)) : Range w :=
  { flags := value.flags, lb := value.lb, ub := value.ub }

theorem rangeForm_bounds (vl : Nat) (value : Range w) :
    rangeForm vl value = value.bounds.form (fun bound => Bytes.bigEndian vl bound.toNat) := by
  have own (bound : BitVec w) :
      boundForm vl bound = presentBytes true (Bytes.bigEndian vl bound.toNat) := by
    rw [boundForm, presentBytes, if_pos rfl, Bytes.length_bigEndian]
  rw [rangeForm, BoundRange.form, own, own]
  rfl

theorem newParameterRange_bounds {vl : Nat} (small : vl ≤ 65542) {toNetwork : BitVec w → BitVec w}
    (swapped : ∀ bound, inMemory vl (toNetwork bound) = Bytes.bigEndian vl bound.toNat) (oid : Nat)
    (value : Range w) :
    newParameterRange oid vl toNetwork value =
      newParameterBounds (intEncoder vl toNetwork) oid value.bounds := by
  have encodes (bound : BitVec w) :
      (intEncoder vl toNetwork).Encodes bound (Bytes.bigEndian vl bound.toNat) :=
    ⟨by simp [intEncoder], by simp [intEncoder, swapped]⟩
  have short (bound : BitVec w) : (Bytes.bigEndian vl bound.toNat).length ≤ 65542 := by
    simpa using small
  have total := @form_short _ (fun bound => Bytes.bigEndian vl bound.toNat) value.bounds
    (fun _ => short _) (fun _ => short _)
  rw [newParameterRange_eq oid vl swapped, newParameterBounds_form (fun _ => encodes _)
    (fun _ => encodes _) total, Parameter.binary, rangeForm_bounds, toInt_of_lt total]

theorem pgvalToRange_bounds (pgvalToBound : Reader (BitVec w)) (buffer : List UInt8)
    (val len : Int) :
    pgvalToRange pgvalToBound buffer val len = do
      let (range, _) ← pgvalToBoundsFrom 0 pgvalToBound buffer val len
      return { flags := range.flags, lb := range.lb, ub := range.ub } := by
  have same (present : Bool) (out : Int) :
      readBoundOr 0 pgvalToBound buffer present out = readBound pgvalToBound buffer present out :=
    rfl
  rw [pgvalToRange, pgvalToBoundsFrom]
  cases readByte buffer val with
  | error failure => rfl
  | ok byte =>
      simp only [ok_bind, same]
      change (readBound pgvalToBound buffer
        (Range.hasLbound (w := w) { flags := byte.toBitVec.signExtend 32 }) (val + 1) >>= _) =
        (readBound pgvalToBound buffer
          (Range.hasLbound (w := w) { flags := byte.toBitVec.signExtend 32 }) (val + 1) >>= _) >>= _
      cases readBound pgvalToBound buffer
          (Range.hasLbound (w := w) { flags := byte.toBitVec.signExtend 32 }) (val + 1) with
      | error failure => rfl
      | ok lower =>
          change (readBound pgvalToBound buffer
            (Range.hasUbound (w := w) { flags := byte.toBitVec.signExtend 32 }) lower.2 >>= _) =
            (readBound pgvalToBound buffer
              (Range.hasUbound (w := w) { flags := byte.toBitVec.signExtend 32 }) lower.2 >>= _) >>= _
          cases readBound pgvalToBound buffer
              (Range.hasUbound (w := w) { flags := byte.toBitVec.signExtend 32 }) lower.2 with
          | error failure => rfl
          | ok upper => rfl

theorem newParameterInt4range_bounds (value : Range 32) :
    newParameterInt4range value =
      newParameterBounds (intEncoder 4 (swap4 · true)) int4rangeOid value.bounds :=
  newParameterRange_bounds (by simp) (fun bound => inMemory_swap4 bound true) int4rangeOid value

theorem newParameterInt8range_bounds (value : Range 64) :
    newParameterInt8range value =
      newParameterBounds (intEncoder 8 (swap8 · true)) int8rangeOid value.bounds :=
  newParameterRange_bounds (by simp) (fun bound => inMemory_swap8 bound true) int8rangeOid value

end Integers

inductive RangeType
  | int4range
  | int8range
  | numrange
  | tsrange
  | tstzrange
  | daterange
  deriving DecidableEq, Repr

namespace RangeType

def Bound : RangeType → Type
  | int4range => BitVec 32
  | int8range => BitVec 64
  | numrange => Numeric
  | tsrange => Timestamp
  | tstzrange => TimestampTz
  | daterange => Date

def oid : RangeType → Nat
  | int4range => int4rangeOid
  | int8range => int8rangeOid
  | numrange => numrangeOid
  | tsrange => tsrangeOid
  | tstzrange => tstzrangeOid
  | daterange => daterangeOid

variable (calendar : Calendar) (clock : BitVec 64)

def newParameter : (t : RangeType) → BoundRange t.Bound → Except WireError Parameter
  | int4range => fun value => newParameterInt4range (BoundRange.integers value)
  | int8range => fun value => newParameterInt8range (BoundRange.integers value)
  | numrange => newParameterNumrange
  | tsrange => newParameterTsrange calendar
  | tstzrange => newParameterTstzrange calendar
  | daterange => newParameterDaterange calendar

/-- `pgval_to_range`, with the place that its cursor reaches. -/
def pgvalToRangeFrom : (t : RangeType) → Reader (BoundRange t.Bound × Int)
  | int4range => pgvalToBoundsFrom (0 : BitVec 32) pgvalToInt32
  | int8range => pgvalToBoundsFrom (0 : BitVec 64) pgvalToInt64
  | numrange => pgvalToBoundsFrom Numeric.unset pgvalToNumeric
  | tsrange => pgvalToBoundsFrom (Timestamp.now clock) (pgvalToTimestamp calendar clock)
  | tstzrange => pgvalToBoundsFrom (TimestampTz.now clock) (pgvalToTimestampTz calendar clock)
  | daterange => pgvalToBoundsFrom (Date.now calendar clock) (pgvalToDate calendar clock)

def Valid : (t : RangeType) → t.Bound → Prop
  | int4range => fun _ => True
  | int8range => fun _ => True
  | numrange => NumericBound
  | tsrange => fun bound => AdTicks calendar bound.ts
  | tstzrange => fun bound => AdTicks calendar bound.sysTime
  | daterange => fun bound => AdDate bound.d

/-- A bound that was read has one spare digit in front, and is not marked as null. -/
def kept : (t : RangeType) → t.Bound → t.Bound
  | int4range => id
  | int8range => id
  | numrange => fun bound => { bound with spare := 1 }
  | tsrange => fun bound => { bound with isNull := false }
  | tstzrange => fun bound => { bound with isNull := false }
  | daterange => fun bound => { bound with isNull := false }

/-- Each kind of range is sent with exactly the length that was computed for it, and is read back
with the cursor at the end of these bytes. -/
theorem range_round_trip (rules : calendar.Proleptic) (t : RangeType) (value : BoundRange t.Bound)
    (lower : value.hasLbound = true → t.Valid calendar value.lb)
    (upper : value.hasUbound = true → t.Valid calendar value.ub) :
    ∃ bytes got,
      t.newParameter calendar value =
        .ok { oid := t.oid, value := some bytes, length := bytes.length, format := 1 } ∧
      (∀ before after, t.pgvalToRangeFrom calendar clock (before ++ (bytes ++ after))
        before.length bytes.length = .ok (got, before.length + bytes.length)) ∧
      value.Agrees (fun sent read => read = t.kept sent) got := by
  cases t with
  | int4range =>
      obtain ⟨bytes, got, sent, read⟩ := int4_codec.round_trip _ int4rangeOid lower upper
      exact ⟨bytes, got, (newParameterInt4range_bounds (BoundRange.integers value)).trans sent, read⟩
  | int8range =>
      obtain ⟨bytes, got, sent, read⟩ := int8_codec.round_trip _ int8rangeOid lower upper
      exact ⟨bytes, got, (newParameterInt8range_bounds (BoundRange.integers value)).trans sent, read⟩
  | numrange => exact numeric_codec.round_trip _ numrangeOid lower upper
  | tsrange => exact (timestamp_codec rules clock).round_trip _ tsrangeOid lower upper
  | tstzrange => exact (timestampTz_codec rules clock).round_trip _ tstzrangeOid lower upper
  | daterange => exact (date_codec rules clock).round_trip _ daterangeOid lower upper

theorem range_round_trip_numrange :
    ∃ bytes got,
      newParameterNumrange { flags := 0x92, lb := ⟨1, [1, 5000], 0, numericNeg, 1⟩, ub := .unset } =
        .ok { oid := numrangeOid, value := some bytes, length := bytes.length, format := 1 } ∧
      (∀ before after, pgvalToBoundsFrom Numeric.unset pgvalToNumeric (before ++ (bytes ++ after))
        before.length bytes.length = .ok (got, before.length + bytes.length)) ∧
      BoundRange.Agrees (fun sent read => read = { sent with spare := 1 })
        { flags := 0x92, lb := ⟨1, [1, 5000], 0, numericNeg, 1⟩, ub := Numeric.unset } got := by
  refine range_round_trip gregorian 0 Gregorian.proleptic numrange
    { flags := 0x92, lb := (⟨1, [1, 5000], 0, numericNeg, 1⟩ : Numeric), ub := Numeric.unset } ?_ ?_
  · intro _
    refine ⟨Or.inr rfl, ?_, ⟨by decide, by decide⟩, ⟨by decide, by decide⟩, ⟨by decide, by decide⟩⟩
    unfold FitsInt16
    decide
  · intro there
    exact absurd there (by decide)

end RangeType

end PqAsync
