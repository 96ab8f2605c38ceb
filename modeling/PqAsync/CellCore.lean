import PqAsync.CellReaders
import PqAsync.ExecCore
import PqAsync.RangeCore
import PqAsync.TextArrays

/-!
Executable model of the cells of a result: the type that is asked for, the reader that is chosen
by the oid of the column, and the two paths to a cell, through a row and through the value of a
query. Results are requested in binary format. What is made of a value that was read for another
type is a parameter.
-/

namespace PqAsync

/-- What the readers take from elsewhere: the calendar, the clock and the locale. -/
structure Host where
  calendar : Calendar
  clock : BitVec 64
  fracDigits : Nat

inductive PgType
  | bool
  | string
  | int16
  | int32
  | int64
  | float
  | double
  | numeric
  | money
  | time
  | timeTz
  | timestamp
  | timestampTz
  | date
  | interval
  | bytea
  | uuid
  | oid
  | cidr
  | inet
  | macaddr
  | macaddr8
  | point
  | line
  | lseg
  | box
  | path
  | polygon
  | circle
  | int4range
  | int8range
  | numrange
  | tsrange
  | tstzrange
  | daterange
  deriving DecidableEq, Repr

namespace PgType

def Value : PgType → Type
  | bool => Bool
  | string => List UInt8
  | int16 => BitVec 16
  | int32 => BitVec 32
  | int64 => BitVec 64
  | float => BitVec 32
  | double => BitVec 64
  | numeric => Numeric
  | money => Money
  | time => Time
  | timeTz => TimeTz
  | timestamp => Timestamp
  | timestampTz => TimestampTz
  | date => Date
  | interval => Interval
  | bytea => List UInt8
  | uuid => Uuid
  | oid => BitVec 32
  | cidr => NetAddress
  | inet => NetAddress
  | macaddr => Macaddr
  | macaddr8 => Macaddr8
  | point => Point
  | line => Line
  | lseg => Lseg
  | box => Box
  | path => Path
  | polygon => Polygon
  | circle => Circle
  | int4range => Range 32
  | int8range => Range 64
  | numrange => BoundRange Numeric
  | tsrange => BoundRange Timestamp
  | tstzrange => BoundRange TimestampTz
  | daterange => BoundRange Date

variable (host : Host)

/-- The value for a NULL: that of the default constructor, or `null()` where there is one. -/
def null : (t : PgType) → t.Value
  | bool => false
  | string => ([] : List UInt8)
  | int16 => (0 : BitVec 16)
  | int32 => (0 : BitVec 32)
  | int64 => (0 : BitVec 64)
  | float => (0 : BitVec 32)
  | double => (0 : BitVec 64)
  | numeric => Numeric.ofText ['0']
  | money => { val := 0, fracDigits := host.fracDigits : Money }
  | time => Time.null host.clock
  | timeTz => TimeTz.null host.clock
  | timestamp => Timestamp.null host.clock
  | timestampTz => TimestampTz.null host.clock
  | date => Date.null host.calendar host.clock
  | interval => Interval.null
  | bytea => ([] : List UInt8)
  | uuid => emptyUuid
  | oid => (0 : BitVec 32)
  | cidr => ({} : NetAddress)
  | inet => ({} : NetAddress)
  | macaddr => ({} : Macaddr)
  | macaddr8 => ({} : Macaddr8)
  | point => ({} : Point)
  | line => ({} : Line)
  | lseg => ({} : Lseg)
  | box => ({} : Box)
  | path => ({} : Path)
  | polygon => ({} : Polygon)
  | circle => ({} : Circle)
  | int4range => ({} : Range 32)
  | int8range => ({} : Range 64)
  | numrange => { flags := 0, lb := Numeric.unset, ub := Numeric.unset : BoundRange Numeric }
  | tsrange =>
      { flags := 0, lb := Timestamp.now host.clock, ub := Timestamp.now host.clock :
        BoundRange Timestamp }
  | tstzrange =>
      { flags := 0, lb := TimestampTz.now host.clock, ub := TimestampTz.now host.clock :
        BoundRange TimestampTz }
  | daterange =>
      { flags := 0, lb := Date.now host.calendar host.clock, ub := Date.now host.calendar host.clock :
        BoundRange Date }

def pgval : (t : PgType) → Reader t.Value
  | bool => pgvalToBool
  | string => pgvalToString
  | int16 => pgvalToInt16
  | int32 => pgvalToInt32
  | int64 => pgvalToInt64
  | float => pgvalToFloat
  | double => pgvalToDouble
  | numeric => pgvalToNumeric
  | money => pgvalToMoney host.fracDigits
  | time => pgvalToTime
  | timeTz => pgvalToTimeTz host.clock
  | timestamp => pgvalToTimestamp host.calendar host.clock
  | timestampTz => pgvalToTimestampTz host.calendar host.clock
  | date => pgvalToDate host.calendar host.clock
  | interval => pgvalToInterval
  | bytea => pgvalToBytea
  | uuid => pgvalToUuid
  | oid => pgvalToOid
  | cidr => pgvalToCidr
  | inet => pgvalToInet
  | macaddr => pgvalToMacaddr
  | macaddr8 => pgvalToMacaddr8
  | point => pgvalToPoint
  | line => pgvalToLine
  | lseg => pgvalToLseg
  | box => pgvalToBox
  | path => pgvalToPath
  | polygon => pgvalToPolygon
  | circle => pgvalToCircle
  | int4range => pgvalToInt4range
  | int8range => pgvalToInt8range
  | numrange => pgvalToNumrange
  | tsrange => pgvalToTsrange host.calendar host.clock
  | tstzrange => pgvalToTstzrange host.calendar host.clock
  | daterange => pgvalToDaterange host.calendar host.clock

def testsPointer (t : PgType) : Bool :=
  t ∈ [time, timeTz, timestamp, timestampTz, date, interval]

def fromPointer (t : PgType) (val : Option (List UInt8)) (len : Int) : Except WireError t.Value :=
  match val with
  | some buffer => t.pgval host buffer 0 len
  | none => if t.testsPointer then .ok (t.null host) else t.pgval host [] 0 len

end PgType

def boolOid : Int := 16
def byteaOid : Int := 17
def jsonOid : Int := 114
def lsegOid : Int := 601
def boxOid : Int := 603
def lineOid : Int := 628
def cidrOid : Int := 650
def float4Oid : Int := 700
def float8Oid : Int := 701
def circleOid : Int := 718
def macaddr8Oid : Int := 774
def cashOid : Int := 790
def inetOid : Int := 869
def bpcharOid : Int := 1042
def varcharOid : Int := 1043
def uuidOid : Int := 2950
def jsonbOid : Int := 3802

namespace PgType

def numberOids : List Int := [int2Oid, int4Oid, int8Oid, float4Oid, float8Oid]

def dateOids : List Int := [timeOid, timetzOid, timestampOid, timestamptzOid, dateOid, intervalOid]

def netOids : List Int := [cidrOid, inetOid, macaddrOid, macaddr8Oid]

def geometricOids : List Int :=
  [pointOid, lineOid, lsegOid, boxOid, pathOid, polygonOid, circleOid]

def rangeOids : List Int :=
  [int4rangeOid, int8rangeOid, numrangeOid, tsrangeOid, tstzrangeOid, daterangeOid]

def ownOids : PgType → List Int
  | bool => [boolOid]
  | string => [textOid, varcharOid, bpcharOid, jsonOid]
  | int16 => [int2Oid]
  | int32 => [int4Oid]
  | int64 => [int8Oid]
  | float => [float4Oid]
  | double => [float8Oid]
  | numeric => [numericOid]
  | money => [cashOid]
  | time => [timeOid]
  | timeTz => [timetzOid]
  | timestamp => [timestampOid]
  | timestampTz => [timestamptzOid]
  | date => [dateOid]
  | interval => [intervalOid]
  | bytea => [byteaOid]
  | uuid => [uuidOid]
  | oid => [oidOid]
  | cidr => [cidrOid]
  | inet => [inetOid]
  | macaddr => [macaddrOid]
  | macaddr8 => [macaddr8Oid]
  | point => [pointOid]
  | line => [lineOid]
  | lseg => [lsegOid]
  | box => [boxOid]
  | path => [pathOid]
  | polygon => [polygonOid]
  | circle => [circleOid]
  | int4range => [int4rangeOid]
  | int8range => [int8rangeOid]
  | numrange => [numrangeOid]
  | tsrange => [tsrangeOid]
  | tstzrange => [tstzrangeOid]
  | daterange => [daterangeOid]

def all : List PgType :=
  [bool, string, int16, int32, int64, float, double, numeric, money, time, timeTz, timestamp,
    timestampTz, date, interval, bytea, uuid, oid, cidr, inet, macaddr, macaddr8, point, line, lseg,
    box, path, polygon, circle, int4range, int8range, numrange, tsrange, tstzrange, daterange]

def ofOid (oid : Int) : Option PgType :=
  if oid = jsonbOid then some string else all.find? fun t => oid ∈ t.ownOids

def foreignOids : PgType → List Int
  | bool => textOid :: numericOid :: numberOids
  | string =>
      boolOid :: jsonbOid :: numericOid :: numberOids ++ dateOids ++ netOids ++ geometricOids ++
        rangeOids
  | int16 => boolOid :: textOid :: numericOid :: numberOids
  | int32 => boolOid :: textOid :: numericOid :: numberOids ++ dateOids
  | int64 => boolOid :: textOid :: numericOid :: numberOids ++ dateOids
  | float => boolOid :: textOid :: numericOid :: numberOids
  | double => boolOid :: textOid :: numericOid :: numberOids
  | numeric => [cashOid]
  | money => [numericOid]
  | time => textOid :: numberOids
  | timeTz => textOid :: numberOids
  | timestamp => textOid :: timestamptzOid :: numberOids
  | timestampTz => textOid :: timestampOid :: numberOids
  | date => textOid :: numberOids
  | interval => textOid :: numberOids
  | _ => []

def source (target : PgType) (oid : Int) : Option PgType :=
  if oid ∈ target.foreignOids then ofOid oid else none

def jsonOids : List Int :=
  boolOid :: jsonbOid :: jsonOid :: textOid :: numericOid :: cashOid :: numberOids ++ dateOids ++
    netOids ++ geometricOids ++ rangeOids

end PgType

/-- The conversions of the switches: from a value that was read to the type that is asked for,
and to json. They give a value or throw. -/
structure Conversions where
  Json : Type
  jsonNull : Json
  convert : (source target : PgType) → Int → source.Value → Except String target.Value
  toJson : (source : PgType) → Int → source.Value → Except String Json

inductive Scalar
  | value (t : PgType)
  | json
  deriving DecidableEq, Repr

inductive CellType
  | scalar (element : Scalar)
  | array (element : Scalar)
  deriving DecidableEq, Repr

def unsupportedOid : WireError := .exception "Unsupported oid convertion."

def orThrow {α : Type} (result : Except String α) : Except WireError α :=
  result.mapError .exception

section

variable (conversions : Conversions) (host : Host)

/-- The switch of `val_from_pgparam` over the oids of a type that has a reader. -/
def PgType.select (oid : Int) (read : (t : PgType) → Except WireError t.Value) (target : PgType) :
    Except WireError target.Value :=
  if oid ∈ target.ownOids then read target
  else
    match target.source oid with
    | some source => do
        let value ← read source
        orThrow (conversions.convert source target oid value)
    | none => .error unsupportedOid

def selectJson (oid : Int) (read : (t : PgType) → Except WireError t.Value) :
    Except WireError conversions.Json :=
  if oid ∈ PgType.jsonOids then
    match PgType.ofOid oid with
    | some source => do
        let value ← read source
        orThrow (conversions.toJson source oid value)
    | none => .error unsupportedOid
  else .error unsupportedOid

namespace Scalar

def Value : Scalar → Type
  | value t => t.Value
  | json => conversions.Json

def null : (T : Scalar) → T.Value conversions
  | value t => t.null host
  | json => conversions.jsonNull

/-- `val_from_pgparam`, whose switch calls one of the readers. -/
def select (oid : Int) (read : (t : PgType) → Except WireError t.Value) :
    (T : Scalar) → Except WireError (T.Value conversions)
  | value target => target.select conversions oid read
  | json => selectJson conversions oid read

def valFromPgparam (T : Scalar) (oid : Int) : Reader (T.Value conversions) := fun buffer val len =>
  T.select conversions oid fun t => t.pgval host buffer val len

end Scalar

namespace CellType

def Value : CellType → Type
  | scalar element => element.Value conversions
  | array element => JaggedVector (element.Value conversions)

def null : (T : CellType) → T.Value conversions
  | scalar element => element.null conversions host
  | array _ => { dimSizes := [], values := [] : JaggedVector _ }

/-- `val_from_pgparam` on any pointer; for an array the oid of the column is not looked at. -/
def valFromPgparam (oid : Int) (val : Option (List UInt8)) (len : Int) :
    (T : CellType) → Except WireError (T.Value conversions)
  | scalar element => element.select conversions oid fun t => t.fromPointer host val len
  | array element =>
      pgvalToArray (element.valFromPgparam conversions host) (val.getD []) 1

end CellType

/-- A cell of a result: the oid of its column, and the bytes of `PQgetvalue` unless
`PQgetisnull`. -/
structure Cell where
  oid : Int
  payload : Option (List UInt8)
  deriving DecidableEq, Repr

structure DataValue where
  oid : Int
  value : Option (List UInt8)
  length : Int
  deriving DecidableEq, Repr

def DataValue.as (T : CellType) (this : DataValue) : Except WireError (T.Value conversions) :=
  T.valFromPgparam conversions host this.oid this.value this.length

/-- `data_row_t::initialize`: a NULL has a null pointer and the length 0. -/
def initializeRow (row : List Cell) : List DataValue :=
  row.map fun cell =>
    match cell.payload with
    | none => { oid := cell.oid, value := none, length := 0 }
    | some pgValues => { oid := cell.oid, value := some pgValues, length := pgValues.length }

/-- `data_row_t::as` -/
def rowAs (T : CellType) (values : List DataValue) (i : Nat) :
    Except WireError (T.Value conversions) :=
  match values[i]? with
  | some value => value.as conversions host T
  | none => .error (.exception "Invalid index.")

def ExecStatus.hasValue (status : ExecStatus) : Bool :=
  status = .commandOk || status = .singleTuple || status = .tuplesOk

/-- `_process_query_value_result`: a NULL has a null pointer and the length -1. -/
def processQueryValueResult (T : CellType) (resultStatus : ExecStatus) (errMsg : String)
    (cell : Cell) : Except WireError (T.Value conversions) :=
  if !resultStatus.hasValue then .error (.exception errMsg)
  else
    let len : Int := match cell.payload with
      | none => -1
      | some val => val.length
    T.valFromPgparam conversions host cell.oid cell.payload len

end

end PqAsync
