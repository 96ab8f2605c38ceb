import PqAsync.WireCore

/-!
Executable model of the encoders of date and time values. The calendar library is a
parameter; a value carries what the encoders read of it.
-/

namespace PqAsync

def timeOid : Nat := 1083
def timetzOid : Nat := 1266
def timestampOid : Nat := 1114
def timestamptzOid : Nat := 1184
def dateOid : Nat := 1082
def intervalOid : Nat := 1186

structure YearMonthDay where
  year : Int
  month : Nat
  day : Nat
  deriving DecidableEq, Repr

/-- Day numbers from 1970-01-01 on both sides, and the calendar dates that they stand for. -/
structure Calendar where
  sysDays : YearMonthDay → Int
  yearMonthDay : Int → YearMonthDay

def usecPerDay : Int := 86400000000

def postgresEpochUsec : Int := 946684800000000

def postgresEpochJdate : Int := 10957

def checkedInt (w : Nat) (x : Int) : Except WireError (BitVec w) :=
  if -2 ^ (w - 1) ≤ x ∧ x < 2 ^ (w - 1) then .ok (BitVec.ofInt w x) else .error .overflow

def YearMonthDay.addYears (date : YearMonthDay) (years : Int) : YearMonthDay :=
  { date with year := date.year + years }

structure Time where
  isNull : Bool
  tod : BitVec 64
  deriving DecidableEq, Repr

structure TimeTz where
  isNull : Bool
  sysTime : BitVec 64
  deriving DecidableEq, Repr

structure Timestamp where
  isNull : Bool
  ts : BitVec 64
  deriving DecidableEq, Repr

structure TimestampTz where
  isNull : Bool
  sysTime : BitVec 64
  deriving DecidableEq, Repr

structure Date where
  isNull : Bool
  d : YearMonthDay
  deriving DecidableEq, Repr

structure Interval where
  isNull : Bool
  t : BitVec 64
  d : BitVec 32
  m : BitVec 32
  deriving DecidableEq, Repr

def noYearZero : WireError := .exception "Postgresql doesn't support year zero!"

def alignedTicks (calendar : Calendar) (ticks : Int) : Except WireError Int :=
  let ymd := calendar.yearMonthDay (ticks / usecPerDay)
  if ymd.year = 0 then .error noYearZero
  else if 0 < ymd.year then .ok ticks
  else .ok (calendar.sysDays (ymd.addYears 1) * usecPerDay + ticks % usecPerDay)

def Timestamp.pgticks (calendar : Calendar) (value : Timestamp) : Except WireError Int :=
  alignedTicks calendar value.ts.toInt

def TimestampTz.pgticks (calendar : Calendar) (value : TimestampTz) : Except WireError Int :=
  alignedTicks calendar value.sysTime.toInt

def Date.pgticks (calendar : Calendar) (value : Date) : Except WireError Int :=
  if value.d.year = 0 then .error noYearZero
  else if 0 < value.d.year then .ok (calendar.sysDays value.d)
  else .ok (calendar.sysDays (value.d.addYears 1))

def newParameterTime (value : Time) : Except WireError Parameter :=
  if value.isNull then .ok (newNullParameter timeOid)
  else .ok (.binary timeOid (inMemory 8 (swap8 value.tod true)))

def newParameterTimeTz (value : TimeTz) : Except WireError Parameter :=
  if value.isNull then .ok (newNullParameter timetzOid)
  else
    let tod := BitVec.ofInt 64 (value.sysTime.toInt % usecPerDay)
    .ok (.binary timetzOid (inMemory 8 (swap8 tod true) ++ [0, 0, 0, 0]))

def newParameterTimestamp (calendar : Calendar) (value : Timestamp) :
    Except WireError Parameter :=
  if value.isNull then .ok (newNullParameter timestampOid)
  else do
    let ticks ← value.pgticks calendar
    let val ← checkedInt 64 (ticks - postgresEpochUsec)
    return .binary timestampOid (inMemory 8 (swap8 val true))

def newParameterTimestampTz (calendar : Calendar) (value : TimestampTz) :
    Except WireError Parameter :=
  if value.isNull then .ok (newNullParameter timestamptzOid)
  else do
    let ticks ← value.pgticks calendar
    let val ← checkedInt 64 (ticks - postgresEpochUsec)
    return .binary timestamptzOid (inMemory 8 (swap8 val true))

def newParameterDate (calendar : Calendar) (value : Date) : Except WireError Parameter :=
  if value.isNull then .ok (newNullParameter dateOid)
  else do
    let ticks ← value.pgticks calendar
    let val ← checkedInt 32 (ticks - postgresEpochJdate)
    return .binary dateOid (inMemory 4 (swap4 val true))

def newParameterInterval (value : Interval) : Except WireError Parameter :=
  if value.isNull then .ok (newNullParameter intervalOid)
  else .ok (.binary intervalOid (inMemory 8 (swap8 value.t true) ++
    (inMemory 4 (swap4 value.d true) ++ inMemory 4 (swap4 value.m true))))

end PqAsync
