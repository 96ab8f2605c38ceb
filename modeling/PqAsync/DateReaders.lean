import PqAsync.ValueCore
import PqAsync.DateCore

/-!
Executable model of the constructors of date and time values and of the readers of their
binary format. The clock is a parameter, in microseconds since 1970; a sum of ticks wraps
around.
-/

namespace PqAsync

def shiftedTicks (calendar : Calendar) (pgticks : BitVec 64) : BitVec 64 :=
  let ymd := calendar.yearMonthDay (pgticks.toInt / usecPerDay)
  if ymd.year < 1 then
    BitVec.ofInt 64 (calendar.sysDays (ymd.addYears (-1)) * usecPerDay +
      pgticks.toInt % usecPerDay)
  else pgticks

def Timestamp.ofTicks (calendar : Calendar) (pgticks : BitVec 64) : Timestamp :=
  { isNull := false, ts := shiftedTicks calendar pgticks }

def TimestampTz.ofTicks (calendar : Calendar) (pgticks : BitVec 64) : TimestampTz :=
  { isNull := false, sysTime := shiftedTicks calendar pgticks }

def Date.ofDays (calendar : Calendar) (val : BitVec 32) : Date :=
  let ymd := calendar.yearMonthDay val.toInt
  { isNull := false, d := if ymd.year < 1 then ymd.addYears (-1) else ymd }

def Time.ofTicks (pgticks : BitVec 64) : Time :=
  { isNull := false, tod := BitVec.ofInt 64 (pgticks.toInt % usecPerDay) }

section

variable (calendar : Calendar) (clock : BitVec 64)

def Time.now : Time := Time.ofTicks clock

def TimeTz.now : TimeTz := { isNull := false, sysTime := clock }

def Timestamp.now : Timestamp := { isNull := false, ts := clock }

def TimestampTz.now : TimestampTz := { isNull := false, sysTime := clock }

def Date.now : Date :=
  { isNull := false, d := calendar.yearMonthDay (clock.toInt / usecPerDay) }

def Interval.zero : Interval := { isNull := false, t := 0, d := 0, m := 0 }

def Time.null : Time := { Time.now clock with isNull := true }

def TimeTz.null : TimeTz := { TimeTz.now clock with isNull := true }

def Timestamp.null : Timestamp := { Timestamp.now clock with isNull := true }

def TimestampTz.null : TimestampTz := { TimestampTz.now clock with isNull := true }

def Date.null : Date := { Date.now calendar clock with isNull := true }

def Interval.null : Interval := { Interval.zero with isNull := true }

def pgvalToTime : Reader Time := fun buffer val len =>
  if len = -1 then .ok (Time.ofTicks 0)
  else do
    let tval ← readInt64 buffer val
    return Time.ofTicks (tval + BitVec.ofInt 64 postgresEpochUsec)

def pgvalToTimeTz : Reader TimeTz := fun buffer val len =>
  if len = -1 then .ok (TimeTz.null clock)
  else do
    let tval ← readInt64 buffer val
    let dayEpoch := BitVec.ofInt 64 (clock.toInt / usecPerDay * usecPerDay)
    return { isNull := false, sysTime := tval + dayEpoch }

def pgvalToTimestamp : Reader Timestamp := fun buffer val len =>
  if len = -1 then .ok (Timestamp.now clock)
  else do
    let tval ← readInt64 buffer val
    return Timestamp.ofTicks calendar (tval + BitVec.ofInt 64 postgresEpochUsec)

def pgvalToTimestampTz : Reader TimestampTz := fun buffer val len =>
  if len = -1 then .ok (TimestampTz.now clock)
  else do
    let tval ← readInt64 buffer val
    return TimestampTz.ofTicks calendar (tval + BitVec.ofInt 64 postgresEpochUsec)

def pgvalToDate : Reader Date := fun buffer val len =>
  if len = -1 then .ok (Date.now calendar clock)
  else do
    let dval ← readInt32 buffer val
    return Date.ofDays calendar (dval + BitVec.ofInt 32 postgresEpochJdate)

def pgvalToInterval : Reader Interval := fun buffer val len =>
  if len = -1 then .ok Interval.zero
  else do
    let t ← readInt64 buffer val
    let d ← readInt32 buffer (val + 8)
    let m ← readInt32 buffer (val + 12)
    return { isNull := false, t, d, m }

end

end PqAsync
