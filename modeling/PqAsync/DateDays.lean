import PqAsync.TimestampTicks

/-!
Dates between the server's day numbers and the calendar's dates: a date keeps its month and its
day while its year is shifted, so that the shift back finds them again.
-/

namespace PqAsync

/-- The date with this number has its year in range before and after the shift. -/
def DayInCalendar (calendar : Calendar) (v : BitVec 32) : Prop :=
  ∃ date : YearMonthDay, date.Ok ∧ (date.year < 1 → InYears (date.year - 1)) ∧
    calendar.sysDays date = v.toInt

/-- A date is in no year zero and keeps its day, and the four bytes of a binary value that stands
for the day are the ones that are written for the value that was read. -/
structure KeepsDay (calendar : Calendar) (v : BitVec 32) : Prop where
  year : (Date.ofDays calendar v).d.year ≠ 0
  days : (Date.ofDays calendar v).pgticks calendar = .ok v.toInt
  bytes : ∀ clock (sent : BitVec 32), sent.toInt + postgresEpochJdate = v.toInt →
    (pgvalToDate calendar clock (Bytes.bigEndian 4 sent.toNat) 0 4 >>=
        newParameterDate calendar) =
      .ok (.binary dateOid (Bytes.bigEndian 4 sent.toNat))

namespace YearMonthDay

variable (date : YearMonthDay)

/-- The date as a `date` holds it, without a year zero. -/
def shifted : YearMonthDay := if date.year < 1 then date.addYears (-1) else date

theorem shifted_year : date.shifted.year ≠ 0 := by
  rw [shifted]
  split
  · simp only [addYears]
    omega
  · omega

theorem addYears_back : (date.addYears (-1)).addYears 1 = date := by
  simp [addYears]

theorem pgticks_shifted (calendar : Calendar) :
    Date.pgticks calendar { isNull := false, d := date.shifted } = .ok (calendar.sysDays date) := by
  rw [Date.pgticks, if_neg date.shifted_year, shifted]
  by_cases before : date.year < 1
  · have negative : ¬0 < (date.addYears (-1)).year := by
      simp only [addYears]
      omega
    rw [if_pos before, if_neg negative, date.addYears_back]
  · rw [if_neg before]
    exact if_pos (show 0 < date.year by omega)

end YearMonthDay

section

variable {calendar : Calendar}

theorem ofDays_shifted (v : BitVec 32) :
    Date.ofDays calendar v = { isNull := false, d := (calendar.yearMonthDay v.toInt).shifted } :=
  rfl

theorem pgticks_ofDays {v : BitVec 32}
    (back : calendar.sysDays (calendar.yearMonthDay v.toInt) = v.toInt) :
    (Date.ofDays calendar v).pgticks calendar = .ok v.toInt := by
  rw [ofDays_shifted, YearMonthDay.pgticks_shifted, back]

theorem decode_date (clock : BitVec 64) (v : BitVec 32) :
    pgvalToDate calendar clock (Bytes.bigEndian 4 v.toNat) 0 4 =
      .ok (Date.ofDays calendar (v + BitVec.ofInt 32 postgresEpochJdate)) := by
  rw [pgvalToDate, if_neg (by decide), (Holds.whole _).readInt32]
  rfl

theorem encode_date_iff {t v : BitVec 32} : newParameterDate calendar (Date.ofDays calendar t) =
      .ok (.binary dateOid (Bytes.bigEndian 4 v.toNat)) ↔
    (Date.ofDays calendar t).pgticks calendar = .ok (v.toInt + postgresEpochJdate) := by
  rw [newParameterDate, if_neg (by simp [Date.ofDays])]
  exact written_iff 4 (by decide) rfl _ fun val => inMemory_swap4 val true

theorem keepsDay {v : BitVec 32}
    (back : calendar.sysDays (calendar.yearMonthDay v.toInt) = v.toInt) : KeepsDay calendar v where
  year := YearMonthDay.shifted_year _
  days := pgticks_ofDays back
  bytes clock sent days := by
    rw [decode_date, Results.ok_bind, add_epoch days, encode_date_iff, pgticks_ofDays back, days]

theorem sysDays_back (rules : calendar.Proleptic) {v : BitVec 32}
    (inside : DayInCalendar calendar v) :
    calendar.sysDays (calendar.yearMonthDay v.toInt) = v.toInt := by
  obtain ⟨date, ok, _, day⟩ := inside
  rw [← day, rules.yearMonthDay ok]

end

/-- Every day of the calendar comes back, and its bytes with it, and no two of them become one. -/
theorem dates_keep_days (calendar : Calendar) (rules : calendar.Proleptic) :
    (∀ v, DayInCalendar calendar v → KeepsDay calendar v) ∧
    ∀ v other, DayInCalendar calendar v → DayInCalendar calendar other → v ≠ other →
      Date.ofDays calendar v ≠ Date.ofDays calendar other := by
  constructor
  · intro v inside
    exact keepsDay (sysDays_back rules inside)
  · intro v other inside otherInside different same
    have ticks := pgticks_ofDays (sysDays_back rules inside)
    rw [same, pgticks_ofDays (sysDays_back rules otherInside)] at ticks
    exact different (BitVec.eq_of_toInt_eq (Except.ok.inj ticks).symm)

theorem dates_keep_leap_day :
    KeepsDay gregorian (BitVec.ofInt 32 (-719469)) ∧
      Date.ofDays gregorian (BitVec.ofInt 32 (-719469)) ≠
        Date.ofDays gregorian (BitVec.ofInt 32 (-719468)) := by
  have claim := dates_keep_days gregorian Gregorian.proleptic
  have leapDay : DayInCalendar gregorian (BitVec.ofInt 32 (-719469)) :=
    ⟨⟨0, 2, 29⟩, ⟨⟨by decide, by decide⟩, ⟨by decide, by decide⟩, by decide, by decide⟩,
      fun _ => ⟨by decide, by decide⟩, by decide⟩
  have next : DayInCalendar gregorian (BitVec.ofInt 32 (-719468)) :=
    ⟨⟨0, 3, 1⟩, ⟨⟨by decide, by decide⟩, ⟨by decide, by decide⟩, by decide, by decide⟩,
      fun _ => ⟨by decide, by decide⟩, by decide⟩
  exact ⟨claim.1 _ leapDay, claim.2 _ _ leapDay next (by decide)⟩

end PqAsync
