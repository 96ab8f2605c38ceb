import PqAsync.Gregorian
import PqAsync.DateReaders
import PqAsync.Wire
import PqAsync.CheckedInt

/-!
Timestamps between the server's ticks and the calendar's: the year is shifted on the way in
and back on the way out.
-/

namespace PqAsync

section

variable {calendar : Calendar} (rules : calendar.Proleptic)

theorem daysInMonth_le (year : Int) (month : Nat) : daysInMonth year month ≤ 31 := by
  rw [daysInMonth]
  split
  · split
    · omega
    · omega
  · split
    · omega
    · omega

/-- The date whose day this is has its year in range before and after the shift. -/
def InCalendar (calendar : Calendar) (t : BitVec 64) : Prop :=
  ∃ date : YearMonthDay, date.Ok ∧ (date.year < 1 → InYears (date.year - 1)) ∧
    calendar.sysDays date = t.toInt / usecPerDay

/-- A leap day of a year that the shift moves to one without it. -/
def OnLostDay (calendar : Calendar) (t : BitVec 64) : Prop :=
  ∃ year < 1, calendar.yearMonthDay (t.toInt / usecPerDay) = ⟨year, 2, 29⟩

theorem day_of_shifted {days rest : Int} :
    (days * usecPerDay + rest % usecPerDay) / usecPerDay = days ∧
      (days * usecPerDay + rest % usecPerDay) % usecPerDay = rest % usecPerDay := by
  simp only [usecPerDay]
  omega

theorem shiftedTicks_before {t : BitVec 64} {date : YearMonthDay}
    (read : calendar.yearMonthDay (t.toInt / usecPerDay) = date) (before : date.year < 1)
    (bounds : -13000000 ≤ calendar.sysDays (date.addYears (-1)) ∧
      calendar.sysDays (date.addYears (-1)) ≤ 13000000) :
    (shiftedTicks calendar t).toInt =
      calendar.sysDays (date.addYears (-1)) * usecPerDay + t.toInt % usecPerDay := by
  have fits : FitsInt64 (calendar.sysDays (date.addYears (-1)) * usecPerDay +
      t.toInt % usecPerDay) := by
    simp only [usecPerDay]
    constructor
    · omega
    · omega
  rw [shiftedTicks, read, if_pos before, toInt_ofInt_fits fits]

theorem addYears_ok {date : YearMonthDay} (ok : date.Ok) (inYears : InYears (date.year - 1))
    (kept : ¬(date.month = 2 ∧ date.day = 29)) : (date.addYears (-1)).Ok := by
  refine ⟨inYears, ok.month, ok.day.1, ?_⟩
  have last := ok.day.2
  simp only [YearMonthDay.addYears]
  by_cases february : date.month = 2
  · rw [daysInMonth, if_pos february] at last ⊢
    split
    · split at last
      · omega
      · omega
    · split at last
      · omega
      · omega
  · rw [daysInMonth, if_neg february] at last ⊢
    exact last

theorem inYears_epoch : InYears 1970 := ⟨by decide, by decide⟩

theorem march_ok {year : Int} (inYears : InYears year) : YearMonthDay.Ok ⟨year, 3, 1⟩ :=
  ⟨inYears, ⟨by simp, by simp⟩, by simp, by simp [daysInMonth]⟩

theorem leap_of_last {date : YearMonthDay} (ok : date.Ok) (february : date.month = 2)
    (last : date.day = 29) : isLeap date.year ∧ ¬isLeap (date.year - 1) := by
  have inMonth := ok.day.2
  rw [daysInMonth, if_pos february] at inMonth
  split at inMonth
  · next leap =>
      refine ⟨leap, ?_⟩
      rw [isLeap] at leap ⊢
      omega
  · omega

include rules

theorem sysDays_month_bounds {year : Int} (inYears : InYears year) :
    ∀ {month : Nat}, 1 ≤ month → month ≤ 12 →
      calendar.sysDays ⟨year, 1, 1⟩ ≤ calendar.sysDays ⟨year, month, 1⟩ ∧
        calendar.sysDays ⟨year, month, 1⟩ ≤ calendar.sysDays ⟨year, 1, 1⟩ + 31 * (month - 1) := by
  intro month first
  induction month, first using Nat.le_induction with
  | base =>
      intro _
      omega
  | succ month first ih =>
      intro last
      have before := ih (by omega)
      have length := daysInMonth_le year month
      have next := rules.month inYears first (by omega)
      omega

theorem sysDays_next_year {year : Int} (inYears : InYears year) (later : InYears (year + 1)) :
    calendar.sysDays ⟨year, 1, 1⟩ ≤ calendar.sysDays ⟨year + 1, 1, 1⟩ ∧
      calendar.sysDays ⟨year + 1, 1, 1⟩ ≤ calendar.sysDays ⟨year, 1, 1⟩ + 372 := by
  have next := rules.year inYears later
  have months := @sysDays_month_bounds calendar rules _ inYears 12 (by omega) (by omega)
  omega

theorem sysDays_years_later {first last : Int} (inYears : InYears first) (order : first ≤ last) :
    InYears last → calendar.sysDays ⟨first, 1, 1⟩ ≤ calendar.sysDays ⟨last, 1, 1⟩ ∧
      calendar.sysDays ⟨last, 1, 1⟩ ≤ calendar.sysDays ⟨first, 1, 1⟩ + 372 * (last - first) := by
  induction last, order using Int.leInduction with
  | base =>
      intro _
      omega
  | succ year after ih =>
      intro later
      have earlier : InYears year := by
        rw [InYears] at inYears later ⊢
        omega
      have before := ih earlier
      have step := sysDays_next_year rules earlier later
      omega

theorem sysDays_before_bounds {year : Int} {month day : Nat} (inYears : InYears year)
    (before : year ≤ 1970) (months : 1 ≤ month ∧ month ≤ 12) (days : 1 ≤ day ∧ day ≤ 31) :
    -13000000 ≤ calendar.sysDays ⟨year, month, day⟩ ∧
      calendar.sysDays ⟨year, month, day⟩ ≤ 400 := by
  obtain ⟨day, rfl⟩ : ∃ n, day = n + 1 := ⟨day - 1, by omega⟩
  have epoch := rules.epoch
  have years := sysDays_years_later rules inYears before inYears_epoch
  have inYear := sysDays_month_bounds rules inYears months.1 months.2
  have inMonth := rules.day day inYears months.1 months.2 (by omega)
  rw [InYears] at inYears
  omega

theorem yearMonthDay_of {date : YearMonthDay} (ok : date.Ok) {t : BitVec 64}
    (day : calendar.sysDays date = t.toInt / usecPerDay) :
    calendar.yearMonthDay (t.toInt / usecPerDay) = date := by
  rw [← day]
  exact rules.yearMonthDay ok

theorem shiftedTicks_toInt {date : YearMonthDay} (ok : date.Ok) (before : date.year < 1)
    (inYears : InYears (date.year - 1)) {t : BitVec 64}
    (day : calendar.sysDays date = t.toInt / usecPerDay) :
    (shiftedTicks calendar t).toInt =
      calendar.sysDays (date.addYears (-1)) * usecPerDay + t.toInt % usecPerDay := by
  have short := daysInMonth_le date.year date.month
  have bounds := sysDays_before_bounds rules inYears (by omega) ok.month
    ⟨ok.day.1, ok.day.2.trans short⟩
  rw [sub_eq_add_neg] at bounds
  exact shiftedTicks_before (yearMonthDay_of rules ok day) before
    ⟨bounds.1, bounds.2.trans (by decide)⟩

theorem sysDays_march {year : Int} (inYears : InYears year) :
    calendar.sysDays ⟨year, 3, 1⟩ + 28 = calendar.sysDays ⟨year, 2, 29⟩ + daysInMonth year 2 := by
  have day : calendar.sysDays ⟨year, 2, 29⟩ = calendar.sysDays ⟨year, 2, 1⟩ + 28 :=
    rules.day 28 inYears (by decide) (by decide) (by decide)
  have month : calendar.sysDays ⟨year, 3, 1⟩ =
      calendar.sysDays ⟨year, 2, 1⟩ + daysInMonth year 2 :=
    rules.month inYears (by decide) (by decide)
  omega

theorem sysDays_lost {year : Int} (inYears : InYears year) (common : ¬isLeap year) :
    calendar.sysDays ⟨year, 2, 29⟩ = calendar.sysDays ⟨year, 3, 1⟩ := by
  have march := sysDays_march rules inYears
  have length : daysInMonth year 2 = 28 := by simp [daysInMonth, common]
  omega

theorem sysDays_leap {year : Int} (inYears : InYears year) (leap : isLeap year) :
    calendar.sysDays ⟨year, 3, 1⟩ = calendar.sysDays ⟨year, 2, 29⟩ + 1 := by
  have march := sysDays_march rules inYears
  have length : daysInMonth year 2 = 29 := by simp [daysInMonth, leap]
  omega

section

variable {date : YearMonthDay} (ok : date.Ok) {t : BitVec 64}
  (day : calendar.sysDays date = t.toInt / usecPerDay)

include ok day

theorem alignedTicks_after (after : 1 ≤ date.year) :
    alignedTicks calendar (shiftedTicks calendar t).toInt = .ok t.toInt := by
  have read := yearMonthDay_of rules ok day
  have kept : shiftedTicks calendar t = t := by
    rw [shiftedTicks, read, if_neg (by omega)]
  rw [kept, alignedTicks, read, if_neg (by omega), if_pos (by omega)]

variable (before : date.year < 1) (inYears : InYears (date.year - 1))

include before inYears

theorem alignedTicks_kept (leapDay : ¬(date.month = 2 ∧ date.day = 29)) :
    alignedTicks calendar (shiftedTicks calendar t).toInt = .ok t.toInt := by
  have prev := addYears_ok ok inYears leapDay
  have early : (date.addYears (-1)).year < 0 := by
    simp only [YearMonthDay.addYears]
    omega
  have back : (date.addYears (-1)).addYears 1 = date := by
    simp [YearMonthDay.addYears]
  rw [shiftedTicks_toInt rules ok before inYears day, alignedTicks, day_of_shifted.1,
    day_of_shifted.2, rules.yearMonthDay prev, if_neg early.ne, if_neg (by omega), back, day,
    Int.ediv_mul_add_emod]

theorem alignedTicks_lost (leapDay : date.month = 2 ∧ date.day = 29) :
    alignedTicks calendar (shiftedTicks calendar t).toInt = .ok (t.toInt + usecPerDay) := by
  obtain ⟨leap, common⟩ := leap_of_last ok leapDay.1 leapDay.2
  have first := sysDays_lost rules inYears common
  have next := sysDays_leap rules ok.year leap
  have this : date = ⟨date.year, 2, 29⟩ := by rw [← leapDay.1, ← leapDay.2]
  rw [shiftedTicks_toInt rules ok before inYears day, YearMonthDay.addYears, leapDay.1, leapDay.2,
    ← sub_eq_add_neg, first, alignedTicks, day_of_shifted.1, day_of_shifted.2,
    rules.yearMonthDay (march_ok inYears), if_neg (show ¬date.year - 1 = 0 by omega),
    if_neg (show ¬0 < date.year - 1 by omega), YearMonthDay.addYears, sub_add_cancel, next, ← this,
    day, add_mul, one_mul, add_right_comm, Int.ediv_mul_add_emod]

end

theorem alignedTicks_shifted {t : BitVec 64} (inside : InCalendar calendar t) :
    (¬OnLostDay calendar t →
      alignedTicks calendar (shiftedTicks calendar t).toInt = .ok t.toInt) ∧
    (OnLostDay calendar t →
      alignedTicks calendar (shiftedTicks calendar t).toInt = .ok (t.toInt + usecPerDay)) := by
  obtain ⟨date, ok, shifts, day⟩ := inside
  have read := yearMonthDay_of rules ok day
  constructor
  · intro kept
    by_cases after : 1 ≤ date.year
    · exact alignedTicks_after rules ok day after
    · have before : date.year < 1 := not_le.mp after
      refine alignedTicks_kept rules ok day before (shifts before) ?_
      intro leapDay
      refine kept ⟨date.year, before, ?_⟩
      rw [read, ← leapDay.1, ← leapDay.2]
  · rintro ⟨year, before, lost⟩
    rw [read] at lost
    subst lost
    exact alignedTicks_lost rules ok day before (shifts before) ⟨rfl, rfl⟩

theorem lost_parts {t : BitVec 64} (inside : InCalendar calendar t)
    (lost : OnLostDay calendar t) :
    ∃ year < 1, YearMonthDay.Ok ⟨year, 2, 29⟩ ∧ InYears (year - 1) ∧
      calendar.sysDays ⟨year, 2, 29⟩ = t.toInt / usecPerDay := by
  obtain ⟨date, ok, shifts, day⟩ := inside
  obtain ⟨year, before, read⟩ := lost
  rw [yearMonthDay_of rules ok day] at read
  subst read
  exact ⟨year, before, ok, shifts before, day⟩

theorem shiftedTicks_lost {t other : BitVec 64} (inside : InCalendar calendar t)
    (lost : OnLostDay calendar t) (next : other.toInt = t.toInt + usecPerDay) :
    shiftedTicks calendar t = shiftedTicks calendar other := by
  obtain ⟨year, before, ok, inYears, day⟩ := lost_parts rules inside lost
  obtain ⟨leap, common⟩ := leap_of_last ok rfl rfl
  have later : calendar.sysDays ⟨year, 3, 1⟩ = other.toInt / usecPerDay := by
    rw [sysDays_leap rules ok.year leap, day, next]
    simp only [usecPerDay]
    omega
  have rest : other.toInt % usecPerDay = t.toInt % usecPerDay := by
    rw [next, Int.add_emod_right]
  apply BitVec.eq_of_toInt_eq
  rw [shiftedTicks_toInt rules ok before inYears day,
    shiftedTicks_toInt rules (march_ok ok.year) before inYears later, YearMonthDay.addYears,
    YearMonthDay.addYears, ← sub_eq_add_neg, sysDays_lost rules inYears common, rest]

theorem shiftedTicks_eq_iff {t other : BitVec 64} (inside : InCalendar calendar t)
    (otherInside : InCalendar calendar other) :
    shiftedTicks calendar t = shiftedTicks calendar other ↔
      t = other ∨ OnLostDay calendar t ∧ other.toInt = t.toInt + usecPerDay ∨
        OnLostDay calendar other ∧ t.toInt = other.toInt + usecPerDay := by
  constructor
  · intro same
    have back := alignedTicks_shifted rules inside
    have otherBack := alignedTicks_shifted rules otherInside
    rw [← same] at otherBack
    by_cases lost : OnLostDay calendar t
    · by_cases otherLost : OnLostDay calendar other
      · have ticks := Except.ok.inj ((back.2 lost).symm.trans (otherBack.2 otherLost))
        exact Or.inl (BitVec.eq_of_toInt_eq (add_right_cancel ticks))
      · have ticks := Except.ok.inj ((back.2 lost).symm.trans (otherBack.1 otherLost))
        exact Or.inr (Or.inl ⟨lost, ticks.symm⟩)
    · by_cases otherLost : OnLostDay calendar other
      · have ticks := Except.ok.inj ((back.1 lost).symm.trans (otherBack.2 otherLost))
        exact Or.inr (Or.inr ⟨otherLost, ticks⟩)
      · have ticks := Except.ok.inj ((back.1 lost).symm.trans (otherBack.1 otherLost))
        exact Or.inl (BitVec.eq_of_toInt_eq ticks)
  · rintro (rfl | ⟨lost, next⟩ | ⟨lost, next⟩)
    · rfl
    · exact shiftedTicks_lost rules inside lost next
    · exact (shiftedTicks_lost rules otherInside lost next).symm

end

/-- Both kinds of timestamp keep the ticks, and the eight bytes of a binary value that stands
for them are the ones that are written for the value that was read. -/
structure KeepsTicks (calendar : Calendar) (t : BitVec 64) : Prop where
  plain : (Timestamp.ofTicks calendar t).pgticks calendar = .ok t.toInt
  zoned : (TimestampTz.ofTicks calendar t).pgticks calendar = .ok t.toInt
  plainBytes : ∀ clock (v : BitVec 64), v.toInt + postgresEpochUsec = t.toInt →
    (pgvalToTimestamp calendar clock (Bytes.bigEndian 8 v.toNat) 0 8 >>=
        newParameterTimestamp calendar) =
      .ok (.binary timestampOid (Bytes.bigEndian 8 v.toNat))
  zonedBytes : ∀ clock (v : BitVec 64), v.toInt + postgresEpochUsec = t.toInt →
    (pgvalToTimestampTz calendar clock (Bytes.bigEndian 8 v.toNat) 0 8 >>=
        newParameterTimestampTz calendar) =
      .ok (.binary timestamptzOid (Bytes.bigEndian 8 v.toNat))

theorem written_iff {w oid : Nat} (size : Nat) (positive : 0 < w) (width : w = 8 * size)
    (write : BitVec w → List UInt8) (bytes : ∀ val, write val = Bytes.bigEndian size val.toNat)
    {epoch : Int} {x : Except WireError Int} {v : BitVec w} :
    (x >>= fun ticks => checkedInt w (ticks - epoch) >>= fun val =>
        .ok (Parameter.binary oid (write val))) =
      .ok (.binary oid (Bytes.bigEndian size v.toNat)) ↔
    x = .ok (v.toInt + epoch) := by
  constructor
  · intro written
    obtain ⟨ticks, counted, written⟩ := Results.bind_ok.mp written
    obtain ⟨val, sent, written⟩ := Results.bind_ok.mp written
    rw [bytes] at written
    have values := congrArg Parameter.value (Except.ok.inj written)
    have same : val = v := bigEndian_injective size width (Option.some.inj values)
    have shifted := ((checkedInt_ok_iff positive).mp sent).2
    rw [same] at shifted
    rw [counted, shifted, sub_add_cancel]
  · intro counted
    have sent : checkedInt w v.toInt = .ok v :=
      (checkedInt_ok_iff positive).mpr ⟨⟨BitVec.le_toInt v, BitVec.toInt_lt⟩, rfl⟩
    rw [counted, Results.ok_bind, add_sub_cancel_right, sent, Results.ok_bind, bytes]

theorem add_epoch {w : Nat} {epoch : Int} {t v : BitVec w} (sum : v.toInt + epoch = t.toInt) :
    v + BitVec.ofInt w epoch = t := by
  apply BitVec.eq_of_toInt_eq
  rw [BitVec.toInt_add, BitVec.toInt_ofInt, Int.add_bmod_bmod, sum]
  exact BitVec.toInt_bmod_cancel t

section

variable {calendar : Calendar} {t v : BitVec 64}

theorem decode_timestamp (clock : BitVec 64) :
    pgvalToTimestamp calendar clock (Bytes.bigEndian 8 v.toNat) 0 8 =
      .ok (Timestamp.ofTicks calendar (v + BitVec.ofInt 64 postgresEpochUsec)) := by
  rw [pgvalToTimestamp, if_neg (by decide), (Holds.whole _).readInt64]
  rfl

theorem decode_timestampTz (clock : BitVec 64) :
    pgvalToTimestampTz calendar clock (Bytes.bigEndian 8 v.toNat) 0 8 =
      .ok (TimestampTz.ofTicks calendar (v + BitVec.ofInt 64 postgresEpochUsec)) := by
  rw [pgvalToTimestampTz, if_neg (by decide), (Holds.whole _).readInt64]
  rfl

theorem encode_timestamp_iff : newParameterTimestamp calendar (Timestamp.ofTicks calendar t) =
      .ok (.binary timestampOid (Bytes.bigEndian 8 v.toNat)) ↔
    alignedTicks calendar (shiftedTicks calendar t).toInt = .ok (v.toInt + postgresEpochUsec) := by
  rw [newParameterTimestamp, if_neg (by simp [Timestamp.ofTicks])]
  exact written_iff 8 (by decide) rfl _ fun val => inMemory_swap8 val true

theorem encode_timestampTz_iff : newParameterTimestampTz calendar (TimestampTz.ofTicks calendar t) =
      .ok (.binary timestamptzOid (Bytes.bigEndian 8 v.toNat)) ↔
    alignedTicks calendar (shiftedTicks calendar t).toInt = .ok (v.toInt + postgresEpochUsec) := by
  rw [newParameterTimestampTz, if_neg (by simp [TimestampTz.ofTicks])]
  exact written_iff 8 (by decide) rfl _ fun val => inMemory_swap8 val true

end

theorem keepsTicks_iff {calendar : Calendar} (rules : calendar.Proleptic) {t : BitVec 64}
    (inside : InCalendar calendar t) :
    KeepsTicks calendar t ↔ ¬OnLostDay calendar t := by
  have back := alignedTicks_shifted rules inside
  constructor
  · intro keeps lost
    have ticks := Except.ok.inj (keeps.plain.symm.trans (back.2 lost))
    rw [usecPerDay] at ticks
    omega
  · intro kept
    have same := back.1 kept
    refine ⟨same, same, ?_, ?_⟩
    · intro clock v ticks
      rw [decode_timestamp, Results.ok_bind, add_epoch ticks, encode_timestamp_iff, ticks, same]
    · intro clock v ticks
      rw [decode_timestampTz, Results.ok_bind, add_epoch ticks, encode_timestampTz_iff, ticks, same]

/-- Ticks come back, and their bytes with them, exactly from the days that are no 29 February of
year zero or before. Two instants become one exactly when they are a day apart and the first is
on such a day. -/
theorem timestamps_keep_ticks (calendar : Calendar) (rules : calendar.Proleptic) :
    (∀ t, InCalendar calendar t → (KeepsTicks calendar t ↔ ¬OnLostDay calendar t)) ∧
    ∀ t other, InCalendar calendar t → InCalendar calendar other → t ≠ other →
      (Timestamp.ofTicks calendar t = Timestamp.ofTicks calendar other ↔
        OnLostDay calendar t ∧ other.toInt = t.toInt + usecPerDay ∨
          OnLostDay calendar other ∧ t.toInt = other.toInt + usecPerDay) ∧
      (TimestampTz.ofTicks calendar t = TimestampTz.ofTicks calendar other ↔
        OnLostDay calendar t ∧ other.toInt = t.toInt + usecPerDay ∨
          OnLostDay calendar other ∧ t.toInt = other.toInt + usecPerDay) := by
  refine ⟨fun t => keepsTicks_iff rules, ?_⟩
  intro t other inside otherInside different
  have collide := shiftedTicks_eq_iff rules inside otherInside
  rw [or_iff_right different] at collide
  rw [Timestamp.ofTicks, Timestamp.ofTicks, TimestampTz.ofTicks, TimestampTz.ofTicks,
    Timestamp.mk.injEq, TimestampTz.mk.injEq, collide]
  simp

theorem epoch_in_calendar {t : BitVec 64} (early : 0 ≤ t.toInt) (late : t.toInt < usecPerDay) :
    InCalendar gregorian t := by
  refine ⟨⟨1970, 1, 1⟩, ⟨⟨by decide, by decide⟩, by decide, by decide⟩,
    fun before => absurd before (by decide), ?_⟩
  rw [Int.ediv_eq_zero_of_lt early late]
  decide

theorem timestamps_keep_epoch : KeepsTicks gregorian 0 ∧
    Timestamp.ofTicks gregorian 0 ≠ Timestamp.ofTicks gregorian 1 := by
  have claim := timestamps_keep_ticks gregorian Gregorian.proleptic
  have kept (t : BitVec 64) (day : t.toInt / usecPerDay = 0) : ¬OnLostDay gregorian t := by
    rintro ⟨year, _, lost⟩
    have read : gregorian.yearMonthDay 0 = ⟨1970, 1, 1⟩ := by decide
    rw [day, read] at lost
    simp at lost
  have first : InCalendar gregorian 0 := epoch_in_calendar (by decide) (by decide)
  have second : InCalendar gregorian 1 := epoch_in_calendar (by decide) (by decide)
  refine ⟨(claim.1 0 first).mpr (kept 0 (by decide)), ?_⟩
  rw [Ne, (claim.2 0 1 first second (by decide)).1]
  rintro (⟨lost, _⟩ | ⟨lost, _⟩)
  · exact kept 0 (by decide) lost
  · exact kept 1 (by decide) lost

theorem timestamps_lose_leap_day :
    InCalendar gregorian (BitVec.ofInt 64 (-62162121600000000)) ∧
      (Timestamp.ofTicks gregorian (BitVec.ofInt 64 (-62162121600000000))).pgticks gregorian ≠
        .ok (BitVec.ofInt 64 (-62162121600000000)).toInt := by
  refine ⟨⟨⟨0, 2, 29⟩, ⟨⟨by decide, by decide⟩, by decide, by decide⟩, ?_, by decide⟩, by decide⟩
  intro _
  exact ⟨by decide, by decide⟩

end PqAsync
