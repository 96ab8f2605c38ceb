import PqAsync.DateDays

/-!
The epochs of the server and of the calendar over the whole range of the integers: exactly which
values are shifted without overflow and come back as the bytes that were read, whatever the
calendar does outside its years.
-/

namespace PqAsync

/-- The shift does not overflow or the bytes are refused, and what is read from the bytes is
written as these bytes. -/
structure ShiftsBack {α : Type} (w : Nat) (shifted : Int) (decoded : Except WireError α)
    (encode : α → Except WireError Parameter) (sent : Parameter) : Prop where
  shift : FitsInt w shifted ∨ ∃ failure, decoded = .error failure
  back : ∀ value, decoded = .ok value → encode value = .ok sent

def TimestampShiftsBack (v : BitVec 64) : Prop :=
  ∀ calendar : Calendar, calendar.Proleptic → ∀ clock,
    ShiftsBack 64 (v.toInt + postgresEpochUsec)
      (pgvalToTimestamp calendar clock (Bytes.bigEndian 8 v.toNat) 0 8)
      (newParameterTimestamp calendar) (.binary timestampOid (Bytes.bigEndian 8 v.toNat))

def TimestampTzShiftsBack (v : BitVec 64) : Prop :=
  ∀ calendar : Calendar, calendar.Proleptic → ∀ clock,
    ShiftsBack 64 (v.toInt + postgresEpochUsec)
      (pgvalToTimestampTz calendar clock (Bytes.bigEndian 8 v.toNat) 0 8)
      (newParameterTimestampTz calendar) (.binary timestamptzOid (Bytes.bigEndian 8 v.toNat))

def DateShiftsBack (v : BitVec 32) : Prop :=
  ∀ calendar : Calendar, calendar.Proleptic → ∀ clock,
    ShiftsBack 32 (v.toInt + postgresEpochJdate)
      (pgvalToDate calendar clock (Bytes.bigEndian 4 v.toNat) 0 4)
      (newParameterDate calendar) (.binary dateOid (Bytes.bigEndian 4 v.toNat))

/-- The instant is on a date that has its year in range before and after the shift, and on no leap
day that the shift loses. -/
def InstantKept (v : BitVec 64) : Prop :=
  ∃ date : YearMonthDay, date.Ok ∧ (date.year < 1 → InYears (date.year - 1)) ∧
    gregorian.sysDays date = (v.toInt + postgresEpochUsec) / usecPerDay ∧
    ¬(date.year < 1 ∧ date.month = 2 ∧ date.day = 29)

def DayKept (v : BitVec 32) : Prop :=
  ∃ date : YearMonthDay, date.Ok ∧ gregorian.sysDays date = v.toInt + postgresEpochJdate

section

variable {left right : Calendar} (rules : left.Proleptic) (others : right.Proleptic)

include rules others

theorem sysDays_months_apart {year : Int} (inYears : InYears year) {month : Nat}
    (first : 1 ≤ month) : month ≤ 12 →
      left.sysDays ⟨year, month, 1⟩ - left.sysDays ⟨year, 1, 1⟩ =
        right.sysDays ⟨year, month, 1⟩ - right.sysDays ⟨year, 1, 1⟩ := by
  induction month, first using Nat.le_induction with
  | base =>
      intro _
      omega
  | succ month first ih =>
      intro last
      have before := ih (by omega)
      have next := rules.month inYears first (by omega)
      have otherNext := others.month inYears first (by omega)
      omega

theorem sysDays_years_apart {year : Int} (inYears : InYears year) (later : InYears (year + 1)) :
    left.sysDays ⟨year + 1, 1, 1⟩ - left.sysDays ⟨year, 1, 1⟩ =
      right.sysDays ⟨year + 1, 1, 1⟩ - right.sysDays ⟨year, 1, 1⟩ := by
  have december := sysDays_months_apart rules others inYears (show 1 ≤ 12 by decide) le_rfl
  have next := rules.year inYears later
  have otherNext := others.year inYears later
  omega

theorem sysDays_year_same {year : Int} (inYears : InYears year) :
    left.sysDays ⟨year, 1, 1⟩ = right.sysDays ⟨year, 1, 1⟩ := by
  have epochs := rules.epoch.trans others.epoch.symm
  rcases le_total 1970 year with after | before
  · induction year, after using Int.leInduction with
    | base => exact epochs
    | succ year after ih =>
        have earlier : InYears year := by
          rw [InYears] at inYears ⊢
          omega
        have step := sysDays_years_apart rules others earlier inYears
        have same := ih earlier
        omega
  · induction year, before using Int.leInductionDown with
    | base => exact epochs
    | pred year before ih =>
        have later : InYears year := by
          rw [InYears] at inYears ⊢
          omega
        have step := sysDays_years_apart rules others inYears (by rwa [sub_add_cancel])
        rw [sub_add_cancel] at step
        have same := ih later
        omega

theorem sysDays_same {date : YearMonthDay} (ok : date.Ok) : left.sysDays date = right.sysDays date := by
  obtain ⟨year, month, day⟩ := date
  have inYears : InYears year := ok.year
  have months : 1 ≤ month ∧ month ≤ 12 := ok.month
  have days : 1 ≤ day ∧ day ≤ daysInMonth year month := ok.day
  have short := daysInMonth_le year month
  obtain ⟨day, rfl⟩ : ∃ n, day = n + 1 := ⟨day - 1, by omega⟩
  have start := sysDays_year_same rules others inYears
  have inYear := sysDays_months_apart rules others inYears months.1 months.2
  rw [rules.day day inYears months.1 months.2 (by omega),
    others.day day inYears months.1 months.2 (by omega)]
  omega

end

noncomputable def limited : Calendar :=
  open Classical in
  { sysDays := fun date => if InYears date.year then gregorian.sysDays date else 0
    yearMonthDay := fun days =>
      if ∃ date : YearMonthDay, date.Ok ∧ gregorian.sysDays date = days then
        gregorian.yearMonthDay days
      else ⟨0, 1, 1⟩ }

theorem newYear_ok {year : Int} (inYears : InYears year) : YearMonthDay.Ok ⟨year, 1, 1⟩ :=
  ⟨inYears, ⟨le_rfl, by simp⟩, le_rfl, by simp [daysInMonth]⟩

theorem limited_sysDays {date : YearMonthDay} (inYears : InYears date.year) :
    limited.sysDays date = gregorian.sysDays date :=
  if_pos inYears

theorem limited_proleptic : limited.Proleptic where
  epoch := (limited_sysDays ⟨by decide, by decide⟩).trans Gregorian.proleptic.epoch
  day := by
    intro year month day inYears first last small
    rw [limited_sysDays inYears, limited_sysDays inYears]
    exact Gregorian.proleptic.day day inYears first last small
  month := by
    intro year month inYears first last
    rw [limited_sysDays inYears, limited_sysDays inYears]
    exact Gregorian.proleptic.month inYears first last
  year := by
    intro year inYears later
    rw [limited_sysDays later, limited_sysDays inYears]
    exact Gregorian.proleptic.year inYears later
  yearMonthDay := by
    intro date ok
    rw [limited_sysDays ok.year]
    exact (if_pos ⟨date, ok, rfl⟩).trans (Gregorian.proleptic.yearMonthDay ok)

theorem limited_outside {days : Int}
    (outside : ¬∃ date : YearMonthDay, date.Ok ∧ gregorian.sysDays date = days) :
    limited.yearMonthDay days = ⟨0, 1, 1⟩ :=
  if_neg outside

theorem gregorian_bounds {date : YearMonthDay} (ok : date.Ok) :
    -13000000 ≤ gregorian.sysDays date ∧ gregorian.sysDays date ≤ 13000000 := by
  obtain ⟨low, high⟩ := ok.year
  have months := ok.month
  have days := ok.day
  have short := daysInMonth_le date.year date.month
  simp only [gregorian]
  split
  · omega
  · omega

theorem inCalendar_same {calendar : Calendar} (rules : calendar.Proleptic) {t : BitVec 64} :
    InCalendar calendar t ↔ InCalendar gregorian t := by
  constructor
  · rintro ⟨date, ok, shifts, day⟩
    exact ⟨date, ok, shifts, (sysDays_same Gregorian.proleptic rules ok).trans day⟩
  · rintro ⟨date, ok, shifts, day⟩
    exact ⟨date, ok, shifts, (sysDays_same rules Gregorian.proleptic ok).trans day⟩

theorem inCalendar_of_limited {t : BitVec 64}
    (back : alignedTicks limited (shiftedTicks limited t).toInt = .ok t.toInt) :
    InCalendar gregorian t := by
  by_cases inside : ∃ date : YearMonthDay, date.Ok ∧ gregorian.sysDays date = t.toInt / usecPerDay
  · obtain ⟨date, ok, day⟩ := inside
    by_cases shifts : date.year < 1 → InYears (date.year - 1)
    · exact ⟨date, ok, shifts, day⟩
    · obtain ⟨before, outside⟩ := Classical.not_imp.mp shifts
      have read : limited.yearMonthDay (t.toInt / usecPerDay) = date := by
        rw [← day, ← limited_sysDays ok.year, limited_proleptic.yearMonthDay ok]
      have nowhere : limited.sysDays (date.addYears (-1)) = 0 := if_neg outside
      have epoch : limited.yearMonthDay 0 = ⟨1970, 1, 1⟩ := by
        rw [← limited_proleptic.epoch]
        exact limited_proleptic.yearMonthDay (newYear_ok ⟨by decide, by decide⟩)
      have ticks := shiftedTicks_before read before (by simp [nowhere])
      rw [ticks, nowhere, alignedTicks, day_of_shifted.1, day_of_shifted.2, epoch,
        if_neg (by decide), if_pos (by decide)] at back
      have today : t.toInt / usecPerDay = 0 := by
        rw [← Except.ok.inj back]
        exact day_of_shifted.1
      rw [today, epoch] at read
      rw [← read] at before
      contradiction
  · have read := limited_outside inside
    have ok : YearMonthDay.Ok ⟨-1, 1, 1⟩ := newYear_ok ⟨by decide, by decide⟩
    have shifted : limited.sysDays (YearMonthDay.addYears ⟨0, 1, 1⟩ (-1)) =
        gregorian.sysDays ⟨-1, 1, 1⟩ :=
      limited_sysDays ok.year
    have ticks := shiftedTicks_before read (by decide) (shifted ▸ gregorian_bounds ok)
    have again : limited.yearMonthDay (gregorian.sysDays ⟨-1, 1, 1⟩) = ⟨-1, 1, 1⟩ := by
      rw [← limited_sysDays ok.year, limited_proleptic.yearMonthDay ok]
    rw [ticks, shifted, alignedTicks, day_of_shifted.1, day_of_shifted.2, again,
      if_neg (by decide), if_neg (by decide)] at back
    have zero : YearMonthDay.Ok ⟨0, 1, 1⟩ := newYear_ok ⟨by decide, by decide⟩
    refine absurd ⟨⟨0, 1, 1⟩, zero, ?_⟩ inside
    rw [← limited_sysDays zero.year, ← Except.ok.inj back]
    exact day_of_shifted.1.symm

theorem shiftsBack_ok {α : Type} {w : Nat} {shifted : Int} {value : α}
    {encode : α → Except WireError Parameter} {sent : Parameter} :
    ShiftsBack w shifted (.ok value) encode sent ↔ FitsInt w shifted ∧ encode value = .ok sent := by
  constructor
  · rintro ⟨shift, back⟩
    rcases shift with fits | ⟨failure, refused⟩
    · exact ⟨fits, back value rfl⟩
    · contradiction
  · rintro ⟨fits, written⟩
    refine ⟨.inl fits, ?_⟩
    intro other same
    cases same
    exact written

def TicksKept (v : BitVec 64) : Prop :=
  ∀ calendar : Calendar, calendar.Proleptic →
    FitsInt 64 (v.toInt + postgresEpochUsec) ∧
      alignedTicks calendar
          (shiftedTicks calendar (v + BitVec.ofInt 64 postgresEpochUsec)).toInt =
        .ok (v.toInt + postgresEpochUsec)

theorem timestampShiftsBack_iff {v : BitVec 64} : TimestampShiftsBack v ↔ TicksKept v := by
  have each (calendar : Calendar) (clock : BitVec 64) := @decode_timestamp calendar v clock
  simp only [TimestampShiftsBack, TicksKept, each, shiftsBack_ok, encode_timestamp_iff,
    forall_const]

theorem timestampTzShiftsBack_iff {v : BitVec 64} : TimestampTzShiftsBack v ↔ TicksKept v := by
  have each (calendar : Calendar) (clock : BitVec 64) := @decode_timestampTz calendar v clock
  simp only [TimestampTzShiftsBack, TicksKept, each, shiftsBack_ok, encode_timestampTz_iff,
    forall_const]

theorem InstantKept.fits {v : BitVec 64} (kept : InstantKept v) :
    FitsInt 64 (v.toInt + postgresEpochUsec) := by
  obtain ⟨date, ok, _, day, _⟩ := kept
  have bounds := gregorian_bounds ok
  rw [day] at bounds
  simp only [usecPerDay] at bounds
  constructor
  · omega
  · omega

theorem ticksKept_iff (v : BitVec 64) : TicksKept v ↔ InstantKept v := by
  constructor
  · intro kept
    obtain ⟨fits, back⟩ := kept gregorian Gregorian.proleptic
    obtain ⟨t, ticks⟩ := exists_toInt fits
    have limitedBack := (kept limited limited_proleptic).2
    rw [add_epoch ticks.symm, ← ticks] at back limitedBack
    have inside := inCalendar_of_limited limitedBack
    have found := alignedTicks_shifted Gregorian.proleptic inside
    obtain ⟨date, ok, shifts, day⟩ := inside
    refine ⟨date, ok, shifts, ticks ▸ day, ?_⟩
    rintro ⟨before, february, last⟩
    have lost : OnLostDay gregorian t := by
      refine ⟨date.year, before, ?_⟩
      rw [yearMonthDay_of Gregorian.proleptic ok day, ← february, ← last]
    have same := Except.ok.inj (back.symm.trans (found.2 lost))
    rw [usecPerDay] at same
    omega
  · intro kept calendar rules
    have fits := kept.fits
    obtain ⟨t, ticks⟩ := exists_toInt fits
    obtain ⟨date, ok, shifts, day, notLost⟩ := kept
    rw [← ticks] at day
    have inside := (inCalendar_same rules).mpr ⟨date, ok, shifts, day⟩
    refine ⟨fits, ?_⟩
    rw [add_epoch ticks.symm, ← ticks]
    refine (alignedTicks_shifted rules inside).1 ?_
    rintro ⟨year, before, read⟩
    rw [yearMonthDay_of rules ok ((sysDays_same rules Gregorian.proleptic ok).trans day)] at read
    subst read
    exact notLost ⟨before, rfl, rfl⟩

theorem dateShiftsBack_iff (v : BitVec 32) : DateShiftsBack v ↔ DayKept v := by
  have each (calendar : Calendar) (clock : BitVec 64) := @decode_date calendar clock v
  simp only [DateShiftsBack, each, shiftsBack_ok, encode_date_iff, forall_const]
  constructor
  · intro kept
    obtain ⟨fits, back⟩ := kept limited limited_proleptic
    have ticks := (toInt_ofInt_of_fits (by decide) fits).symm
    rw [add_epoch ticks, ofDays_shifted, YearMonthDay.pgticks_shifted, ← ticks] at back
    by_contra outside
    rw [limited_outside outside] at back
    have zero : YearMonthDay.Ok ⟨0, 1, 1⟩ := newYear_ok ⟨by decide, by decide⟩
    rw [limited_sysDays zero.year] at back
    exact outside ⟨_, zero, Except.ok.inj back⟩
  · rintro ⟨date, ok, day⟩ calendar rules
    have bounds := gregorian_bounds ok
    have fits : FitsInt 32 (v.toInt + postgresEpochJdate) := by
      rw [day] at bounds
      constructor
      · omega
      · omega
    have ticks := (toInt_ofInt_of_fits (by decide) fits).symm
    refine ⟨fits, ?_⟩
    rw [add_epoch ticks, ofDays_shifted, YearMonthDay.pgticks_shifted, ← ticks, ← day,
      ← sysDays_same rules Gregorian.proleptic ok, rules.yearMonthDay ok]

/-- For every value of the wire: timestamps come back just from the dates of the calendar that are
no lost leap day, and dates just from those of the calendar. -/
theorem epochs_shift_back (v : BitVec 64) (day : BitVec 32) :
    (TimestampShiftsBack v ↔ InstantKept v) ∧ (TimestampTzShiftsBack v ↔ InstantKept v) ∧
      (DateShiftsBack day ↔ DayKept day) :=
  ⟨timestampShiftsBack_iff.trans (ticksKept_iff v),
    timestampTzShiftsBack_iff.trans (ticksKept_iff v), dateShiftsBack_iff day⟩

theorem epochs_overflow :
    ¬TimestampShiftsBack 0x7fffffffffffffff ∧ ¬TimestampTzShiftsBack 0x7fffffffffffffff ∧
      ¬DateShiftsBack 0x7fffffff := by
  refine ⟨?_, ?_, ?_⟩
  · intro back
    exact absurd ((timestampShiftsBack_iff.mp back) gregorian Gregorian.proleptic).1 (by decide)
  · intro back
    exact absurd ((timestampTzShiftsBack_iff.mp back) gregorian Gregorian.proleptic).1 (by decide)
  · intro back
    obtain ⟨date, ok, day⟩ := (dateShiftsBack_iff _).mp back
    have bounds := gregorian_bounds ok
    rw [day] at bounds
    exact absurd bounds.2 (by decide)

end PqAsync
