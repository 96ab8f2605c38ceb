import PqAsync.DateCore
import Mathlib.Tactic.IntervalCases

/-!
The rules of the proleptic Gregorian calendar, as what is asked of a calendar library.
-/

namespace PqAsync

/-- The proleptic Gregorian calendar, in eras of 400 years that start on the first of March. -/
def gregorian : Calendar where
  sysDays date :=
    let year := if date.month ≤ 2 then date.year - 1 else date.year
    let yearOfEra := year % 400
    let month : Int := if date.month ≤ 2 then date.month + 9 else date.month - 3
    let dayOfYear := (153 * month + 2) / 5 + date.day - 1
    year / 400 * 146097 + (yearOfEra * 365 + yearOfEra / 4 - yearOfEra / 100 + dayOfYear) - 719468
  yearMonthDay days :=
    let era := (days + 719468) / 146097
    let day := (days + 719468) % 146097
    let yearOfEra := (day - day / 1460 + day / 36524 - day / 146096) / 365
    let dayOfYear := day - (365 * yearOfEra + yearOfEra / 4 - yearOfEra / 100)
    let month := (5 * dayOfYear + 2) / 153
    { year := yearOfEra + era * 400 + if month < 10 then 0 else 1
      month := (if month < 10 then month + 3 else month - 9).toNat
      day := (dayOfYear - (153 * month + 2) / 5 + 1).toNat }

def isLeap (year : Int) : Prop := year % 4 = 0 ∧ (year % 100 ≠ 0 ∨ year % 400 = 0)

instance (year : Int) : Decidable (isLeap year) := inferInstanceAs (Decidable (_ ∧ _))

def daysInMonth (year : Int) (month : Nat) : Nat :=
  if month = 2 then (if isLeap year then 29 else 28)
  else if month = 4 ∨ month = 6 ∨ month = 9 ∨ month = 11 then 30
  else 31

def InYears (year : Int) : Prop := -32767 ≤ year ∧ year ≤ 32767

structure YearMonthDay.Ok (date : YearMonthDay) : Prop where
  year : InYears date.year
  month : 1 ≤ date.month ∧ date.month ≤ 12
  day : 1 ≤ date.day ∧ date.day ≤ daysInMonth date.year date.month

/-- The day numbers of the calendar's dates. A date whose month is too short for its day stands
for a day after the end of the month. -/
structure Calendar.Proleptic (calendar : Calendar) : Prop where
  epoch : calendar.sysDays ⟨1970, 1, 1⟩ = 0
  day : ∀ {year : Int} {month : Nat} (day : Nat), InYears year → 1 ≤ month → month ≤ 12 →
    day < 255 →
    calendar.sysDays ⟨year, month, day + 1⟩ = calendar.sysDays ⟨year, month, 1⟩ + day
  month : ∀ {year : Int} {month : Nat}, InYears year → 1 ≤ month → month < 12 →
    calendar.sysDays ⟨year, month + 1, 1⟩ =
      calendar.sysDays ⟨year, month, 1⟩ + daysInMonth year month
  year : ∀ {year : Int}, InYears year → InYears (year + 1) →
    calendar.sysDays ⟨year + 1, 1, 1⟩ = calendar.sysDays ⟨year, 12, 1⟩ + 31
  yearMonthDay : ∀ {date : YearMonthDay}, date.Ok →
    calendar.yearMonthDay (calendar.sysDays date) = date

namespace Gregorian

theorem yearOfEra_back {yearOfEra dayOfYear day : Int} (low : 0 ≤ yearOfEra)
    (high : yearOfEra < 400) (first : 0 ≤ dayOfYear) (last : dayOfYear ≤ 365)
    (leap : dayOfYear = 365 →
      (yearOfEra + 1) % 4 = 0 ∧ ((yearOfEra + 1) % 100 ≠ 0 ∨ yearOfEra = 399))
    (split : day = yearOfEra * 365 + yearOfEra / 4 - yearOfEra / 100 + dayOfYear) :
    (day - day / 1460 + day / 36524 - day / 146096) / 365 = yearOfEra := by
  by_cases lastDay : yearOfEra = 399 ∧ dayOfYear = 365
  · obtain ⟨rfl, rfl⟩ := lastDay
    subst split
    decide
  · have century : day / 36524 = yearOfEra / 100 := by
      have short : dayOfYear ≤ 364 ∨ yearOfEra % 100 ≤ 98 := by omega
      have inside : day = yearOfEra / 100 * 36524 +
          (yearOfEra % 100 * 365 + yearOfEra % 100 / 4 + dayOfYear) := by omega
      omega
    have era : day / 146096 = 0 := by omega
    rw [century, era]
    -- The last days of a span of four years carry into the next quotient by 1460.
    by_cases carried : yearOfEra % 4 = 3 ∧ yearOfEra / 4 - yearOfEra / 100 + dayOfYear ≥ 365
    · have fours : day / 1460 = yearOfEra / 4 + 1 := by omega
      omega
    · have fours : day / 1460 = yearOfEra / 4 := by omega
      omega

theorem sysDays_month {year : Int} {month : Nat} (low : 1 ≤ month) (high : month < 12) :
    gregorian.sysDays ⟨year, month + 1, 1⟩ =
      gregorian.sysDays ⟨year, month, 1⟩ + daysInMonth year month := by
  simp only [gregorian]
  interval_cases month
  case «2» =>
    by_cases leap : isLeap year
    · have length : daysInMonth year 2 = 29 := by simp [daysInMonth, leap]
      rw [isLeap] at leap
      rw [length]
      simp only [Nat.reduceAdd, Nat.reduceLeDiff, ↓reduceIte]
      omega
    · have length : daysInMonth year 2 = 28 := by simp [daysInMonth, leap]
      rw [isLeap] at leap
      rw [length]
      simp only [Nat.reduceAdd, Nat.reduceLeDiff, ↓reduceIte]
      omega
  all_goals
    simp only [daysInMonth]
    norm_num
    try omega

def monthLength (index : Nat) : Nat :=
  if index = 11 then 29 else if index = 1 ∨ index = 3 ∨ index = 6 ∨ index = 8 then 30 else 31

theorem index_back {index day : Nat} (high : index ≤ 11) (first : 1 ≤ day)
    (last : day ≤ monthLength index) :
    (5 * ((153 * (index : Int) + 2) / 5 + day - 1) + 2) / 153 = index := by
  interval_cases index
  all_goals
    simp only [monthLength] at last
    norm_num at last ⊢
    omega

theorem dayOfYear_bounds {index day : Nat} (high : index ≤ 11) (first : 1 ≤ day)
    (last : day ≤ monthLength index) :
    0 ≤ (153 * (index : Int) + 2) / 5 + day - 1 ∧ (153 * (index : Int) + 2) / 5 + day - 1 ≤ 365 ∧
      ((153 * (index : Int) + 2) / 5 + day - 1 = 365 → index = 11 ∧ day = 29) := by
  interval_cases index
  all_goals
    simp only [monthLength] at last
    norm_num at last ⊢
    omega

theorem yearMonthDay_back {year : Int} {index day : Nat} (high : index ≤ 11) (first : 1 ≤ day)
    (last : day ≤ monthLength index) (leap : index = 11 → day = 29 → isLeap (year + 1)) :
    gregorian.yearMonthDay (year / 400 * 146097 +
        (year % 400 * 365 + year % 400 / 4 - year % 400 / 100 +
          ((153 * (index : Int) + 2) / 5 + day - 1)) - 719468) =
      ⟨year + if index < 10 then 0 else 1, if index < 10 then index + 3 else index - 9, day⟩ := by
  have bounds := dayOfYear_bounds high first last
  have indexBack := index_back high first last
  have dayBack : ((153 * (index : Int) + 2) / 5 + day - 1 - (153 * (index : Int) + 2) / 5 +
      1).toNat = day := by omega
  have monthBack : (if index < 10 then (index : Int) + 3 else index - 9).toNat =
      if index < 10 then index + 3 else index - 9 := by
    split
    · rfl
    · omega
  have sameYear : year % 400 + year / 400 * 400 = year := Int.emod_add_ediv_mul year 400
  generalize (153 * (index : Int) + 2) / 5 + day - 1 = dayOfYear at bounds indexBack dayBack ⊢
  obtain ⟨early, late, lastDay⟩ := bounds
  have leapDay : dayOfYear = 365 →
      (year % 400 + 1) % 4 = 0 ∧ ((year % 400 + 1) % 100 ≠ 0 ∨ year % 400 = 399) := by
    intro final
    have rule := leap (lastDay final).1 (lastDay final).2
    rw [isLeap] at rule
    omega
  generalize split : year % 400 * 365 + year % 400 / 4 - year % 400 / 100 + dayOfYear = dayOfEra
  have eraBounds : 0 ≤ dayOfEra ∧ dayOfEra < 146097 := by
    by_cases final : dayOfYear = 365
    · have rule := leapDay final
      omega
    · omega
  have yearBack := yearOfEra_back (Int.emod_nonneg year (by decide))
    (Int.emod_lt_of_pos year (by decide)) early late leapDay split.symm
  have era : (year / 400 * 146097 + dayOfEra - 719468 + 719468) / 146097 = year / 400 := by omega
  have inEra : (year / 400 * 146097 + dayOfEra - 719468 + 719468) % 146097 = dayOfEra := by omega
  have rest : dayOfEra - (365 * (year % 400) + year % 400 / 4 - year % 400 / 100) = dayOfYear := by
    omega
  have sameHalf : (index : Int) < 10 ↔ index < 10 := by omega
  simp only [gregorian, era, inEra, yearBack, rest, indexBack, sameHalf, sameYear, dayBack,
    monthBack]

theorem yearMonthDay_sysDays {date : YearMonthDay} (ok : date.Ok) :
    gregorian.yearMonthDay (gregorian.sysDays date) = date := by
  obtain ⟨year, month, day⟩ := date
  obtain ⟨_, ⟨low, high⟩, first, last⟩ := ok
  simp only [daysInMonth] at low high first last
  by_cases early : month ≤ 2
  · have short : day ≤ monthLength (month + 9) := by
      interval_cases month
      · simpa [monthLength] using last
      · simp only [monthLength, if_true] at last ⊢
        split at last <;> omega
    have leap : month + 9 = 11 → day = 29 → isLeap (year - 1 + 1) := by
      intro february final
      rw [if_pos (by omega)] at last
      rw [sub_add_cancel]
      by_contra common
      rw [if_neg common] at last
      omega
    have back := yearMonthDay_back (by omega) first short leap
    simp only [gregorian, if_pos early] at back ⊢
    push_cast at back ⊢
    rw [back, YearMonthDay.mk.injEq, if_neg (by omega), if_neg (by omega)]
    omega
  · obtain ⟨index, rfl⟩ : ∃ index, month = index + 3 := ⟨month - 3, by omega⟩
    have short : day ≤ monthLength index := by
      have within : index ≤ 9 := by omega
      interval_cases index
      all_goals simpa [monthLength] using last
    have leap : index = 11 → day = 29 → isLeap (year + 1) := by omega
    have back := yearMonthDay_back (by omega) first short leap
    simp only [gregorian, if_neg early] at back ⊢
    push_cast
    rw [add_sub_cancel_right, back, YearMonthDay.mk.injEq, if_pos (by omega), if_pos (by omega)]
    omega

theorem proleptic : gregorian.Proleptic where
  epoch := by decide
  day := by
    intro year month day _ _ _ _
    simp only [gregorian]
    omega
  month := fun _ low high => sysDays_month low high
  year := by
    intro year _ _
    simp [gregorian]
    omega
  yearMonthDay := yearMonthDay_sysDays

end Gregorian

end PqAsync
