import PqAsync.Library.Numerals
import PqAsync.DateReaders
import Mathlib.Algebra.Order.Field.Rat
import Mathlib.Tactic.FieldSimp
import Mathlib.Tactic.Ring

/-!
The ISO text of an interval, and what can be read back from it. The library that splits a time
into its fields is a parameter; its fields of a negative time have the sign of the time, or none.
-/

namespace PqAsync

structure TimeFields where
  hours : Int
  minutes : Int
  seconds : Int
  subseconds : Int
  deriving DecidableEq, Repr

/-- An `int` from a count of 64 bits. -/
def intOfCount (count : Int) : Int := (BitVec.ofInt 32 count).toInt

def secondsText (s u : Int) : List Char :=
  if u = 0 then Numerals.integer s else Numerals.integer s ++ '.' :: Numerals.integer u

def Interval.isoString (timeOfDay : Int → TimeFields) (value : Interval) : List Char :=
  if value.isNull then "NULL".toList
  else
    let years := value.m.toInt.tdiv 12
    let months := value.m.toInt.tmod 12
    let tod := timeOfDay value.t.toInt
    let h := intOfCount tod.hours
    let m := intOfCount tod.minutes
    let s := intOfCount tod.seconds
    let u := intOfCount tod.subseconds
    'P' :: (Numerals.integer years ++ 'Y' :: (Numerals.integer months ++ 'M' ::
      (Numerals.integer value.d.toInt ++ 'D' :: 'T' :: (Numerals.integer h ++ 'H' ::
        (Numerals.integer m ++ 'M' :: (secondsText s u ++ ['S']))))))

def splitTime (t : Int) : TimeFields :=
  { hours := t.tdiv 3600000000
    minutes := (t.tdiv 60000000).tmod 60
    seconds := (t.tdiv 1000000).tmod 60
    subseconds := t.tmod 1000000 }

inductive FieldSigns
  | absolute
  | signed

def FieldSigns.Splits : FieldSigns → (Int → TimeFields) → Prop
  | .absolute, timeOfDay => ∀ t, -2 ^ 63 < t → t < 2 ^ 63 → timeOfDay t = splitTime |t|
  | .signed, timeOfDay => ∀ t, -2 ^ 63 ≤ t → t < 2 ^ 63 → timeOfDay t = splitTime t

def readIso (text : List Char) : Option (Int × Int × ℚ) := do
  let text ← Numerals.letter 'P' text
  let (years, text) ← Numerals.integerField 'Y' text
  let (months, text) ← Numerals.integerField 'M' text
  let (days, text) ← Numerals.integerField 'D' text
  let text ← Numerals.letter 'T' text
  let (hours, text) ← Numerals.integerField 'H' text
  let (minutes, text) ← Numerals.integerField 'M' text
  let (seconds, text) ← Numerals.field 'S' text
  let seconds ← if text = [] then Numerals.readDecimal seconds else none
  return (12 * years + months, days, ((hours * 60 + minutes) * 60 + seconds) * 1000000)

/-- The text gives months, days and time back, whatever the library does with a time that it is
not made for. -/
def IsoDetermines (signs : FieldSigns) (t : BitVec 64) (d m : BitVec 32) : Prop :=
  ∀ timeOfDay, signs.Splits timeOfDay →
    readIso (Interval.isoString timeOfDay { isNull := false, t, d, m }) =
      some (m.toInt, d.toInt, (t.toInt : ℚ))

def SixPlaces (t : Int) : Prop := t.tmod 1000000 = 0 ∨ 100000 ≤ t.tmod 1000000

instance (t : Int) : Decidable (SixPlaces t) := inferInstanceAs (Decidable (_ ∨ _))

section

variable (timeOfDay : Int → TimeFields) (t : BitVec 64) (d m : BitVec 32)

theorem no_letter_in_seconds (s u : Int) : 'S' ∉ secondsText s u := by
  have apart (x : Int) : 'S' ∉ Numerals.integer x := by
    intro member
    rcases Numerals.mem_integer member with sign | digit
    · contradiction
    · contradiction
  intro member
  rw [secondsText] at member
  split at member
  · exact apart s member
  · rcases List.mem_append.mp member with front | back
    · exact apart s front
    · rcases List.mem_cons.mp back with point | places
      · contradiction
      · exact apart u places

theorem readIso_isoString :
    readIso (Interval.isoString timeOfDay { isNull := false, t, d, m }) =
      (Numerals.readDecimal (secondsText (intOfCount (timeOfDay t.toInt).seconds)
        (intOfCount (timeOfDay t.toInt).subseconds))).map fun seconds =>
        (m.toInt, d.toInt, (((intOfCount (timeOfDay t.toInt).hours : ℚ) * 60 +
          intOfCount (timeOfDay t.toInt).minutes) * 60 + seconds) * 1000000) := by
  rw [Interval.isoString, if_neg Bool.false_ne_true]
  dsimp only
  rw [readIso]
  simp only [Numerals.letter_cons, Option.bind_eq_bind, Option.bind_some,
    Numerals.integerField_append 'Y' (by decide), Numerals.integerField_append 'M' (by decide),
    Numerals.integerField_append 'D' (by decide), Numerals.integerField_append 'H' (by decide),
    Numerals.field_append (no_letter_in_seconds _ _), if_true, Int.mul_tdiv_add_tmod]
  cases Numerals.readDecimal _ with
  | none => rfl
  | some seconds => rfl

end

theorem fraction_micros {u : Nat} (small : u < 1000000) :
    ∃ printed : Nat, (u : ℚ) / 10 ^ (Nat.toDigits 10 u).length * 1000000 = printed ∧
      u ≤ printed ∧ printed < 1000000 ∧ (printed = u ↔ u = 0 ∨ 100000 ≤ u) := by
  have some : 0 < (Nat.toDigits 10 u).length := Nat.length_toDigits_pos
  have short := (@Nat.length_toDigits_le_iff 10 u 6 (by decide) (by decide)).mpr small
  have five := @Nat.length_toDigits_le_iff 10 u 5 (by decide) (by decide)
  have own := (@Nat.length_toDigits_le_iff 10 u _ (by decide) some).mp le_rfl
  generalize (Nat.toDigits 10 u).length = length at *
  obtain ⟨zeros, six⟩ := Nat.exists_eq_add_of_le short
  have powers : 10 ^ length * 10 ^ zeros = 1000000 := by
    rw [← pow_add, ← six]
    rfl
  have positive : 0 < 10 ^ zeros := Nat.pow_pos (by decide)
  refine ⟨u * 10 ^ zeros, ?_, Nat.le_mul_of_pos_right u positive, ?_, ?_⟩
  · have casts : (10 : ℚ) ^ length * 10 ^ zeros = 1000000 := by exact_mod_cast powers
    rw [← casts]
    push_cast
    field_simp
  · rw [← powers]
    exact Nat.mul_lt_mul_of_pos_right own positive
  · constructor
    · intro same
      rcases Nat.eq_zero_or_pos u with none | present
      · exact Or.inl none
      · have one : 10 ^ zeros = 1 := Nat.eq_of_mul_eq_mul_left present (same.trans (mul_one u).symm)
        have none : zeros = 0 := by simpa using one
        refine Or.inr ?_
        by_contra below
        have fewer := five.mpr (not_le.mp below)
        omega
    · rintro (rfl | large)
      · rw [zero_mul]
      · have none : zeros = 0 := by
          by_contra some
          have below := five.mp (by omega)
          omega
        rw [none, pow_zero, mul_one]

theorem readDecimal_seconds {s u : Int} (seconds : 0 ≤ s) (places : 0 ≤ u) (small : u < 1000000) :
    ∃ printed : Int,
      Numerals.readDecimal (secondsText s u) = some (s + (printed : ℚ) / 1000000) ∧
      u ≤ printed ∧ printed < 1000000 ∧ (printed = u ↔ u = 0 ∨ 100000 ≤ u) := by
  by_cases none : u = 0
  · subst none
    refine ⟨0, ?_, le_rfl, by decide, by simp⟩
    rw [secondsText, if_pos rfl, Numerals.readDecimal_integer]
    simp
  · obtain ⟨n, rfl⟩ := Int.eq_ofNat_of_zero_le places
    obtain ⟨printed, value, least, most, exactly⟩ := fraction_micros (by omega : n < 1000000)
    refine ⟨printed, ?_, by omega, by omega, by omega⟩
    rw [secondsText, if_neg none, Numerals.readDecimal_point seconds places, Int.natAbs_natCast,
      Int.cast_natCast, Int.cast_natCast, ← value]
    field_simp

theorem printed_time {h m s printed t : Int} :
    (((h : ℚ) * 60 + m) * 60 + (s + (printed : ℚ) / 1000000)) * 1000000 = t ↔
      ((h * 60 + m) * 60 + s) * 1000000 + printed = t := by
  have whole : (((h : ℚ) * 60 + m) * 60 + (s + (printed : ℚ) / 1000000)) * 1000000 =
      ((((h * 60 + m) * 60 + s) * 1000000 + printed : Int) : ℚ) := by
    push_cast
    ring
  rw [whole, Int.cast_inj]

theorem intOfCount_small {x : Int} (low : -1000000 < x) (high : x < 1000000) : intOfCount x = x := by
  rw [intOfCount, BitVec.toInt_ofInt, Int.bmod_eq_of_le]
  · omega
  · omega

theorem intOfCount_cases {x : Int} (low : -2 ^ 32 < x) (high : x < 2 ^ 32) :
    -2 ^ 31 ≤ x ∧ x < 2 ^ 31 ∧ intOfCount x = x ∨ 2 ^ 31 ≤ x ∧ intOfCount x = x - 2 ^ 32 ∨
      x < -2 ^ 31 ∧ intOfCount x = x + 2 ^ 32 := by
  rw [intOfCount, BitVec.toInt_ofInt, Int.bmod_def]
  split
  · omega
  · omega

theorem splitTime_nonneg {a : Int} (nonneg : 0 ≤ a) :
    splitTime a = ⟨a / 3600000000, a / 60000000 % 60, a / 1000000 % 60, a % 1000000⟩ := by
  have minutes : 0 ≤ a / 60000000 := by omega
  have seconds : 0 ≤ a / 1000000 := by omega
  rw [splitTime, Int.tdiv_eq_ediv_of_nonneg nonneg, Int.tdiv_eq_ediv_of_nonneg nonneg,
    Int.tdiv_eq_ediv_of_nonneg nonneg, Int.tmod_eq_emod_of_nonneg nonneg,
    Int.tmod_eq_emod_of_nonneg minutes, Int.tmod_eq_emod_of_nonneg seconds]

theorem splitTime_neg (a : Int) :
    splitTime (-a) = ⟨-(splitTime a).hours, -(splitTime a).minutes, -(splitTime a).seconds,
      -(splitTime a).subseconds⟩ := by
  simp only [splitTime, Int.neg_tdiv, Int.neg_tmod]

section

variable {timeOfDay : Int → TimeFields} {t : BitVec 64} {d m : BitVec 32} {a : Int}

theorem readIso_absolute (nonneg : 0 ≤ a) (bound : a ≤ 2 ^ 63)
    (fields : timeOfDay t.toInt = splitTime a) (sign : t.toInt = a ∨ t.toInt = -a) :
    readIso (Interval.isoString timeOfDay { isNull := false, t, d, m }) =
        some (m.toInt, d.toInt, (t.toInt : ℚ)) ↔
      t.toInt = a ∧ a < 2 ^ 31 * 3600000000 ∧ (a % 1000000 = 0 ∨ 100000 ≤ a % 1000000) ∨
        t.toInt = -a ∧ a = 2 ^ 31 * 3600000000 := by
  rw [readIso_isoString, fields, splitTime_nonneg nonneg]
  dsimp only
  rw [intOfCount_small (x := a / 60000000 % 60) (by omega) (by omega),
    intOfCount_small (x := a / 1000000 % 60) (by omega) (by omega),
    intOfCount_small (x := a % 1000000) (by omega) (by omega)]
  have hours := @intOfCount_cases (a / 3600000000) (by omega) (by omega)
  obtain ⟨printed, read, least, most, exactly⟩ := @readDecimal_seconds (a / 1000000 % 60)
    (a % 1000000) (by omega) (by omega) (by omega)
  rw [read, Option.map_some, Option.some.injEq, Prod.mk.injEq, Prod.mk.injEq, printed_time]
  simp only [true_and]
  have whole : ((a / 3600000000 * 60 + a / 60000000 % 60) * 60 + a / 1000000 % 60) * 1000000 +
      a % 1000000 = a := by
    omega
  have minutes : 0 ≤ a / 60000000 % 60 ∧ a / 60000000 % 60 < 60 := by omega
  have seconds : 0 ≤ a / 1000000 % 60 ∧ a / 1000000 % 60 < 60 := by omega
  have places : 0 ≤ a % 1000000 := by omega
  generalize intOfCount (a / 3600000000) = h at *
  generalize a / 3600000000 = hour at *
  generalize a / 60000000 % 60 = minute at *
  generalize a / 1000000 % 60 = second at *
  generalize a % 1000000 = u at *
  rcases hours with ⟨_, fits, kept⟩ | ⟨late, wrapped⟩ | ⟨early, _⟩
  · omega
  · omega
  · omega

theorem readIso_signed (positive : 0 < a) (bound : a ≤ 2 ^ 63)
    (fields : timeOfDay t.toInt = splitTime (-a)) (sign : t.toInt = -a) :
    readIso (Interval.isoString timeOfDay { isNull := false, t, d, m }) =
        some (m.toInt, d.toInt, (t.toInt : ℚ)) ↔
      a < (2 ^ 31 + 1) * 3600000000 ∧ a % 1000000 = 0 := by
  have nonneg : 0 ≤ a := positive.le
  rw [readIso_isoString, fields, splitTime_neg, splitTime_nonneg nonneg]
  dsimp only
  rw [intOfCount_small (x := -(a / 60000000 % 60)) (by omega) (by omega),
    intOfCount_small (x := -(a / 1000000 % 60)) (by omega) (by omega),
    intOfCount_small (x := -(a % 1000000)) (by omega) (by omega)]
  by_cases none : a % 1000000 = 0
  · have hours := @intOfCount_cases (-(a / 3600000000)) (by omega) (by omega)
    have read : Numerals.readDecimal (secondsText (-(a / 1000000 % 60)) (-(a % 1000000))) =
        some ((-(a / 1000000 % 60) : Int) + ((0 : Int) : ℚ) / 1000000) := by
      rw [none, secondsText, if_pos (by decide), Numerals.readDecimal_integer]
      simp
    rw [read, Option.map_some, Option.some.injEq, Prod.mk.injEq, Prod.mk.injEq, printed_time]
    simp only [true_and]
    have whole : ((a / 3600000000 * 60 + a / 60000000 % 60) * 60 + a / 1000000 % 60) * 1000000 =
        a := by
      omega
    have minutes : 0 ≤ a / 60000000 % 60 ∧ a / 60000000 % 60 < 60 := by omega
    have seconds : 0 ≤ a / 1000000 % 60 ∧ a / 1000000 % 60 < 60 := by omega
    generalize intOfCount (-(a / 3600000000)) = h at *
    generalize a / 3600000000 = hour at *
    generalize a / 60000000 % 60 = minute at *
    generalize a / 1000000 % 60 = second at *
    rcases hours with ⟨fits, _, kept⟩ | ⟨late, _⟩ | ⟨early, wrapped⟩
    · omega
    · omega
    · omega
  · have unread : Numerals.readDecimal (secondsText (-(a / 1000000 % 60)) (-(a % 1000000))) =
        Option.none := by
      rw [secondsText, if_neg (by omega), Numerals.readDecimal_signed (by omega)]
    rw [unread, Option.map_none]
    exact iff_of_false (by simp) fun fits => none fits.2

end

theorem sixPlaces_nonneg {a : Int} (nonneg : 0 ≤ a) :
    SixPlaces a ↔ a % 1000000 = 0 ∨ 100000 ≤ a % 1000000 := by
  rw [SixPlaces, Int.tmod_eq_emod_of_nonneg nonneg]

theorem sixPlaces_neg {a : Int} (nonneg : 0 ≤ a) : SixPlaces (-a) ↔ a % 1000000 = 0 := by
  rw [SixPlaces, Int.neg_tmod, Int.tmod_eq_emod_of_nonneg nonneg]
  omega

section

variable {timeOfDay : Int → TimeFields} {t : BitVec 64} {d m : BitVec 32}

theorem readIso_of_absolute (fields : timeOfDay t.toInt = splitTime |t.toInt|) :
    readIso (Interval.isoString timeOfDay { isNull := false, t, d, m }) =
        some (m.toInt, d.toInt, (t.toInt : ℚ)) ↔
      0 ≤ t.toInt ∧ t.toInt < 2 ^ 31 * 3600000000 ∧ SixPlaces t.toInt ∨
        t.toInt = -(2 ^ 31 * 3600000000) := by
  have below := @BitVec.toInt_lt 64 t
  have above := @BitVec.le_toInt 64 t
  rcases le_total 0 t.toInt with nonneg | negative
  · rw [abs_of_nonneg nonneg] at fields
    rw [readIso_absolute nonneg below.le fields (Or.inl rfl), sixPlaces_nonneg nonneg]
    omega
  · rw [abs_of_nonpos negative] at fields
    have back : t.toInt = -(-t.toInt) := (neg_neg _).symm
    rw [readIso_absolute (by omega) (by omega) fields (Or.inr back)]
    have zero : SixPlaces 0 := by decide
    constructor
    · rintro (⟨same, _⟩ | ⟨_, last⟩)
      · have none : t.toInt = 0 := by omega
        rw [none]
        exact Or.inl ⟨le_rfl, by decide, zero⟩
      · omega
    · rintro (⟨nonneg, _⟩ | last)
      · have none : t.toInt = 0 := by omega
        rw [none]
        decide
      · omega

theorem readIso_of_signed (fields : timeOfDay t.toInt = splitTime t.toInt) :
    readIso (Interval.isoString timeOfDay { isNull := false, t, d, m }) =
        some (m.toInt, d.toInt, (t.toInt : ℚ)) ↔
      -((2 ^ 31 + 1) * 3600000000) < t.toInt ∧ t.toInt < 2 ^ 31 * 3600000000 ∧
        SixPlaces t.toInt := by
  have below := @BitVec.toInt_lt 64 t
  have above := @BitVec.le_toInt 64 t
  rcases le_or_gt 0 t.toInt with nonneg | negative
  · rw [readIso_absolute nonneg below.le fields (Or.inl rfl), sixPlaces_nonneg nonneg]
    omega
  · have back : t.toInt = -(-t.toInt) := (neg_neg _).symm
    have places := @sixPlaces_neg (-t.toInt) (by omega)
    rw [neg_neg] at places
    rw [readIso_signed (by omega) (by omega) (back ▸ fields) back, places]
    omega

end

/-- The text determines the interval exactly when no hour is lost, the printed places are all
six, and the time has a sign to be printed; but for one time whose hours wrap around. -/
theorem iso_determines_iff (t : BitVec 64) (d m : BitVec 32) :
    (IsoDetermines .absolute t d m ↔
      0 ≤ t.toInt ∧ t.toInt < 2 ^ 31 * 3600000000 ∧ SixPlaces t.toInt ∨
        t.toInt = -(2 ^ 31 * 3600000000)) ∧
    (IsoDetermines .signed t d m ↔
      -((2 ^ 31 + 1) * 3600000000) < t.toInt ∧ t.toInt < 2 ^ 31 * 3600000000 ∧
        SixPlaces t.toInt) := by
  have below := @BitVec.toInt_lt 64 t
  have above := @BitVec.le_toInt 64 t
  constructor
  · constructor
    · intro determines
      exact (readIso_of_absolute rfl).mp (determines (fun t => splitTime |t|) fun _ _ _ => rfl)
    · intro exactly timeOfDay splits
      exact (readIso_of_absolute (splits t.toInt (by omega) below)).mpr exactly
  · constructor
    · intro determines
      exact (readIso_of_signed rfl).mp (determines splitTime fun _ _ _ => rfl)
    · intro exactly timeOfDay splits
      exact (readIso_of_signed (splits t.toInt above below)).mpr exactly

theorem not_isoDetermines {t : BitVec 64} {d m : BitVec 32} (partPrinted : ¬SixPlaces t.toInt)
    (hours : t.toInt ≠ -(2 ^ 31 * 3600000000)) (signs : FieldSigns) :
    ¬IsoDetermines signs t d m := by
  intro determines
  cases signs with
  | absolute =>
      have read := (readIso_of_absolute rfl).mp
        (determines (fun t => splitTime |t|) fun _ _ _ => rfl)
      rcases read with ⟨_, _, places⟩ | last
      · exact partPrinted places
      · exact hours last
  | signed =>
      have read := (readIso_of_signed rfl).mp (determines splitTime fun _ _ _ => rfl)
      exact partPrinted read.2.2

/-- 3 seconds and 654 microseconds are printed as 3.654, and half a second before none has no place
for its sign. -/
theorem iso_loses_zeros :
    (Interval.isoString splitTime { isNull := false, t := 3000654, d := 0, m := 0 } =
      "P0Y0M0DT0H0M3.654S".toList) ∧
    (∀ signs, ¬IsoDetermines signs 3000654 0 0) ∧
      ∀ signs, ¬IsoDetermines signs (BitVec.ofInt 64 (-500000)) 0 0 := by
  refine ⟨by decide, ?_, ?_⟩
  · exact not_isoDetermines (by decide) (by decide)
  · exact not_isoDetermines (by decide) (by decide)

end PqAsync
