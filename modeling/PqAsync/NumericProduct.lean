import PqAsync.Library.PartialProducts
import PqAsync.NumericRound
import PqAsync.NumericSum

/-!
Multiplication: the accumulator holds the products of the digit pairs that have a place in it, in
entries that may exceed a digit. `maxdig` bounds them, so that no entry overflows. The result is
what they add up to, rounded; it is the product when no other pair counts.
-/

namespace PqAsync

open Results Rounding Numeric

def Entries (maxdig : Int) (dig : List Int) : Prop :=
  ∀ entry ∈ dig, 0 ≤ entry ∧ entry ≤ maxdig * 9999

theorem entries_cons {maxdig entry : Int} {dig : List Int} :
    Entries maxdig (entry :: dig) ↔ (0 ≤ entry ∧ entry ≤ maxdig * 9999) ∧ Entries maxdig dig :=
  List.forall_mem_cons

theorem entries_append {maxdig : Int} {dig added : List Int} :
    Entries maxdig (dig ++ added) ↔ Entries maxdig dig ∧ Entries maxdig added :=
  List.forall_mem_append

theorem Entries.mono {maxdig larger : Int} {dig : List Int} (entries : Entries maxdig dig)
    (order : maxdig ≤ larger) : Entries larger dig := by
  intro entry member
  obtain ⟨low, high⟩ := entries entry member
  constructor
  · exact low
  · omega

theorem maxdigLimit_eq : maxdigLimit = 214748 := by decide

theorem addProducts_spec {var1digit maxdig : Int} (own : 0 ≤ var1digit ∧ var1digit < nbase)
    (limit : maxdig + var1digit ≤ maxdigLimit) {digits dig : List Int}
    (range : Radix.Digits nbase digits) (entries : Entries maxdig dig) :
    ∃ added, addProducts var1digit digits dig = .ok added ∧ added.length = dig.length ∧
      Entries (maxdig + var1digit) added ∧
      Radix.number nbase added = Radix.number nbase dig + var1digit *
        Radix.number nbase (digits.take dig.length) * nbase ^ (dig.length - digits.length) := by
  induction digits generalizing dig with
  | nil =>
      refine ⟨dig, by cases dig <;> rfl, rfl, entries.mono (by omega), by simp⟩
  | cons digit digits ih =>
      cases dig with
      | nil => exact ⟨[], rfl, rfl, entries.mono (by omega), by simp⟩
      | cons entry dig =>
          obtain ⟨digitRange, others⟩ := Radix.digits_cons.mp range
          obtain ⟨entryRange, rest⟩ := entries_cons.mp entries
          obtain ⟨added, run, addedLength, addedEntries, sum⟩ := ih others rest
          have digitHigh : digit ≤ 9999 := Int.le_of_lt_add_one digitRange.2
          obtain ⟨productLow, productHigh⟩ := product_range ⟨own.1, le_refl var1digit⟩
            ⟨digitRange.1, digitHigh⟩
          rw [maxdigLimit_eq] at limit
          have product := @int32_ok (var1digit * digit) (by omega) (by omega)
          have total := @int32_ok (entry + var1digit * digit) (by omega) (by omega)
          refine ⟨(entry + var1digit * digit) :: added, ?_, by simp [addedLength], ?_, ?_⟩
          · exact bind_ok.mpr ⟨_, product, bind_ok.mpr ⟨_, total, bind_ok.mpr ⟨_, run, rfl⟩⟩⟩
          · exact entries_cons.mpr ⟨⟨by omega, by omega⟩, addedEntries⟩
          · have places : dig.length =
                (digits.take dig.length).length + (dig.length - digits.length) := by
              rw [List.length_take]
              omega
            have power : nbase ^ dig.length = nbase ^ (digits.take dig.length).length *
                nbase ^ (dig.length - digits.length) := by
              rw [← pow_add, ← places]
            rw [Radix.number_cons, Radix.number_cons, List.length_cons, List.length_cons,
              List.take_succ_cons, Nat.add_sub_add_right, Radix.number_cons, sum, addedLength]
            linear_combination var1digit * digit * power

theorem normalize_spec {maxdig : Int} (limit : maxdig ≤ maxdigLimit) {dig : List Int}
    (entries : Entries maxdig dig) :
    ∃ digits carry, normalize dig = .ok (digits, carry) ∧ Radix.Digits nbase digits ∧
      digits.length = dig.length ∧ (0 ≤ carry ∧ carry ≤ 214748) ∧
      Radix.number nbase digits + carry * nbase ^ dig.length = Radix.number nbase dig := by
  rw [maxdigLimit_eq] at limit
  induction dig with
  | nil => exact ⟨[], 0, rfl, Radix.Digits.nil, rfl, by decide, by simp⟩
  | cons entry dig ih =>
      obtain ⟨own, rest⟩ := entries_cons.mp entries
      obtain ⟨digits, carry, run, range, length, carryRange, sum⟩ := ih rest
      have newdig := @int32_ok (entry + carry) (by omega) (by omega)
      have nonneg : 0 ≤ entry + carry := by omega
      by_cases large : entry + carry ≥ nbase
      · have parts := Int.mul_ediv_add_emod (entry + carry) nbase
        obtain ⟨low, high⟩ := Radix.emod_range nbase_pos (entry + carry)
        have quotient : (entry + carry).tdiv nbase = (entry + carry) / nbase :=
          Int.tdiv_eq_ediv_of_nonneg nonneg
        refine ⟨(entry + carry - (entry + carry) / nbase * nbase) :: digits,
          (entry + carry) / nbase, ?_, Radix.digits_cons.mpr ⟨?_, range⟩, by simp [length], ?_, ?_⟩
        · rw [← quotient]
          refine bind_ok.mpr ⟨_, run, bind_ok.mpr ⟨_, newdig, ?_⟩⟩
          rw [if_pos large]
          rfl
        · constructor
          · linarith
          · linarith
        · rw [nbase_eq]
          omega
        · rw [Radix.number_cons, Radix.number_cons, List.length_cons, length]
          linear_combination sum
      · refine ⟨(entry + carry) :: digits, 0, ?_, Radix.digits_cons.mpr ⟨⟨nonneg, by omega⟩, range⟩,
          by simp [length], by decide, ?_⟩
        · refine bind_ok.mpr ⟨_, run, bind_ok.mpr ⟨_, newdig, ?_⟩⟩
          rw [if_neg large]
          rfl
        · rw [Radix.number_cons, Radix.number_cons, length]
          linear_combination sum

theorem normalize_exact {maxdig : Int} (limit : maxdig ≤ maxdigLimit) {dig : List Int}
    (entries : Entries maxdig dig) (fits : Radix.number nbase dig < nbase ^ dig.length) :
    ∃ digits, normalize dig = .ok (digits, 0) ∧ Radix.Digits nbase digits ∧
      digits.length = dig.length ∧ Radix.number nbase digits = Radix.number nbase dig := by
  obtain ⟨digits, carry, run, range, length, carryRange, sum⟩ := normalize_spec limit entries
  have low := Radix.number_nonneg nbase_pos range
  have none := Radix.carry_eq_zero carryRange.1 nbase_pos (by omega) fits
  rw [none, zero_mul, add_zero] at sum
  rw [none] at run
  exact ⟨digits, run, range, length, sum⟩

theorem makeRoom_spec {var1digit maxdig : Int} (own : 0 ≤ var1digit ∧ var1digit < nbase)
    (maxdigRange : 0 ≤ maxdig ∧ maxdig ≤ maxdigLimit) {dig : List Int}
    (entries : Entries maxdig dig) (fits : Radix.number nbase dig < nbase ^ dig.length) :
    ∃ bound room, makeRoom var1digit maxdig dig = .ok (bound + var1digit, room) ∧
      0 ≤ bound ∧ bound + var1digit ≤ maxdigLimit ∧ Entries bound room ∧
      room.length = dig.length ∧ Radix.number nbase room = Radix.number nbase dig := by
  have small : var1digit < 10000 := own.2
  have limit := maxdigLimit_eq
  have total := @int32_ok (maxdig + var1digit) (by omega) (by omega)
  by_cases large : maxdig + var1digit > maxdigLimit
  · obtain ⟨digits, run, range, length, same⟩ := normalize_exact maxdigRange.2 entries fits
    refine ⟨1, digits, ?_, by decide, by omega, ?_, length, same⟩
    · refine bind_ok.mpr ⟨_, total, ?_⟩
      rw [if_pos large]
      exact bind_ok.mpr ⟨_, run, bind_ok.mpr ⟨_, assertThat_ok (decide_eq_true rfl), rfl⟩⟩
    · intro digit member
      obtain ⟨low, high⟩ := range digit member
      rw [nbase_eq] at high
      constructor
      · exact low
      · omega
  · refine ⟨maxdig, dig, ?_, maxdigRange.1, by omega, entries, rfl, rfl⟩
    refine bind_ok.mpr ⟨_, total, ?_⟩
    rw [if_neg large]
    rfl

/-- Before the digit `i1` of the first operand, the accumulator holds what the digits behind it
contribute. -/
theorem mulDigits_spec {digits1 digits2 : List Int} (range1 : Radix.Digits nbase digits1)
    (range2 : Radix.Digits nbase digits2) {i1 : Nat} (inside : i1 ≤ digits1.length)
    {maxdig : Int} (maxdigRange : 0 ≤ maxdig ∧ maxdig ≤ maxdigLimit) {dig : List Int}
    (places : i1 + 2 ≤ dig.length) (entries : Entries maxdig dig)
    (product : Radix.number nbase dig =
      Radix.keptNumber nbase digits2 (digits1.drop i1) (dig.length - 2 - i1)) :
    ∃ total, mulDigits digits1 digits2 i1 maxdig dig = .ok total ∧ total.length = dig.length ∧
      Entries maxdigLimit total ∧
      Radix.number nbase total = Radix.keptNumber nbase digits2 digits1 (dig.length - 2) := by
  induction i1 generalizing maxdig dig with
  | zero => exact ⟨dig, rfl, rfl, entries.mono maxdigRange.2, by simpa using product⟩
  | succ i1 ih =>
      have split : digits1.drop i1 = digits1.getD i1 0 :: digits1.drop (i1 + 1) := by
        rw [List.drop_eq_getElem_cons inside, List.getD_eq_getElem _ _ inside]
      obtain ⟨n, slots⟩ : ∃ n, dig.length - 2 - i1 = n + 1 := ⟨dig.length - 3 - i1, by omega⟩
      have later : dig.length - 2 - (i1 + 1) = n := by omega
      have whole : Radix.keptNumber nbase digits2 (digits1.drop i1) (n + 1) =
          digits1.getD i1 0 * Radix.number nbase (digits2.take (n + 1)) *
              nbase ^ (n + 1 - digits2.length) +
            Radix.keptNumber nbase digits2 (digits1.drop (i1 + 1)) n := by
        rw [split, Radix.keptNumber, Nat.add_sub_cancel]
      have own : 0 ≤ digits1.getD i1 0 ∧ digits1.getD i1 0 < nbase :=
        range1 _ (List.mem_of_mem_drop (split ▸ List.mem_cons_self))
      rw [later] at product
      rw [mulDigits]
      dsimp only
      generalize digits1.getD i1 0 = var1digit at *
      by_cases zero : var1digit = 0
      · rw [if_pos zero]
        refine ih (by omega) maxdigRange (by omega) entries ?_
        rw [slots, whole, zero, zero_mul, zero_mul, zero_add]
        exact product
      · have fits : Radix.number nbase dig < nbase ^ dig.length := by
          have high := Radix.keptNumber_lt (show 1 < nbase by decide) (range1.drop (i1 + 1)) range2 n
          rw [product]
          exact high.trans_le (pow_le_pow_right₀ nbase_pos (by omega))
        obtain ⟨bound, room, roomRun, boundLow, boundHigh, roomEntries, roomLength, same⟩ :=
          makeRoom_spec own maxdigRange entries fits
        have parts := entries_append.mp
          ((List.take_append_drop (i1 + 2) room).symm ▸ roomEntries)
        obtain ⟨added, addedRun, addedLength, addedEntries, sum⟩ :=
          addProducts_spec own boundHigh range2 parts.2
        have left : (room.drop (i1 + 2)).length = n + 1 := by
          rw [List.length_drop]
          omega
        have nextLength : (room.take (i1 + 2) ++ added).length = dig.length := by
          rw [List.length_append, addedLength, ← List.length_append, List.take_append_drop,
            roomLength]
        rw [if_neg zero]
        obtain ⟨total, run, totalLength, totalEntries, totalEq⟩ :=
          @ih (by omega) (bound + var1digit) ⟨by omega, boundHigh⟩ (room.take (i1 + 2) ++ added)
            (by omega)
            (entries_append.mpr ⟨parts.1.mono (by omega), addedEntries⟩)
            (by
              have roomEq := @Radix.number_take_drop nbase room (i1 + 2)
              rw [nextLength, slots, Radix.number_append, addedLength, sum, left, whole]
              rw [left, same, product] at roomEq
              linear_combination -roomEq)
        rw [nextLength] at totalLength totalEq
        exact ⟨total, bind_ok.mpr ⟨_, roomRun, bind_ok.mpr ⟨_, addedRun, run⟩⟩, totalLength,
          totalEntries, totalEq⟩

theorem accumulated_spec {digits1 digits2 : List Int} (range1 : Radix.Digits nbase digits1)
    (range2 : Radix.Digits nbase digits2) {i1 n : Nat} (inside : i1 ≤ digits1.length)
    (short : i1 ≤ n) (all : i1 = digits1.length ∨ i1 = n) :
    ∃ dig digits, mulDigits digits1 digits2 i1 0 (List.replicate (n + 2) 0) = .ok dig ∧
      normalize dig = .ok (digits, 0) ∧ Radix.Digits nbase digits ∧ digits.length = n + 2 ∧
      Radix.number nbase digits = Radix.keptNumber nbase digits2 digits1 n := by
  have zeros : Entries 0 (List.replicate (n + 2) 0) := by
    intro entry member
    rw [List.eq_of_mem_replicate member]
    decide
  have nothing : Radix.keptNumber nbase digits2 (digits1.drop i1) (n - i1) = 0 := by
    rcases all with every | full
    · rw [every, List.drop_length]
      rfl
    · rw [full, Nat.sub_self]
      exact Radix.keptNumber_zero _ _
  obtain ⟨dig, run, length, entries, product⟩ := mulDigits_spec range1 range2 inside
    (show (0 : Int) ≤ 0 ∧ 0 ≤ maxdigLimit by decide)
    (show i1 + 2 ≤ (List.replicate (n + 2) (0 : Int)).length by rw [List.length_replicate]; omega)
    zeros (by rw [List.length_replicate, Nat.add_sub_cancel, nothing,
      Radix.number_replicate_zero])
  rw [List.length_replicate, Nat.add_sub_cancel] at product
  rw [List.length_replicate] at length
  have fits : Radix.number nbase dig < nbase ^ dig.length := by
    have high := Radix.keptNumber_lt (show 1 < nbase by decide) range1 range2 n
    rw [product, length]
    exact high.trans_le (pow_le_pow_right₀ nbase_pos (by omega))
  obtain ⟨digits, normalized, range, digitsLength, same⟩ :=
    normalize_exact (le_refl maxdigLimit) entries fits
  exact ⟨dig, digits, run, normalized, range, digitsLength.trans length, same.trans product⟩

namespace Numeric

def resNdigits (var1 var2 : Numeric) (rscale : Int) : Int :=
  min (var1.ndigits + var2.ndigits + 1)
    (var1.weight + var2.weight + 3 + (rscale + decDigits - 1).tdiv decDigits + mulGuardDigits)

/-- What the digit pairs add up to whose product has its last digit among those computed. -/
def keptProduct (var1 var2 : Numeric) (rscale : Int) : ℚ :=
  Radix.partialProduct nbase (fun i j => (i : Int) + j + 2 < resNdigits var1 var2 rscale)
    var1.digits var2.digits (var1.weight + var2.weight)

def ignoredProduct (var1 var2 : Numeric) (rscale : Int) : ℚ :=
  Radix.partialProduct nbase (fun i j => !decide ((i : Int) + j + 2 < resNdigits var1 var2 rscale))
    var1.digits var2.digits (var1.weight + var2.weight)

/-- A magnitude with the sign that the product of two numerics has. -/
def signedAs (var1 var2 : Numeric) (magnitude : ℚ) : ℚ :=
  if var1.sign = var2.sign then magnitude else -magnitude

theorem signedAs_symm (var1 var2 : Numeric) (magnitude : ℚ) :
    signedAs var1 var2 magnitude = signedAs var2 var1 magnitude := by
  simp only [signedAs, @eq_comm _ var1.sign]

theorem signedAs_sign (var1 var2 : Numeric) (magnitude : ℚ) :
    (if (if var1.sign = var2.sign then numericPos else numericNeg) = numericNeg then -magnitude
      else magnitude) = signedAs var1 var2 magnitude := by
  have different : numericPos ≠ numericNeg := by decide
  rw [signedAs]
  by_cases same : var1.sign = var2.sign
  · rw [if_pos same, if_pos same, if_neg different]
  · rw [if_neg same, if_neg same, if_pos rfl]

theorem keptProduct_add_ignored (var1 var2 : Numeric) (rscale : Int) :
    keptProduct var1 var2 rscale + ignoredProduct var1 var2 rscale =
      var1.magnitude * var2.magnitude :=
  Radix.partialProduct_add_not nbase_ne_zero _ _ _ _ _

theorem resNdigits_symm (var1 var2 : Numeric) (rscale : Int) :
    resNdigits var1 var2 rscale = resNdigits var2 var1 rscale := by
  rw [resNdigits, resNdigits, add_comm var1.ndigits, add_comm var1.weight]

theorem keptProduct_symm (var1 var2 : Numeric) (rscale : Int) :
    keptProduct var1 var2 rscale = keptProduct var2 var1 rscale := by
  rw [keptProduct, keptProduct, resNdigits_symm, add_comm var1.weight]
  refine Radix.partialProduct_swap (fun i j => ?_) _ _ _
  rw [add_comm (i : Int)]

end Numeric

theorem kept_magnitude {var1 var2 : Numeric} {rscale : Int} {digits : List Int} {n : Nat}
    (count : resNdigits var1 var2 rscale = (n + 2 : Nat)) (length : digits.length = n + 2)
    (product : Radix.number nbase digits = Radix.keptNumber nbase var2.digits var1.digits n) :
    Radix.magnitude nbase digits (var1.weight + var2.weight + 2) =
      keptProduct var1 var2 rscale := by
  have exponent : var1.weight + var2.weight + 2 + 1 - digits.length =
      var1.weight + var2.weight + 1 - n := by
    rw [length]
    push_cast
    ring
  have kept : (fun i j : Nat => decide ((i : Int) + j + 2 < resNdigits var1 var2 rscale)) =
      fun i j => decide (i + j < n) := by
    funext i j
    rw [count]
    exact decide_eq_decide.mpr (by omega)
  rw [Radix.magnitude_eq nbase_ne_zero, product, exponent, keptProduct, kept]
  exact Radix.keptNumber_eq nbase_ne_zero _ _ _ _

theorem mulOrdered_spec {var1 var2 : Numeric} (range1 : Radix.Digits nbase var1.digits)
    (range2 : Radix.Digits nbase var2.digits) (rscale : Int) :
    Returns (mulOrdered var1 var2 rscale)
      (signedAs var1 var2 (nearestAt (keptProduct var1 var2 rscale) rscale)) rscale := by
  have zeroResult (none : keptProduct var1 var2 rscale = 0) :
      Returns (.ok (zeroVar rscale))
        (signedAs var1 var2 (nearestAt (keptProduct var1 var2 rscale) rscale)) rscale := by
    refine ⟨_, rfl, zeroVar_stripped _, ?_, rfl⟩
    have zero : nearestAt 0 rscale = 0 := @nearestAt_of_whole 0 rscale 0 (by simp)
    rw [none, zero, signedAs, neg_zero, ite_self]
    exact zeroVar_value rscale
  have count : min (var1.ndigits + var2.ndigits + 1)
      (var1.weight + var2.weight + 2 + 1 + (rscale + decDigits - 1).tdiv decDigits +
        mulGuardDigits) = resNdigits var1 var2 rscale := by
    have sum : var1.weight + var2.weight + 2 + 1 = var1.weight + var2.weight + 3 := by ring
    rw [sum]
    rfl
  rw [mulOrdered]
  dsimp only
  rw [count]
  by_cases none : var1.ndigits = 0 ∨ var2.ndigits = 0
  · rw [if_pos none]
    refine zeroResult (Radix.partialProduct_none ?_ _)
    intro i insideI j insideJ
    rw [ndigits, ndigits] at none
    omega
  · rw [if_neg none]
    by_cases few : resNdigits var1 var2 rscale < 3
    · rw [if_pos few]
      refine zeroResult (Radix.partialProduct_none ?_ _)
      intro i _ j _
      exact decide_eq_false (by omega)
    · obtain ⟨n, slots⟩ : ∃ n : Nat, resNdigits var1 var2 rscale = (n + 2 : Nat) :=
        ⟨(resNdigits var1 var2 rscale - 2).toNat, by omega⟩
      obtain ⟨i1, start, inside, short⟩ : ∃ i1 : Nat,
          (min (var1.ndigits - 1) (resNdigits var1 var2 rscale - 3) + 1).toNat = i1 ∧
          i1 ≤ var1.digits.length ∧ (i1 = var1.digits.length ∨ i1 = n) ∧ i1 ≤ n := by
        rw [ndigits] at *
        exact ⟨_, rfl, by omega, by omega⟩
      rw [if_neg few, start, slots, Int.toNat_natCast]
      obtain ⟨dig, digits, run, normalized, range, length, product⟩ :=
        accumulated_spec range1 range2 inside short.2 short.1
      have magnitude := kept_magnitude slots length product
      obtain ⟨rounded, roundRun, roundRange, roundMagnitude, roundScale, roundSign⟩ :=
        @roundVar_spec
          { spare := 1, digits, weight := var1.weight + var2.weight + 2,
            sign := if var1.sign = var2.sign then numericPos else numericNeg, dscale := 0 }
          range Nat.one_pos rscale
      obtain ⟨stripped, value, scale⟩ := stripVar_value roundRange (sign_valid var1 var2) roundSign
      refine ⟨stripVar rounded, ?_, stripped, ?_, scale.trans roundScale⟩
      · exact bind_ok.mpr ⟨_, run, bind_ok.mpr ⟨_, normalized, bind_ok.mpr ⟨_,
          assertThat_ok (decide_eq_true rfl), bind_ok.mpr ⟨_, roundRun, rfl⟩⟩⟩⟩
      · rw [value, signedAs_sign, roundMagnitude, Numeric.magnitude, magnitude]

theorem mulVar_spec {var1 var2 : Numeric} (range1 : Radix.Digits nbase var1.digits)
    (range2 : Radix.Digits nbase var2.digits) (rscale : Int) :
    Returns (mulVar var1 var2 rscale)
      (signedAs var1 var2 (nearestAt (keptProduct var1 var2 rscale) rscale)) rscale := by
  rw [mulVar]
  by_cases longer : var1.ndigits > var2.ndigits
  · rw [if_pos longer, keptProduct_symm, signedAs_symm]
    exact mulOrdered_spec range2 range1 rscale
  · rw [if_neg longer]
    exact mulOrdered_spec range1 range2 rscale

def Exact (var1 var2 : Numeric) (rscale : Int) : Prop :=
  (var1.digits ≠ [] → var2.digits ≠ [] → var1.ndigits + var2.ndigits + 1 ≤
    var1.weight + var2.weight + 3 + (rscale + decDigits - 1).tdiv decDigits + mulGuardDigits) ∧
  ∃ whole : Int, var1.magnitude * var2.magnitude * 10 ^ rscale = whole

theorem Exact.keptProduct_eq {var1 var2 : Numeric} {rscale : Int} (exact : Exact var1 var2 rscale) :
    keptProduct var1 var2 rscale = var1.magnitude * var2.magnitude := by
  have none : ignoredProduct var1 var2 rscale = 0 := by
    refine Radix.partialProduct_none ?_ _
    intro i insideI j insideJ
    have room := exact.1 (List.ne_nil_of_length_pos (by omega)) (List.ne_nil_of_length_pos (by omega))
    have count : resNdigits var1 var2 rscale = var1.ndigits + var2.ndigits + 1 := min_eq_left room
    rw [count, ndigits, ndigits, decide_eq_true (by omega)]
    rfl
  rw [← keptProduct_add_ignored var1 var2 rscale, none, add_zero]

theorem mulVar_exact {var1 var2 : Numeric} (wellFormed1 : var1.WellFormed)
    (wellFormed2 : var2.WellFormed) {rscale : Int} (exact : Exact var1 var2 rscale) :
    Returns (mulVar var1 var2 rscale) (var1.value * var2.value) rscale := by
  have run := mulVar_spec wellFormed1.digits wellFormed2.digits rscale
  obtain ⟨whole, places⟩ := exact.2
  rw [exact.keptProduct_eq, nearestAt_of_whole places, ← signedAs_sign,
    ← wellFormed1.value_mul wellFormed2] at run
  exact run

namespace Numeric

/-- What the pairs that are left out add does not carry into the last place of the result. -/
def CarriesNothing (x y : Numeric) (rscale : Int) : Prop :=
  Int.fract (keptProduct x y rscale * 10 ^ rscale + 1 / 2) +
    ignoredProduct x y rscale * 10 ^ rscale < 1

theorem signedAs_injective {x y : Numeric} {a b : ℚ} : signedAs x y a = signedAs x y b ↔ a = b := by
  rw [signedAs, signedAs]
  by_cases same : x.sign = y.sign
  · rw [if_pos same, if_pos same]
  · rw [if_neg same, if_neg same, neg_inj]

theorem nearestAt_product {x y : Numeric} (wellFormedX : x.WellFormed) (wellFormedY : y.WellFormed)
    (rscale : Int) :
    nearestAt (x.value * y.value) rscale =
      signedAs x y (nearestAt (x.magnitude * y.magnitude) rscale) := by
  rw [wellFormedX.value_mul wellFormedY, signedAs_sign, signedAs, signedAs]
  by_cases same : x.sign = y.sign
  · rw [if_pos same, if_pos same]
  · rw [if_neg same, if_neg same, nearestAt_neg]

/-- A product is what the kept pairs add up to, rounded to the scale; it is the exact product
rounded if and only if the pairs left out do not carry that far. -/
theorem mul_rounded {x y : Numeric} (wellFormedX : x.WellFormed) (wellFormedY : y.WellFormed) :
    ∃ result, x.mul y = .ok result ∧ result.Stripped ∧ result.dscale = max x.dscale y.dscale ∧
      result.value =
        signedAs x y (nearestAt (keptProduct x y (max x.dscale y.dscale)) (max x.dscale y.dscale)) ∧
      (result.value = nearestAt (x.value * y.value) (max x.dscale y.dscale) ↔
        CarriesNothing x y (max x.dscale y.dscale)) := by
  obtain ⟨result, run, stripped, value, scale⟩ :=
    mulVar_spec wellFormedX.digits wellFormedY.digits (max x.dscale y.dscale)
  refine ⟨result, run, stripped, scale, value, ?_⟩
  have kept : 0 ≤ keptProduct x y (max x.dscale y.dscale) :=
    Radix.partialProduct_nonneg nbase_pos _ wellFormedX.digits wellFormedY.digits _
  have ignored : 0 ≤ ignoredProduct x y (max x.dscale y.dscale) :=
    Radix.partialProduct_nonneg nbase_pos _ wellFormedX.digits wellFormedY.digits _
  rw [value, nearestAt_product wellFormedX wellFormedY, signedAs_injective,
    ← keptProduct_add_ignored x y (max x.dscale y.dscale), eq_comm, CarriesNothing]
  exact nearestAt_add_iff kept ignored _

/-- 0.000000009999 times 0.000050009999 is more than half of the last place, but only with the
pair of the last digits. -/
theorem mul_ignores_carry :
    let x : Numeric := ⟨0, [9999], -3, numericPos, 12⟩
    let y : Numeric := ⟨0, [5000, 9999], -2, numericPos, 12⟩
    x.WellFormed ∧ y.WellFormed ∧ ∃ result, x.mul y = .ok result ∧
      result.value ≠ nearestAt (x.value * y.value) (max x.dscale y.dscale) := by
  refine ⟨⟨by decide, by decide, by decide⟩, ⟨by decide, by decide, by decide⟩, ⟨2, [], 0, numericPos, 12⟩, ?_⟩
  decide +kernel

theorem mul_rounded_thirds :
    let x : Numeric := ⟨0, [3333], -1, numericPos, 4⟩
    let y : Numeric := ⟨0, [1, 5000], 0, numericNeg, 1⟩
    ∃ result, x.mul y = .ok result ∧ result.Stripped ∧ result.dscale = max x.dscale y.dscale ∧
      result.value =
        signedAs x y (nearestAt (keptProduct x y (max x.dscale y.dscale)) (max x.dscale y.dscale)) ∧
      (result.value = nearestAt (x.value * y.value) (max x.dscale y.dscale) ↔
        CarriesNothing x y (max x.dscale y.dscale)) :=
  mul_rounded ⟨by decide, by decide, by decide⟩ ⟨by decide, by decide, by decide⟩

end Numeric

end PqAsync
