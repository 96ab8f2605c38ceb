import PqAsync.NumericRemainder
import PqAsync.NumericText

/-!
The numerics that a program obtains from texts and by arithmetic, and what they have in common:
their digits are digits, without outer zeros, and their sign is one of three codes. An operand
may be NaN, so the exact results do not apply; only the digits are followed here.
-/

namespace PqAsync

open Results Numeric

theorem int32_inv {x y : Int} (done : int32 x = .ok y) : y = x := by
  rw [int32] at done
  split at done
  · exact (Except.ok.inj done).symm
  · exact absurd done (by simp)

def Nonneg (dig : List Int) : Prop := ∀ entry ∈ dig, 0 ≤ entry

theorem nonneg_cons {entry : Int} {dig : List Int} :
    Nonneg (entry :: dig) ↔ 0 ≤ entry ∧ Nonneg dig := List.forall_mem_cons

theorem nonneg_append {dig added : List Int} :
    Nonneg (dig ++ added) ↔ Nonneg dig ∧ Nonneg added := List.forall_mem_append

section Product

theorem addProducts_nonneg {var1digit : Int} (own : 0 ≤ var1digit) {digits dig added : List Int}
    (range : Radix.Digits nbase digits) (entries : Nonneg dig)
    (run : addProducts var1digit digits dig = .ok added) : Nonneg added := by
  induction digits generalizing dig added with
  | nil =>
      have same : added = dig := by
        cases dig <;> exact (Except.ok.inj run).symm
      rwa [same]
  | cons digit digits ih =>
      cases dig with
      | nil =>
          rw [← Except.ok.inj run]
          exact entries
      | cons entry dig =>
          obtain ⟨digitRange, others⟩ := Radix.digits_cons.mp range
          obtain ⟨entryNonneg, rest⟩ := nonneg_cons.mp entries
          obtain ⟨product, productRun, run⟩ := bind_ok.mp run
          obtain ⟨total, totalRun, run⟩ := bind_ok.mp run
          obtain ⟨later, laterRun, run⟩ := bind_ok.mp run
          rw [← Except.ok.inj run, int32_inv totalRun, int32_inv productRun]
          have productNonneg := mul_nonneg own digitRange.1
          exact nonneg_cons.mpr ⟨by omega, ih others rest laterRun⟩

theorem normalize_range {dig digits : List Int} {carry : Int} (entries : Nonneg dig)
    (run : normalize dig = .ok (digits, carry)) : Radix.Digits nbase digits ∧ 0 ≤ carry := by
  induction dig generalizing digits carry with
  | nil =>
      obtain ⟨rfl, rfl⟩ := Prod.mk.inj (Except.ok.inj run)
      exact ⟨Radix.Digits.nil, le_refl 0⟩
  | cons entry dig ih =>
      obtain ⟨entryNonneg, rest⟩ := nonneg_cons.mp entries
      obtain ⟨⟨later, laterCarry⟩, laterRun, run⟩ := bind_ok.mp run
      obtain ⟨laterRange, laterNonneg⟩ := ih rest laterRun
      obtain ⟨newdig, newdigRun, run⟩ := bind_ok.mp run
      have nonneg : 0 ≤ newdig := by
        rw [int32_inv newdigRun]
        exact add_nonneg entryNonneg laterNonneg
      by_cases large : newdig ≥ nbase
      · rw [if_pos large] at run
        obtain ⟨rfl, rfl⟩ := Prod.mk.inj (Except.ok.inj run)
        have parts := Int.mul_tdiv_add_tmod newdig nbase
        have remainder := Radix.emod_range nbase_pos newdig
        rw [Int.tmod_eq_emod_of_nonneg nonneg, mul_comm] at parts
        refine ⟨Radix.digits_cons.mpr ⟨by omega, laterRange⟩, ?_⟩
        exact Int.tdiv_nonneg nonneg nbase_pos.le
      · rw [if_neg large] at run
        obtain ⟨rfl, rfl⟩ := Prod.mk.inj (Except.ok.inj run)
        exact ⟨Radix.digits_cons.mpr ⟨⟨nonneg, by omega⟩, laterRange⟩, le_refl 0⟩

theorem digits_nonneg {digits : List Int} (range : Radix.Digits nbase digits) :
    Nonneg digits := fun digit member => (range digit member).1

theorem makeRoom_nonneg {var1digit maxdig maxdig' : Int} {dig room : List Int}
    (entries : Nonneg dig) (run : makeRoom var1digit maxdig dig = .ok (maxdig', room)) :
    Nonneg room := by
  obtain ⟨grown, _, run⟩ := bind_ok.mp run
  by_cases full : grown > maxdigLimit
  · rw [if_pos full] at run
    obtain ⟨⟨digits, carry⟩, normalized, run⟩ := bind_ok.mp run
    obtain ⟨_, _, run⟩ := bind_ok.mp run
    obtain ⟨_, rfl⟩ := Prod.mk.inj (Except.ok.inj run)
    exact digits_nonneg (normalize_range entries normalized).1
  · rw [if_neg full] at run
    obtain ⟨_, rfl⟩ := Prod.mk.inj (Except.ok.inj run)
    exact entries

theorem mulDigits_nonneg {digits1 digits2 : List Int} (range1 : Radix.Digits nbase digits1)
    (range2 : Radix.Digits nbase digits2) {i1 : Nat} {maxdig : Int} {dig result : List Int}
    (entries : Nonneg dig) (run : mulDigits digits1 digits2 i1 maxdig dig = .ok result) :
    Nonneg result := by
  induction i1 generalizing maxdig dig with
  | zero =>
      rw [← Except.ok.inj run]
      exact entries
  | succ i1 ih =>
      rw [mulDigits] at run
      dsimp only at run
      by_cases zero : digits1.getD i1 0 = 0
      · rw [if_pos zero] at run
        exact ih entries run
      · rw [if_neg zero] at run
        obtain ⟨⟨room, dig'⟩, roomRun, run⟩ := bind_ok.mp run
        obtain ⟨added, addedRun, run⟩ := bind_ok.mp run
        have kept := makeRoom_nonneg entries roomRun
        have own : 0 ≤ digits1.getD i1 0 := by
          rw [List.getD_eq_getElem?_getD]
          rcases inside : digits1[i1]? with _ | digit
          · exact le_refl 0
          · exact (range1 digit (List.mem_of_getElem? inside)).1
        have later : Nonneg (dig'.drop (i1 + 2)) := fun entry member =>
          kept entry (List.mem_of_mem_drop member)
        have front : Nonneg (dig'.take (i1 + 2)) := fun entry member =>
          kept entry (List.mem_of_mem_take member)
        exact ih (nonneg_append.mpr ⟨front, addProducts_nonneg own range2 later addedRun⟩) run

end Product

section Rounding

theorem propagateCarry_range {spare : Nat} {front rounded : List Int} {intoSpare : Bool}
    (range : Radix.Digits nbase front)
    (run : propagateCarry spare front = .ok (rounded, intoSpare)) :
    Radix.Digits nbase rounded := by
  induction front generalizing rounded intoSpare with
  | nil =>
      rw [propagateCarry] at run
      split at run
      · exact absurd run (by simp)
      · obtain ⟨rfl, _⟩ := Prod.mk.inj (Except.ok.inj run)
        exact Radix.digits_cons.mpr ⟨by decide, Radix.Digits.nil⟩
  | cons digit front ih =>
      obtain ⟨own, others⟩ := Radix.digits_cons.mp range
      rw [propagateCarry] at run
      dsimp only at run
      by_cases large : 1 + digit ≥ nbase
      · rw [if_pos large] at run
        obtain ⟨⟨later, reached⟩, laterRun, run⟩ := bind_ok.mp run
        obtain ⟨rfl, _⟩ := Prod.mk.inj (Except.ok.inj run)
        exact Radix.digits_cons.mpr ⟨by omega, ih others laterRun⟩
      · rw [if_neg large] at run
        obtain ⟨rfl, _⟩ := Prod.mk.inj (Except.ok.inj run)
        exact Radix.digits_cons.mpr ⟨by omega, others⟩

structure RoundedTo (sign rscale : Int) (result : Numeric) : Prop where
  digits : Radix.Digits nbase result.digits
  sign : result.sign = sign ∨ result.sign = numericPos
  dscale : result.dscale = rscale

theorem carryInto_range {var result : Numeric} {front rounded : List Int}
    (frontRange : Radix.Digits nbase front) (roundedRange : Radix.Digits nbase rounded)
    (run : carryInto var front rounded = .ok result) : RoundedTo var.sign var.dscale result := by
  have reversed : Radix.Digits nbase front.reverse := fun digit member =>
    frontRange digit (List.mem_reverse.mp member)
  obtain ⟨⟨carried, intoSpare⟩, carriedRun, run⟩ := bind_ok.mp run
  have carriedRange := propagateCarry_range reversed carriedRun
  have digits : Radix.Digits nbase (carried.reverse ++ rounded) := by
    refine Radix.digits_append.mpr ⟨?_, roundedRange⟩
    intro digit member
    exact carriedRange digit (List.mem_reverse.mp member)
  cases intoSpare with
  | true =>
      rw [← Except.ok.inj run]
      exact ⟨digits, Or.inl rfl, rfl⟩
  | false =>
      rw [← Except.ok.inj run]
      exact ⟨digits, Or.inl rfl, rfl⟩

theorem roundPowers_range (di : Int) : roundPowers di = 0 ∨ roundPowers di = 1000 ∨
    roundPowers di = 100 ∨ roundPowers di = 10 := by
  rw [roundPowers]
  rcases di.toNat with _ | _ | _ | _ | more
  · exact Or.inl rfl
  · exact Or.inr (Or.inl rfl)
  · exact Or.inr (Or.inr (Or.inl rfl))
  · exact Or.inr (Or.inr (Or.inr rfl))
  · exact Or.inl rfl

theorem cut_range {last pow10 : Int} (own : 0 ≤ last ∧ last < nbase)
    (power : pow10 = 0 ∨ pow10 = 1000 ∨ pow10 = 100 ∨ pow10 = 10) :
    (0 ≤ last - last.tmod pow10 ∧ last - last.tmod pow10 < nbase) ∧
      0 ≤ pow10 ∧ pow10 ≤ 1000 := by
  rw [Int.tmod_eq_emod_of_nonneg own.1]
  rcases power with rfl | rfl | rfl | rfl
  · rw [Int.emod_zero]
    omega
  · omega
  · omega
  · omega

theorem roundVar_range {var result : Numeric} (range : Radix.Digits nbase var.digits)
    {rscale : Int} (run : roundVar var rscale = .ok result) : RoundedTo var.sign rscale result := by
  rw [roundVar] at run
  dsimp only at run
  generalize (var.weight + 1) * decDigits + rscale = di at run
  by_cases below : di < 0
  · rw [if_pos below] at run
    rw [← Except.ok.inj run]
    exact ⟨Radix.Digits.nil, Or.inr rfl, rfl⟩
  · rw [if_neg below] at run
    generalize (di + decDigits - 1).tdiv decDigits = ndigits at run
    generalize di.tmod decDigits = rest at run
    have keptRange := range.take ndigits.toNat
    split at run
    · by_cases whole : rest = 0
      · rw [if_pos whole] at run
        split at run
        · exact carryInto_range keptRange Radix.Digits.nil run
        · rw [← Except.ok.inj run]
          exact ⟨keptRange, Or.inl rfl, rfl⟩
      · rw [if_neg whole] at run
        rcases List.eq_nil_or_concat (var.digits.take ndigits.toNat) with empty | ⟨front, last, split⟩
        · rw [empty] at run
          exact absurd run (by simp)
        · rw [List.concat_eq_append] at split
          rw [split, List.getLast?_concat, List.dropLast_concat] at run
          dsimp only at run
          rw [split] at keptRange
          obtain ⟨frontRange, lastRange⟩ := Radix.digits_append.mp keptRange
          have own := lastRange last (List.mem_singleton_self last)
          obtain ⟨left, powerLow, powerHigh⟩ := cut_range own (roundPowers_range rest)
          have single {digit : Int} (ownDigit : 0 ≤ digit ∧ digit < nbase) :
              Radix.Digits nbase [digit] := Radix.digits_cons.mpr ⟨ownDigit, Radix.Digits.nil⟩
          split at run
          · split at run
            · next large =>
                have base : nbase = 10000 := rfl
                exact carryInto_range frontRange (single (by omega)) run
            · next small =>
                rw [← Except.ok.inj run]
                exact ⟨Radix.digits_append.mpr ⟨frontRange, single (by omega)⟩, Or.inl rfl, rfl⟩
          · rw [← Except.ok.inj run]
            exact ⟨Radix.digits_append.mpr ⟨frontRange, single left⟩, Or.inl rfl, rfl⟩
    · rw [← Except.ok.inj run]
      exact ⟨range, Or.inl rfl, rfl⟩

end Rounding

namespace Numeric

structure Trimmed (var : Numeric) : Prop where
  digits : Radix.Digits nbase var.digits
  leading : var.digits.head? ≠ some 0
  trailing : var.digits.getLast? ≠ some 0
  zero : var.digits = [] → var.weight = 0
  dscale : 0 ≤ var.dscale

theorem Stripped.trimmed {var : Numeric} (stripped : var.Stripped) (scale : 0 ≤ var.dscale) :
    var.Trimmed :=
  ⟨stripped.digits, stripped.leading, stripped.trailing, fun none => (stripped.zero none).1, scale⟩

theorem Trimmed.withSign {var : Numeric} (trimmed : var.Trimmed) (sign : Int) :
    { var with sign }.Trimmed :=
  ⟨trimmed.digits, trimmed.leading, trimmed.trailing, trimmed.zero, trimmed.dscale⟩

theorem Trimmed.stripped {var : Numeric} (trimmed : var.Trimmed) (some : var.digits ≠ [])
    (sign : var.sign = numericPos ∨ var.sign = numericNeg) : var.Stripped :=
  ⟨trimmed.digits, sign, trimmed.leading, trimmed.trailing, fun none => absurd none some⟩

structure Finite (var : Numeric) : Prop extends var.Trimmed where
  sign : var.sign = numericPos ∨ var.sign = numericNeg

theorem Stripped.finite {var : Numeric} (stripped : var.Stripped) (scale : 0 ≤ var.dscale) :
    var.Finite := ⟨stripped.trimmed scale, stripped.sign⟩

end Numeric

theorem zeroVar_finite {dscale : Int} (scale : 0 ≤ dscale) : (zeroVar dscale).Finite :=
  (zeroVar_stripped dscale).finite scale

theorem stripVar_finite {var : Numeric} (digits : Radix.Digits nbase var.digits)
    (sign : var.sign = numericPos ∨ var.sign = numericNeg) (scale : 0 ≤ var.dscale) :
    (stripVar var).Finite := by
  obtain ⟨stripped, _, sameScale, _⟩ := stripVar_spec var digits sign
  exact stripped.finite (by rw [sameScale]; exact scale)

section Arithmetic

variable {var1 var2 result : Numeric}

theorem SumOf.finite {sum : Except NumericError Numeric} {magnitude : ℚ} {dscale : Int}
    (sumOf : SumOf sum magnitude dscale) (scale : 0 ≤ dscale) {sign : Int}
    (valid : sign = numericPos ∨ sign = numericNeg)
    (run : (do let var ← sum; return { var with sign }) = Except.ok result) : result.Finite := by
  obtain ⟨var, done, stripped, _, same⟩ := sumOf
  rw [done] at run
  rw [← Except.ok.inj run]
  exact ⟨(stripped.trimmed (by omega)).withSign sign, valid⟩

theorem subBySize_finite (trimmed1 : var1.Trimmed) (trimmed2 : var2.Trimmed)
    {signGreater signLess : Int}
    (greater : signGreater = numericPos ∨ signGreater = numericNeg)
    (less : signLess = numericPos ∨ signLess = numericNeg)
    (run : subBySize var1 var2 signGreater signLess = .ok result) : result.Finite := by
  have scale : 0 ≤ max var1.dscale var2.dscale := le_max_of_le_left trimmed1.dscale
  rw [subBySize] at run
  rcases cmpAbs_spec trimmed1.digits trimmed2.digits with
    ⟨stat, order⟩ | ⟨stat, order⟩ | ⟨stat, order⟩
  · rw [stat, if_neg (by decide), if_pos rfl] at run
    exact (subAbs_spec trimmed1.digits trimmed2.digits order).finite scale greater run
  · rw [stat, if_pos rfl] at run
    rw [← Except.ok.inj run]
    exact zeroVar_finite scale
  · rw [stat, if_neg (by decide), if_neg (by decide)] at run
    rw [max_comm] at scale
    exact (subAbs_spec trimmed2.digits trimmed1.digits order).finite scale less run

theorem bySigns_finite (trimmed1 : var1.Trimmed) (trimmed2 : var2.Trimmed) {positive same : Prop}
    [Decidable positive] [Decidable same]
    (run : (if positive then
        if same then do
          let result ← addAbs var1 var2
          return { result with sign := numericPos }
        else subBySize var1 var2 numericPos numericNeg
      else if same then subBySize var1 var2 numericNeg numericPos
      else do
        let result ← addAbs var1 var2
        return { result with sign := numericNeg }) = .ok result) : result.Finite := by
  have scale : 0 ≤ max var1.dscale var2.dscale := le_max_of_le_left trimmed1.dscale
  have sum := addAbs_spec trimmed1.digits trimmed2.digits
  split at run
  · split at run
    · exact sum.finite scale (Or.inl rfl) run
    · exact subBySize_finite trimmed1 trimmed2 (Or.inl rfl) (Or.inr rfl) run
  · split at run
    · exact subBySize_finite trimmed1 trimmed2 (Or.inr rfl) (Or.inl rfl) run
    · exact sum.finite scale (Or.inr rfl) run

theorem addVar_finite (trimmed1 : var1.Trimmed) (trimmed2 : var2.Trimmed)
    (run : addVar var1 var2 = .ok result) : result.Finite :=
  bySigns_finite trimmed1 trimmed2 run

theorem subVar_finite (trimmed1 : var1.Trimmed) (trimmed2 : var2.Trimmed)
    (run : subVar var1 var2 = .ok result) : result.Finite :=
  bySigns_finite trimmed1 trimmed2 run

theorem mulOrdered_finite (trimmed1 : var1.Trimmed) (trimmed2 : var2.Trimmed) {rscale : Int}
    (scale : 0 ≤ rscale) (run : mulOrdered var1 var2 rscale = .ok result) : result.Finite := by
  rw [mulOrdered] at run
  dsimp only at run
  split at run
  · rw [← Except.ok.inj run]
    exact zeroVar_finite scale
  · split at run
    · rw [← Except.ok.inj run]
      exact zeroVar_finite scale
    · obtain ⟨dig, digRun, run⟩ := bind_ok.mp run
      obtain ⟨⟨digits, carry⟩, normalized, run⟩ := bind_ok.mp run
      obtain ⟨_, _, run⟩ := bind_ok.mp run
      obtain ⟨rounded, roundRun, run⟩ := bind_ok.mp run
      have entries := mulDigits_nonneg trimmed1.digits trimmed2.digits
        (digits_nonneg (Radix.digits_replicate_zero nbase_pos _)) digRun
      have range := (normalize_range entries normalized).1
      obtain ⟨roundedRange, roundedSign, roundedScale⟩ := roundVar_range range roundRun
      rw [← Except.ok.inj run]
      refine stripVar_finite roundedRange ?_ (by rw [roundedScale]; exact scale)
      rcases roundedSign with same | positive
      · rw [same]
        exact sign_valid var1 var2
      · exact Or.inl positive

theorem mulVar_finite (trimmed1 : var1.Trimmed) (trimmed2 : var2.Trimmed) {rscale : Int}
    (scale : 0 ≤ rscale) (run : mulVar var1 var2 rscale = .ok result) : result.Finite := by
  rw [mulVar] at run
  split at run
  · exact mulOrdered_finite trimmed2 trimmed1 scale run
  · exact mulOrdered_finite trimmed1 trimmed2 scale run

theorem divVar_sign (rscale : Int) (round : Bool) :
    ∃ sign, (sign = numericPos ∨ sign = numericNeg) ∧ divVar var1 var2 rscale round =
      divVar { var1 with sign } { var2 with sign := numericPos } rscale round := by
  by_cases same : var1.sign = var2.sign
  · refine ⟨numericPos, Or.inl rfl, ?_⟩
    rw [divVar, divVar]
    simp only [if_pos same, if_true, ndigits]
  · refine ⟨numericNeg, Or.inr rfl, ?_⟩
    have different : numericNeg ≠ numericPos := by decide
    rw [divVar, divVar]
    simp only [if_neg same, if_neg different, ndigits]

theorem divVar_finite (trimmed1 : var1.Trimmed) (trimmed2 : var2.Trimmed) {rscale : Int}
    (scale : 0 ≤ rscale) (run : divVar var1 var2 rscale false = .ok result) : result.Finite := by
  by_cases none2 : var2.digits = []
  · rw [divVar, if_pos (Or.inl none2)] at run
    exact absurd run (by simp)
  · by_cases none1 : var1.digits = []
    · have nonzero : ¬(var2.digits = [] ∨ var2.digits.headD 0 = 0) := by
        rintro (none | zero)
        · exact none2 none
        · obtain ⟨digit, digits, split⟩ := List.exists_cons_of_ne_nil none2
          rw [split] at zero
          exact trimmed2.leading (by rw [split]; exact congrArg some zero)
      rw [divVar, if_neg nonzero, if_pos (by rw [ndigits, none1]; rfl)] at run
      rw [← Except.ok.inj run]
      exact zeroVar_finite scale
    · obtain ⟨sign, valid, same⟩ := @divVar_sign var1 var2 rscale false
      obtain ⟨quotient, done, stripped, _, quotientScale⟩ :=
        divVar_spec ((trimmed1.withSign sign).stripped none1 valid).wellFormed
          ((trimmed2.withSign numericPos).stripped none2 (Or.inl rfl)) none2 scale
      rw [same, done] at run
      rw [← Except.ok.inj run]
      exact stripped.finite (by rw [quotientScale]; exact scale)

theorem modVar_finite (trimmed1 : var1.Trimmed) (trimmed2 : var2.Trimmed)
    (run : modVar var1 var2 = .ok result) : result.Finite := by
  obtain ⟨quotient, divided, run⟩ := bind_ok.mp run
  obtain ⟨product, multiplied, run⟩ := bind_ok.mp run
  have quotientFinite := divVar_finite trimmed1 trimmed2 (le_refl 0) divided
  have productFinite := mulVar_finite trimmed2 quotientFinite.toTrimmed trimmed2.dscale multiplied
  exact subVar_finite trimmed1 productFinite.toTrimmed run

end Arithmetic

section Text

def DecimalDigits (decdigits : List Int) : Prop := ∀ d ∈ decdigits, 0 ≤ d ∧ d ≤ 9

theorem digitOf_range {c : Char} (digit : c.isDigit = true) : 0 ≤ digitOf c ∧ digitOf c ≤ 9 := by
  have bounds : '0'.toNat ≤ c.toNat ∧ c.toNat ≤ '9'.toNat := by
    simpa [Char.isDigit, UInt32.le_iff_toNat_le] using digit
  have zero : '0'.toNat = 48 := rfl
  have nine : '9'.toNat = 57 := rfl
  rw [digitOf]
  omega

theorem scanDigits_cons {c : Char} (digit : c.isDigit = true) (cp : List Char) (haveDp : Bool)
    (dweight dscale : Int) : scanDigits (c :: cp) haveDp dweight dscale =
      (scanDigits cp haveDp (if haveDp then dweight else dweight + 1)
        (if haveDp then dscale + 1 else dscale)).map
          fun found => (digitOf c :: found.1, found.2) := by
  rw [scanDigits, if_pos digit]
  cases haveDp with
  | true =>
      simp only [if_true]
      cases scanDigits cp true dweight (dscale + 1) with
      | none => rfl
      | some found => rfl
  | false =>
      simp only [Bool.false_eq_true, if_false]
      cases scanDigits cp false (dweight + 1) dscale with
      | none => rfl
      | some found => rfl

theorem scanDigits_digit {c : Char} {cp rest : List Char} {haveDp : Bool}
    {dweight dscale dweight' dscale' : Int} {decdigits : List Int} (digit : c.isDigit = true)
    (run : scanDigits (c :: cp) haveDp dweight dscale = some (decdigits, dweight', dscale', rest)) :
    ∃ later, decdigits = digitOf c :: later ∧
      scanDigits cp haveDp (if haveDp then dweight else dweight + 1)
        (if haveDp then dscale + 1 else dscale) = some (later, dweight', dscale', rest) := by
  rw [scanDigits_cons digit] at run
  obtain ⟨⟨later, weight, scale, after⟩, laterRun, found⟩ := Option.map_eq_some_iff.mp run
  cases found
  exact ⟨later, rfl, laterRun⟩

theorem scanDigits_range {cp rest : List Char} {haveDp : Bool} {dweight dscale dweight' dscale' : Int}
    {decdigits : List Int} (run : scanDigits cp haveDp dweight dscale =
      some (decdigits, dweight', dscale', rest)) : DecimalDigits decdigits ∧ dscale ≤ dscale' := by
  induction cp generalizing haveDp dweight dscale decdigits with
  | nil =>
      cases run
      exact ⟨List.forall_mem_nil _, le_refl _⟩
  | cons c cp ih =>
      by_cases digit : c.isDigit = true
      · obtain ⟨later, rfl, laterRun⟩ := scanDigits_digit digit run
        obtain ⟨range, larger⟩ := ih laterRun
        refine ⟨List.forall_mem_cons.mpr ⟨digitOf_range digit, range⟩, ?_⟩
        split at larger
        · omega
        · exact larger
      · rw [scanDigits, if_neg digit] at run
        by_cases point : c = '.'
        · rw [if_pos point] at run
          cases haveDp with
          | true => exact absurd run (by simp)
          | false => exact ih run
        · rw [if_neg point] at run
          cases run
          exact ⟨List.forall_mem_nil _, le_refl _⟩

theorem scanExponent_scale {cp rest : List Char} {dweight dscale dweight' dscale' : Int}
    (scale : 0 ≤ dscale) (run : scanExponent dweight dscale cp = some (dweight', dscale', rest)) :
    0 ≤ dscale' := by
  cases cp with
  | nil =>
      cases run
      exact scale
  | cons c cp =>
      rw [scanExponent] at run
      split at run
      · obtain ⟨⟨exponent, after⟩, _, run⟩ := Option.bind_eq_some_iff.mp run
        dsimp only at run
        split at run
        · exact absurd run (by simp)
        · cases run
          exact le_max_right _ _
      · cases run
        exact scale

theorem DecimalDigits.getD {decdigits : List Int} (range : DecimalDigits decdigits) (i : Nat) :
    0 ≤ decdigits.getD i 0 ∧ decdigits.getD i 0 ≤ 9 := by
  rw [List.getD_eq_getElem?_getD]
  rcases inside : decdigits[i]? with _ | digit
  · exact ⟨le_refl 0, by decide⟩
  · exact range digit (List.mem_of_getElem? inside)

theorem packDigits_range (ndigits : Nat) {decdigits : List Int}
    (range : DecimalDigits decdigits) : Radix.Digits nbase (packDigits ndigits decdigits) := by
  induction ndigits generalizing decdigits with
  | zero => exact Radix.Digits.nil
  | succ ndigits ih =>
      have base : nbase = 10000 := rfl
      have first := range.getD 0
      have second := range.getD 1
      have third := range.getD 2
      have fourth := range.getD 3
      refine Radix.digits_cons.mpr ⟨by omega, ih ?_⟩
      exact fun digit member => range digit (List.mem_of_mem_drop member)

theorem scanSign_valid (cp : List Char) :
    (scanSign cp).1 = numericPos ∨ (scanSign cp).1 = numericNeg := by
  rw [scanSign.eq_def]
  split
  · exact Or.inl rfl
  · exact Or.inr rfl
  · exact Or.inl rfl

theorem setVarFromStr_finite {cp rest : List Char} {var : Numeric}
    (run : setVarFromStr cp = some (var, rest)) : var.Finite := by
  have valid := scanSign_valid cp
  rw [setVarFromStr] at run
  generalize scanSign cp = signed at run valid
  obtain ⟨sign, cp⟩ := signed
  dsimp only at run
  split at run
  · exact absurd run (by simp)
  · obtain ⟨⟨decdigits, dweight, dscale, after⟩, scanned, run⟩ := Option.bind_eq_some_iff.mp run
    obtain ⟨⟨dweight', dscale', left⟩, exponent, run⟩ := Option.bind_eq_some_iff.mp run
    obtain ⟨range, scale⟩ := scanDigits_range scanned
    cases run
    refine stripVar_finite (packDigits_range _ ?_) valid (scanExponent_scale scale exponent)
    intro digit member
    rcases List.mem_append.mp member with zero | own
    · rw [List.eq_of_mem_replicate zero]
      exact ⟨le_refl 0, by decide⟩
    · exact range digit own

end Text

namespace Numeric

theorem nan_trimmed : nan.Trimmed :=
  ⟨Radix.Digits.nil, by simp [nan], by simp [nan], fun _ => rfl, le_refl 0⟩

theorem ofText_cases (s : List Char) : ofText s = nan ∨
    ∃ var : Numeric, var.Finite ∧ (ofText s = var ∨ ofText s = { var with sign := numericNan }) := by
  rw [ofText]
  split
  · exact Or.inl rfl
  · split
    · exact Or.inl rfl
    · next var rest scanned =>
        refine Or.inr ⟨var, setVarFromStr_finite scanned, ?_⟩
        split
        · exact Or.inl rfl
        · exact Or.inr rfl

/-- What a program can obtain from texts, by copying and by arithmetic. -/
inductive Obtained : Numeric → Prop
  | ofText (s : List Char) : Obtained (ofText s)
  | copy {x : Numeric} : Obtained x → Obtained { x with spare := 1 }
  | add {x y result : Numeric} : Obtained x → Obtained y → x.add y = .ok result → Obtained result
  | sub {x y result : Numeric} : Obtained x → Obtained y → x.sub y = .ok result → Obtained result
  | mul {x y result : Numeric} : Obtained x → Obtained y → x.mul y = .ok result → Obtained result
  | div {x y result : Numeric} : Obtained x → Obtained y → x.div y = .ok result → Obtained result
  | mod {x y result : Numeric} : Obtained x → Obtained y → x.mod y = .ok result → Obtained result

structure Known (x : Numeric) : Prop extends x.Trimmed where
  sign : x.sign = numericPos ∨ x.sign = numericNeg ∨ x.sign = numericNan

theorem Finite.known {x : Numeric} (finite : x.Finite) : x.Known := by
  refine ⟨finite.toTrimmed, ?_⟩
  rcases finite.sign with sign | sign
  · exact Or.inl sign
  · exact Or.inr (Or.inl sign)

theorem Obtained.known {x : Numeric} (obtained : x.Obtained) : x.Known := by
  induction obtained with
  | ofText s =>
      rcases ofText_cases s with same | ⟨var, finite, same | same⟩
      · rw [same]
        exact ⟨nan_trimmed, Or.inr (Or.inr rfl)⟩
      · rw [same]
        exact finite.known
      · rw [same]
        exact ⟨finite.toTrimmed.withSign _, Or.inr (Or.inr rfl)⟩
  | @copy x _ ih => exact ⟨⟨ih.digits, ih.leading, ih.trailing, ih.zero, ih.dscale⟩, ih.sign⟩
  | add _ _ run ih1 ih2 => exact (addVar_finite ih1.toTrimmed ih2.toTrimmed run).known
  | sub _ _ run ih1 ih2 => exact (subVar_finite ih1.toTrimmed ih2.toTrimmed run).known
  | mul _ _ run ih1 ih2 =>
      exact (mulVar_finite ih1.toTrimmed ih2.toTrimmed (le_max_of_le_left ih1.dscale) run).known
  | div _ _ run ih1 ih2 =>
      exact (divVar_finite ih1.toTrimmed ih2.toTrimmed (le_max_of_le_left ih1.dscale) run).known
  | mod _ _ run ih1 ih2 => exact (modVar_finite ih1.toTrimmed ih2.toTrimmed run).known

end Numeric

end PqAsync
