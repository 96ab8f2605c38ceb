import PqAsync.NumericWire

/-!
NaN is a sign code that no operation looks at. A NaN takes part in arithmetic, comparison and
printing with the digits that it has, and only some of the rejected texts leave it without any.
-/

namespace PqAsync

open Results

namespace Numeric

theorem Trimmed.eq_of_magnitude {x y : Numeric} (trimmedX : x.Trimmed) (trimmedY : y.Trimmed)
    (same : x.magnitude = y.magnitude) : x.digits = y.digits ∧ x.weight = y.weight := by
  rw [magnitude, magnitude] at same
  have zeroOf {x y : Numeric} (trimmed : y.Trimmed) (none : x.digits = [])
      (same : Radix.magnitude nbase x.digits x.weight = Radix.magnitude nbase y.digits y.weight) :
      y.digits = [] := by
    by_contra some
    have positive := Radix.magnitude_pos nbase_pos trimmed.digits y.weight
      (Radix.exists_nonzero some trimmed.trailing)
    rw [← same, none] at positive
    exact absurd positive (lt_irrefl 0)
  rcases splitX : x.digits with _ | ⟨d, digits⟩
  · have none := zeroOf trimmedY splitX same
    exact ⟨none.symm, (trimmedX.zero splitX).trans (trimmedY.zero none).symm⟩
  · rcases splitY : y.digits with _ | ⟨e, others⟩
    · rw [zeroOf trimmedX splitY same.symm] at splitX
      exact absurd splitX (by simp)
    · have rangeX := trimmedX.digits
      have rangeY := trimmedY.digits
      have lastX := trimmedX.trailing
      have lastY := trimmedY.trailing
      rw [splitX] at same rangeX lastX
      rw [splitY] at same rangeY lastY
      have large : 1 < nbase := by decide
      have low := Radix.weight_le_of_magnitude large (trimmedX.head_pos splitX)
        (Radix.digits_cons.mp rangeX).2 rangeY same
      have high := Radix.weight_le_of_magnitude large (trimmedY.head_pos splitY)
        (Radix.digits_cons.mp rangeY).2 rangeX same.symm
      have weight : x.weight = y.weight := le_antisymm low high
      rw [weight] at same
      exact ⟨Radix.digits_unique nbase_pos rangeX rangeY lastX lastY same, weight⟩

def GivesNan (result : Except NumericError Numeric) : Prop :=
  ∃ var, result = .ok var ∧ var.isNan = true

theorem Finite.not_nan {x : Numeric} (finite : x.Finite) : x.isNan = false := by
  rcases finite.sign with sign | sign
  · rw [isNan, sign]
    rfl
  · rw [isNan, sign]
    rfl

theorem not_givesNan {result : Except NumericError Numeric}
    (finite : ∀ {var}, result = .ok var → var.Finite) : ¬GivesNan result := by
  rintro ⟨var, run, nan⟩
  rw [(finite run).not_nan] at nan
  exact absurd nan (by simp)

theorem arithmetic_not_nan {x y : Numeric} (trimmedX : x.Trimmed) (trimmedY : y.Trimmed) :
    ¬GivesNan (x.add y) ∧ ¬GivesNan (x.sub y) ∧ ¬GivesNan (x.mul y) ∧ ¬GivesNan (x.div y) ∧
      ¬GivesNan (x.mod y) := by
  have scale := le_max_of_le_left (b := x.dscale) (c := y.dscale) trimmedX.dscale
  exact ⟨not_givesNan (addVar_finite trimmedX trimmedY), not_givesNan (subVar_finite trimmedX trimmedY),
    not_givesNan (mulVar_finite trimmedX trimmedY scale),
    not_givesNan (divVar_finite trimmedX trimmedY scale),
    not_givesNan (modVar_finite trimmedX trimmedY)⟩

def zero : Numeric := ofText ['0']

theorem zero_eq : zero = { spare := 2, digits := [], weight := 0, sign := numericPos, dscale := 0 } := by
  decide

theorem zero_wellFormed : zero.WellFormed := by
  rw [zero_eq]
  exact ⟨Radix.Digits.nil, Or.inl rfl, fun _ => ⟨rfl, rfl⟩⟩

theorem zero_magnitude : zero.magnitude = 0 := magnitude_of_nil (by rw [zero_eq])

section Nan

variable {n : Numeric}

theorem sign_of_nan (nan : n.isNan = true) : n.sign = numericNan := eq_of_beq nan

theorem add_zero_of_nan (known : n.Known) (nan : n.isNan = true) :
    ∃ y : Numeric, n.add zero = .ok y ∧ y.Stripped ∧ y.magnitude = n.magnitude ∧
      y.dscale = n.dscale ∧ (n.digits ≠ [] → y.sign = numericNeg) := by
  have notPos : n.sign ≠ numericPos := by
    rw [sign_of_nan nan]
    decide
  have zeroPos : zero.sign = numericPos := by rw [zero_eq]
  obtain ⟨y, run, stripped, value, scale⟩ :=
    @subBySize_spec n zero known.digits zero_wellFormed.digits _ _ (Or.inr ⟨rfl, rfl⟩)
  rw [if_pos rfl, zero_magnitude, sub_zero] at value
  have nonneg := magnitude_nonneg known.digits
  have scaleZero : max n.dscale zero.dscale = n.dscale := by
    rw [zero_eq]
    exact max_eq_left known.dscale
  have added : n.add zero = .ok y := by
    rw [add, addVar, if_neg notPos, if_pos zeroPos]
    exact run
  rcases stripped.sign with sign | sign
  · rw [value_of_pos sign] at value
    have low := magnitude_nonneg stripped.digits
    have none : n.magnitude = 0 := by linarith
    refine ⟨y, added, stripped, by rw [value, none, neg_zero], scale.trans scaleZero, ?_⟩
    intro some
    have positive := Radix.magnitude_pos nbase_pos known.digits n.weight
      (Radix.exists_nonzero some known.trailing)
    exact absurd none positive.ne'
  · rw [value_of_neg sign] at value
    exact ⟨y, added, stripped, neg_injective value, scale.trans scaleZero, fun _ => sign⟩

theorem cmpAbs_same {x y : Numeric} (rangeX : Radix.Digits nbase x.digits)
    (rangeY : Radix.Digits nbase y.digits) (same : x.magnitude = y.magnitude) : cmpAbs x y = 0 := by
  rcases cmpAbs_spec rangeX rangeY with ⟨stat, order⟩ | ⟨stat, order⟩ | ⟨stat, order⟩
  · exact absurd same order.ne'
  · exact stat
  · exact absurd same order.ne

theorem equal_of_nan {y : Numeric} (known : n.Known) (nan : n.isNan = true) (stripped : y.Stripped)
    (same : y.magnitude = n.magnitude) (sign : n.digits ≠ [] → y.sign = numericNeg)
    (scale : 0 ≤ y.dscale) : n.cmp y = 0 ∧ y.cmp n = 0 := by
  have notPos : n.sign ≠ numericPos := by
    rw [sign_of_nan nan]
    decide
  have different : numericNeg ≠ numericPos := by decide
  obtain ⟨digits, _⟩ := (stripped.trimmed scale).eq_of_magnitude known.toTrimmed same
  have counted : y.ndigits = n.ndigits := by rw [ndigits, ndigits, digits]
  by_cases none : n.digits = []
  · have zero : n.ndigits = 0 := by rw [ndigits, none]; rfl
    rw [cmp, cmp, counted, zero]
    exact ⟨rfl, rfl⟩
  · have some : n.ndigits ≠ 0 := by
      rw [ndigits]
      have length := List.length_pos_iff.mpr none
      omega
    rw [cmp, cmp, counted, if_neg some, if_neg some, if_neg some, if_neg some, sign none,
      if_neg notPos, if_neg different, if_neg different, if_neg notPos]
    exact ⟨cmpAbs_same stripped.digits known.digits same,
      cmpAbs_same known.digits stripped.digits same.symm⟩

theorem text_of_nan {z : Numeric} (nan : n.isNan = true) (digits : z.digits = n.digits)
    (weight : z.weight = n.weight) (scale : z.dscale = n.dscale) (sign : z.sign = numericPos) :
    n.text = z.text := by
  have notNeg : n.sign ≠ numericNeg := by
    rw [sign_of_nan nan]
    decide
  have positive : z.sign ≠ numericNeg := by
    rw [sign]
    decide
  rw [text, text, digits, weight, scale, if_neg notNeg, if_neg positive]

theorem exists_equal_of_nan (obtained : n.Obtained) (nan : n.isNan = true) :
    ∃ y : Numeric, y.Obtained ∧ y.isNan = false ∧ n.equal y = true ∧ y.equal n = true := by
  have known := obtained.known
  obtain ⟨y, added, stripped, same, scale, sign⟩ := add_zero_of_nan known nan
  have yScale : 0 ≤ y.dscale := by rw [scale]; exact known.dscale
  obtain ⟨left, right⟩ := equal_of_nan known nan stripped same sign yScale
  refine ⟨y, .add obtained (.ofText ['0']) added, (stripped.finite yScale).not_nan, ?_, ?_⟩
  · rw [equal, left]
    rfl
  · rw [equal, right]
    rfl

theorem exists_text_of_nan (obtained : n.Obtained) (nan : n.isNan = true) :
    ∃ z : Numeric, z.Obtained ∧ z.isNan = false ∧ n.text = z.text := by
  have known := obtained.known
  obtain ⟨y, added, stripped, same, scale, sign⟩ := add_zero_of_nan known nan
  obtain ⟨z, subtracted, strippedZ, value, scaleZ⟩ :=
    (add_sub_exact zero y zero_wellFormed stripped.wellFormed).2
  have yScale : 0 ≤ y.dscale := by rw [scale]; exact known.dscale
  have sameScale : z.dscale = n.dscale := by
    rw [scaleZ, zero_eq, scale]
    exact max_eq_right known.dscale
  have zeroValue : zero.value = 0 := zero_wellFormed.value_eq_zero.mpr (by rw [zero_eq])
  have yValue : y.value = -n.magnitude := by
    by_cases none : n.digits = []
    · have zeroMagnitude : n.magnitude = 0 := magnitude_of_nil none
      have empty : y.digits = [] := by
        rw [((stripped.trimmed yScale).eq_of_magnitude known.toTrimmed same).1, none]
      rw [zeroMagnitude, neg_zero]
      exact stripped.wellFormed.value_eq_zero.mpr empty
    · rw [value_of_neg (sign none), same]
  rw [zeroValue, yValue, zero_sub, neg_neg] at value
  have positive : z.sign = numericPos := by
    rcases strippedZ.sign with sign | sign
    · exact sign
    · have below := strippedZ.wellFormed.sign_neg_iff.mp sign
      rw [value] at below
      exact absurd below (not_lt.mpr (magnitude_nonneg known.digits))
  rw [value_of_pos positive] at value
  have trimmedZ := strippedZ.trimmed (by rw [sameScale]; exact known.dscale)
  obtain ⟨digits, weight⟩ := trimmedZ.eq_of_magnitude known.toTrimmed value
  have finite := strippedZ.finite trimmedZ.dscale
  exact ⟨z, .sub (.ofText ['0']) (.add obtained (.ofText ['0']) added) subtracted, finite.not_nan,
    text_of_nan nan digits weight sameScale positive⟩

end Nan

end Numeric

section Rejected

def inMantissa (c : Char) : Bool := c.isDigit || c = '.'

def fractionLength (mantissa : List Char) : Nat := ((mantissa.dropWhile (· ≠ '.')).drop 1).length

theorem fractionLength_other {c : Char} (notPoint : c ≠ '.') (mantissa : List Char) :
    fractionLength (c :: mantissa) = fractionLength mantissa := by
  simp [fractionLength, notPoint]

theorem fractionLength_point (mantissa : List Char) :
    fractionLength ('.' :: mantissa) = mantissa.length := by
  simp [fractionLength]

def ZeroDigits (mantissa : List Char) : Prop := ∀ c ∈ mantissa, c = '0' ∨ c = '.'

theorem digitOf_eq_zero {c : Char} (digit : c.isDigit = true) : digitOf c = 0 ↔ c = '0' := by
  have bounds : '0'.toNat ≤ c.toNat := by
    have both : '0'.toNat ≤ c.toNat ∧ c.toNat ≤ '9'.toNat := by
      simpa [Char.isDigit, UInt32.le_iff_toNat_le] using digit
    exact both.1
  constructor
  · intro none
    rw [digitOf] at none
    exact Char.toNat_inj.mp (by omega)
  · rintro rfl
    rfl

theorem scanDigits_text {cp rest : List Char} {haveDp : Bool} {dweight dscale dweight' dscale' : Int}
    {decdigits : List Int} (run : scanDigits cp haveDp dweight dscale =
      some (decdigits, dweight', dscale', rest)) :
    rest = cp.dropWhile inMantissa ∧
      ((∀ d ∈ decdigits, d = 0) ↔ ZeroDigits (cp.takeWhile inMantissa)) ∧
      dscale' = dscale + (if haveDp then (cp.takeWhile inMantissa).length
        else fractionLength (cp.takeWhile inMantissa) : Nat) := by
  induction cp generalizing haveDp dweight dscale decdigits with
  | nil =>
      cases run
      cases haveDp with
      | true => simp [ZeroDigits]
      | false => simp [ZeroDigits, fractionLength]
  | cons c cp ih =>
      by_cases digit : c.isDigit = true
      · have inside : inMantissa c = true := by rw [inMantissa, digit, Bool.true_or]
        have notPoint : c ≠ '.' := by
          rintro rfl
          exact absurd digit (by decide)
        have first : digitOf c = 0 ↔ c = '0' ∨ c = '.' := by
          rw [digitOf_eq_zero digit, or_iff_left notPoint]
        obtain ⟨later, rfl, laterRun⟩ := scanDigits_digit digit run
        obtain ⟨text, zeros, fraction⟩ := ih laterRun
        rw [List.dropWhile_cons_of_pos inside, List.takeWhile_cons_of_pos inside]
        refine ⟨text, ?_, ?_⟩
        · rw [List.forall_mem_cons, ZeroDigits, List.forall_mem_cons, zeros, first]
          rfl
        · rw [fraction, fractionLength_other notPoint, List.length_cons]
          cases haveDp with
          | true =>
              simp only [if_true]
              omega
          | false => rfl
      · rw [scanDigits, if_neg digit] at run
        by_cases point : c = '.'
        · rw [if_pos point] at run
          cases haveDp with
          | true => exact absurd run (by simp)
          | false =>
              obtain ⟨text, zeros, fraction⟩ := ih run
              have inside : inMantissa c = true := by rw [point]; rfl
              rw [List.dropWhile_cons_of_pos inside, List.takeWhile_cons_of_pos inside]
              refine ⟨text, ?_, ?_⟩
              · rw [ZeroDigits, List.forall_mem_cons, zeros, point]
                simp [ZeroDigits]
              · rw [fraction, point, fractionLength_point]
                rfl
        · rw [if_neg point] at run
          cases run
          have outside : ¬inMantissa c = true := by
            simp [inMantissa, digit, point]
          rw [List.dropWhile_cons_of_neg outside, List.takeWhile_cons_of_neg outside]
          cases haveDp with
          | true => simp [ZeroDigits]
          | false => simp [ZeroDigits, fractionLength]

def exponentOf : List Char → Int
  | [] => 0
  | c :: cp => if c = 'e' ∨ c = 'E' then (strtol cp).elim 0 Prod.fst else 0

theorem scanExponent_text {cp rest : List Char} {dweight dscale dweight' dscale' : Int}
    (scale : 0 ≤ dscale) (run : scanExponent dweight dscale cp = some (dweight', dscale', rest)) :
    dscale' = max (dscale - exponentOf cp) 0 := by
  cases cp with
  | nil =>
      cases run
      simp [exponentOf, scale]
  | cons c cp =>
      rw [scanExponent] at run
      rw [exponentOf]
      split at run
      · next mark =>
          obtain ⟨⟨exponent, after⟩, read, run⟩ := Option.bind_eq_some_iff.mp run
          dsimp only at run
          split at run
          · exact absurd run (by simp)
          · cases run
            rw [if_pos mark, read]
            rfl
      · next mark =>
          cases run
          rw [if_neg mark, sub_zero, max_eq_left scale]

theorem forall_four (ds : List Int) : (∀ d ∈ ds, d = 0) ↔
    ds.getD 0 0 = 0 ∧ ds.getD 1 0 = 0 ∧ ds.getD 2 0 = 0 ∧ ds.getD 3 0 = 0 ∧
      ∀ d ∈ ds.drop 4, d = 0 := by
  rcases ds with _ | ⟨a, _ | ⟨b, _ | ⟨c, _ | ⟨d, ds⟩⟩⟩⟩
  all_goals simp

theorem packDigits_zero {ndigits : Nat} {decdigits : List Int} (range : DecimalDigits decdigits)
    (enough : decdigits.length ≤ 4 * ndigits) :
    (∀ d ∈ packDigits ndigits decdigits, d = 0) ↔ ∀ d ∈ decdigits, d = 0 := by
  induction ndigits generalizing decdigits with
  | zero =>
      have none : decdigits = [] := List.length_eq_zero_iff.mp (by omega)
      rw [none]
      simp [packDigits]
  | succ ndigits ih =>
      have first := range.getD 0
      have second := range.getD 1
      have third := range.getD 2
      have fourth := range.getD 3
      have rest := ih (fun digit member => range digit (List.mem_of_mem_drop member))
        (show (decdigits.drop 4).length ≤ 4 * ndigits by rw [List.length_drop]; omega)
      rw [packDigits, List.forall_mem_cons, rest, forall_four decdigits]
      constructor
      · rintro ⟨packed, others⟩
        exact ⟨by omega, by omega, by omega, by omega, others⟩
      · rintro ⟨a, b, c, d, others⟩
        exact ⟨by omega, others⟩

theorem stripVar_nil_iff {var : Numeric} (digits : Radix.Digits nbase var.digits)
    (sign : var.sign = numericPos ∨ var.sign = numericNeg) :
    (stripVar var).digits = [] ↔ ∀ d ∈ var.digits, d = 0 := by
  obtain ⟨stripped, same, _, _⟩ := stripVar_spec var digits sign
  constructor
  · intro none
    by_contra some
    push Not at some
    have positive := Radix.magnitude_pos nbase_pos digits var.weight some
    rw [Numeric.magnitude_of_nil none, Numeric.magnitude] at same
    exact absurd same positive.ne
  · intro zeros
    by_contra some
    have positive := stripped.wellFormed.magnitude_pos some
    rw [same, Numeric.magnitude, Radix.magnitude_of_zeros _ _ zeros] at positive
    exact absurd positive (lt_irrefl 0)

theorem offset_nonneg (dweight : Int) : 0 ≤ (weightOf dweight + 1) * decDigits - (dweight + 1) := by
  rw [weightOf, decDigits]
  split
  · rw [Int.tdiv_eq_ediv_of_nonneg (by omega)]
    omega
  · rw [Int.tdiv_eq_ediv_of_nonneg (by omega)]
    omega

theorem packed_zero {decdigits : List Int} (range : DecimalDigits decdigits) {pad : Int}
    (nonneg : 0 ≤ pad) (weight : Int) {sign : Int} (valid : sign = numericPos ∨ sign = numericNeg)
    (dscale : Int) :
    let digits := packDigits (((decdigits.length : Int) + pad + decDigits - 1).tdiv decDigits).toNat
      (List.replicate pad.toNat 0 ++ decdigits)
    ((stripVar { spare := 1, digits, weight, sign, dscale }).digits = [] ↔
        ∀ d ∈ decdigits, d = 0) ∧
      (stripVar { spare := 1, digits, weight, sign, dscale }).dscale = dscale := by
  intro digits
  have padded : DecimalDigits (List.replicate pad.toNat 0 ++ decdigits) := by
    intro digit member
    rcases List.mem_append.mp member with zero | own
    · rw [List.eq_of_mem_replicate zero]
      exact ⟨le_refl 0, by decide⟩
    · exact range digit own
  have enough : (List.replicate pad.toNat (0 : Int) ++ decdigits).length ≤
      4 * (((decdigits.length : Int) + pad + decDigits - 1).tdiv decDigits).toNat := by
    have four : decDigits = 4 := rfl
    rw [four, Int.tdiv_eq_ediv_of_nonneg (by omega), List.length_append, List.length_replicate]
    omega
  have packed : Radix.Digits nbase digits := packDigits_range _ padded
  refine ⟨?_, (stripVar_spec { spare := 1, digits, weight, sign, dscale } packed valid).2.2.1⟩
  rw [@stripVar_nil_iff { spare := 1, digits, weight, sign, dscale } packed valid]
  refine (packDigits_zero padded enough).trans ?_
  rw [List.forall_mem_append]
  exact and_iff_right fun digit member => List.eq_of_mem_replicate member

/-- The digits in front of what is left are zeros, and the exponent takes all places behind the
point away. -/
def ZeroLiteral (cp : List Char) : Prop :=
  let cp := (scanSign cp).2
  ZeroDigits (cp.takeWhile inMantissa) ∧
    (fractionLength (cp.takeWhile inMantissa) : Int) ≤ exponentOf (cp.dropWhile inMantissa)

theorem scanPoint_text {cp rest : List Char} {haveDp : Bool} (point : scanPoint cp = (haveDp, rest)) :
    cp.dropWhile inMantissa = rest.dropWhile inMantissa ∧
      (ZeroDigits (cp.takeWhile inMantissa) ↔ ZeroDigits (rest.takeWhile inMantissa)) ∧
      fractionLength (cp.takeWhile inMantissa) =
        if haveDp then (rest.takeWhile inMantissa).length
        else fractionLength (rest.takeWhile inMantissa) := by
  rw [scanPoint.eq_def] at point
  split at point
  · next after =>
      obtain ⟨rfl, rfl⟩ := Prod.mk.inj point
      have inside : inMantissa '.' = true := rfl
      rw [List.dropWhile_cons_of_pos inside, List.takeWhile_cons_of_pos inside]
      refine ⟨rfl, ?_, ?_⟩
      · rw [ZeroDigits, List.forall_mem_cons]
        simp [ZeroDigits]
      · rw [fractionLength_point]
        rfl
  · obtain ⟨rfl, rfl⟩ := Prod.mk.inj point
    exact ⟨rfl, Iff.rfl, rfl⟩

theorem setVarFromStr_zero {cp rest : List Char} {var : Numeric}
    (run : setVarFromStr cp = some (var, rest)) :
    var.digits = [] ∧ var.dscale = 0 ↔ ZeroLiteral cp := by
  have valid := scanSign_valid cp
  rw [ZeroLiteral]
  rw [setVarFromStr] at run
  generalize scanSign cp = signed at run valid
  obtain ⟨sign, cp⟩ := signed
  dsimp only at run ⊢
  rcases pointed : scanPoint cp with ⟨haveDp, behind⟩
  obtain ⟨sameRest, sameZeros, sameFraction⟩ := scanPoint_text pointed
  rw [pointed] at run
  dsimp only at run
  split at run
  · exact absurd run (by simp)
  · obtain ⟨⟨decdigits, dweight, dscale, after⟩, scanned, run⟩ := Option.bind_eq_some_iff.mp run
    obtain ⟨⟨dweight', dscale', left⟩, exponent, run⟩ := Option.bind_eq_some_iff.mp run
    obtain ⟨range, scale⟩ := scanDigits_range scanned
    obtain ⟨text, zeros, fraction⟩ := scanDigits_text scanned
    have finalScale := scanExponent_text scale exponent
    dsimp only at finalScale
    cases run
    have offset := offset_nonneg dweight'
    generalize (weightOf dweight' + 1) * decDigits - (dweight' + 1) = pad at offset ⊢
    obtain ⟨nil, kept⟩ := packed_zero range offset (weightOf dweight') valid dscale'
    rw [nil, kept, finalScale, zeros, sameZeros, sameRest, sameFraction, ← text]
    apply and_congr Iff.rfl
    omega

/-- What the constructor looks at: the text up to its end, without spaces in front. -/
def literalText (s : List Char) : List Char := (cString s).dropWhile isSpace

/-- The text is none of NaN, and either its scan throws or characters are left that are not
spaces. -/
structure RejectedText (s : List Char) : Prop where
  notNan : startsNan (literalText s) = false
  rejected : ∀ var rest, setVarFromStr (literalText s) = some (var, rest) →
    rest.all isSpace = false

namespace Numeric

structure CleanNan (x : Numeric) : Prop where
  nan : x.isNan = true
  digits : x.digits = []
  weight : x.weight = 0
  dscale : x.dscale = 0

theorem ofText_of_throw {s : List Char} (notNan : startsNan (literalText s) = false)
    (thrown : setVarFromStr (literalText s) = none) : ofText s = nan := by
  rw [literalText] at notNan thrown
  rw [ofText, if_neg (by rw [notNan]; simp), thrown]

theorem ofText_of_junk {s rest : List Char} {var : Numeric}
    (notNan : startsNan (literalText s) = false)
    (scanned : setVarFromStr (literalText s) = some (var, rest)) (junk : rest.all isSpace = false) :
    ofText s = { var with sign := numericNan } := by
  rw [literalText] at notNan scanned
  rw [ofText, if_neg (by rw [notNan]; simp), scanned]
  simp only [junk]
  rfl

theorem rejected_clean_iff {s : List Char} (rejected : RejectedText s) :
    CleanNan (ofText s) ↔
      setVarFromStr (literalText s) = none ∨ ZeroLiteral (literalText s) := by
  rcases scanned : setVarFromStr (literalText s) with _ | ⟨var, rest⟩
  · rw [ofText_of_throw rejected.notNan scanned]
    exact ⟨fun _ => Or.inl rfl, fun _ => ⟨rfl, rfl, rfl, rfl⟩⟩
  · rw [ofText_of_junk rejected.notNan scanned (rejected.rejected var rest scanned)]
    have zero := setVarFromStr_zero scanned
    constructor
    · intro clean
      exact Or.inr (zero.mp ⟨clean.digits, clean.dscale⟩)
    · rintro (none | literal)
      · exact absurd none (by simp)
      · obtain ⟨digits, dscale⟩ := zero.mpr literal
        exact ⟨rfl, digits, (setVarFromStr_finite scanned).zero digits, dscale⟩

/-- Arithmetic, comparison and printing never treat NaN as such, and of the rejected texts only
those that throw, or whose number is a zero without decimal places, leave a NaN with nothing
else in it. -/
theorem nan_is_a_number (n x : Numeric) (obtainedN : n.Obtained) (nan : n.isNan = true)
    (obtainedX : x.Obtained) (s : List Char) (rejected : RejectedText s) :
    (¬GivesNan (x.add n) ∧ ¬GivesNan (x.sub n) ∧ ¬GivesNan (x.mul n) ∧ ¬GivesNan (x.div n) ∧
      ¬GivesNan (x.mod n)) ∧
    (¬GivesNan (n.add x) ∧ ¬GivesNan (n.sub x) ∧ ¬GivesNan (n.mul x) ∧ ¬GivesNan (n.div x) ∧
      ¬GivesNan (n.mod x)) ∧
    (∃ y : Numeric, y.Obtained ∧ y.isNan = false ∧ n.equal y = true ∧ y.equal n = true) ∧
    (∃ y : Numeric, y.Obtained ∧ y.isNan = false ∧ n.text = y.text) ∧
    (CleanNan (ofText s) ↔
      setVarFromStr (literalText s) = none ∨ ZeroLiteral (literalText s)) :=
  ⟨arithmetic_not_nan obtainedX.known.toTrimmed obtainedN.known.toTrimmed,
    arithmetic_not_nan obtainedN.known.toTrimmed obtainedX.known.toTrimmed,
    exists_equal_of_nan obtainedN nan, exists_text_of_nan obtainedN nan,
    rejected_clean_iff rejected⟩

theorem nan_is_a_number_junk :
    ¬GivesNan ((ofText ['N', 'a', 'N']).add (ofText ['1'])) ∧ ¬CleanNan (ofText ['1', '2', 'x']) := by
  have rejected : RejectedText ['1', '2', 'x'] := by
    refine ⟨by decide, ?_⟩
    intro var rest scanned
    have left : setVarFromStr (literalText ['1', '2', 'x']) =
        some ({ spare := 1, digits := [12], weight := 0, sign := 0, dscale := 0 }, ['x']) := by
      decide
    rw [left] at scanned
    cases scanned
    rfl
  obtain ⟨_, left, _, _, clean⟩ := nan_is_a_number (ofText ['N', 'a', 'N']) (ofText ['1'])
    (.ofText ['N', 'a', 'N']) (by decide) (.ofText ['1']) ['1', '2', 'x'] rejected
  refine ⟨left.1, ?_⟩
  rw [clean]
  rintro (thrown | ⟨zeros, _⟩)
  · exact absurd thrown (by decide)
  · exact absurd (zeros '1' (by decide)) (by decide)

/-- NaN plus one is a number, NaN equals zero and prints as zero, and a rejected
text keeps its digits. -/
theorem nan_forgotten :
    (ofText ['N', 'a', 'N']).isNan = true ∧
      ((ofText ['N', 'a', 'N']).add (ofText ['1'])).map isNan = .ok false ∧
      (ofText ['N', 'a', 'N']).equal (ofText ['0']) = true ∧
      (ofText ['N', 'a', 'N']).text = (ofText ['0']).text ∧
      (ofText ['1', '2', 'x']).isNan = true ∧ (ofText ['1', '2', 'x']).digits = [12] := by
  decide

end Numeric

end Rejected

end PqAsync
