import PqAsync.Library.Buffer
import PqAsync.NumericDecimal

/-!
The buffers of the parser, with every access and every `int` of an index or a size checked. What
is read is what is read without them unless an `int` overflows, whatever the text; no index leaves
its buffer and no cell is read before it was stored.
-/

namespace PqAsync

open Buffer Results Numeric

/-- The loop over digits and the point, which stores the digits from the index `i` on. -/
def scanInto : List Char → Bool → List (Option Int) → Int → Int → Int →
    Except Fault (Option (List (Option Int) × Int × Int × Int × List Char))
  | [], _, decdigits, i, dweight, dscale => .ok (some (decdigits, i, dweight, dscale, []))
  | c :: cp, haveDp, decdigits, i, dweight, dscale =>
      if c.isDigit then do
        let decdigits ← store decdigits i (digitOf c)
        let i ← checkedIndex (i + 1)
        if haveDp then
          let dscale ← checkedIndex (dscale + 1)
          scanInto cp haveDp decdigits i dweight dscale
        else
          let dweight ← checkedIndex (dweight + 1)
          scanInto cp haveDp decdigits i dweight dscale
      else if c = '.' then
        if haveDp then .ok none else scanInto cp true decdigits i dweight dscale
      else .ok (some (decdigits, i, dweight, dscale, c :: cp))

def scanText (cp : List Char) (haveDp : Bool) :
    Except Fault (Option (List (Option Int) × Int × Int × Int × List Char)) := do
  let decdigits ← allocate Int (cp.length + decDigits * 2)
  let decdigits ← storeAll decdigits 0 (List.replicate decDigits.toNat 0)
  match ← scanInto cp haveDp decdigits decDigits (-1) 0 with
  | none => return none
  | some (decdigits, i, dweight, dscale, cp) =>
      let decdigits ← storeAll decdigits i (List.replicate (decDigits - 1).toNat 0)
      return some (decdigits, i - decDigits, dweight, dscale, cp)

def scanExponentIn (dweight dscale : Int) :
    List Char → Except Fault (Option (Int × Int × List Char))
  | [] => .ok (some (dweight, dscale, []))
  | c :: cp =>
      if c = 'e' ∨ c = 'E' then
        match strtol cp with
        | none => .ok none
        | some (exponent, cp) =>
            if exponent ≥ intMax.tdiv 2 ∨ exponent ≤ -intMax.tdiv 2 then .ok none
            else do
              let dweight ← checkedIndex (dweight + exponent)
              let dscale ← checkedIndex (dscale - exponent)
              return some (dweight, max dscale 0, cp)
      else .ok (some (dweight, dscale, c :: cp))

def checkedWeight (dweight : Int) : Except Fault Int :=
  if dweight ≥ 0 then do
    let places ← checkedIndex (dweight + 1)
    let places ← checkedIndex (places + decDigits)
    return (places - 1).tdiv decDigits - 1
  else do
    let places ← checkedIndex (-dweight)
    return -((places - 1).tdiv decDigits + 1)

def alignment (ddigits dweight : Int) : Except Fault (Int × Int × Int) := do
  let weight ← checkedWeight dweight
  let front ← checkedIndex ((weight + 1) * decDigits)
  let digits ← checkedIndex (dweight + 1)
  let offset ← checkedIndex (front - digits)
  let places ← checkedIndex (ddigits + offset)
  let places ← checkedIndex (places + decDigits)
  return (weight, offset, (places - 1).tdiv decDigits)

/-- The loop that packs four decimal digits from the index `i` on into each digit. -/
def packInto (decdigits : List (Option Int)) : Nat → Int → List (Option Int) → Int →
    Except Fault (List (Option Int))
  | 0, _, buf, _ => .ok buf
  | ndigits + 1, i, buf, digits => do
      -- the indices of the reads are below the next one
      let next ← checkedIndex (i + decDigits)
      let d1 ← load decdigits i
      let d2 ← load decdigits (i + 1)
      let d3 ← load decdigits (i + 2)
      let d4 ← load decdigits (i + 3)
      let buf ← store buf digits (((d1 * 10 + d2) * 10 + d3) * 10 + d4)
      packInto decdigits ndigits next buf (digits + 1)

def packedDigits (decdigits : List (Option Int)) (offset ndigits : Int) :
    Except Fault (List Int) := do
  let size ← checkedIndex (ndigits + 1)
  let buf ← allocate Int size
  let buf ← store buf 0 0
  let buf ← packInto decdigits ndigits.toNat (decDigits - offset) buf 1
  loadAll buf ndigits.toNat 1

def placeDigits (sign : Int) (decdigits : List (Option Int)) (ddigits dweight dscale : Int)
    (cp : List Char) : Except Fault (Option (Numeric × List Char)) := do
  match ← scanExponentIn dweight dscale cp with
  | none => return none
  | some (dweight, dscale, cp) =>
      let (weight, offset, ndigits) ← alignment ddigits dweight
      let digits ← packedDigits decdigits offset ndigits
      return some (stripVar { spare := 1, digits, weight, sign, dscale }, cp)

/-- `set_var_from_str` on a text without its NUL; `none` is its exception. -/
def setVarFromStrIn (cp : List Char) : Except Fault (Option (Numeric × List Char)) := do
  let (sign, cp) := scanSign cp
  let (haveDp, cp) := scanPoint cp
  if !(cp.headD '\x00').isDigit then return none
  else
    match ← scanText cp haveDp with
    | none => return none
    | some (decdigits, ddigits, dweight, dscale, cp) =>
        placeDigits sign decdigits ddigits dweight dscale cp

def digitCount : List Char → Bool → Nat
  | [], _ => 0
  | c :: cp, haveDp =>
      if c.isDigit then digitCount cp haveDp + 1
      else if c = '.' then if haveDp then 0 else digitCount cp true
      else 0

theorem digitCount_cons {c : Char} (digit : c.isDigit = true) (cp : List Char) (haveDp : Bool) :
    digitCount (c :: cp) haveDp = digitCount cp haveDp + 1 := if_pos digit

theorem scanDigits_counts {cp rest : List Char} {haveDp : Bool} {found : List Int}
    {dweight dscale dweight' dscale' : Int}
    (scanned : scanDigits cp haveDp dweight dscale = some (found, dweight', dscale', rest)) :
    found.length = digitCount cp haveDp ∧ dweight ≤ dweight' ∧ dscale ≤ dscale' ∧
      dweight' + dscale' = dweight + dscale + found.length := by
  induction cp generalizing haveDp found dweight dscale with
  | nil =>
      cases scanned
      simp [digitCount]
  | cons c cp ih =>
      by_cases digit : c.isDigit = true
      · rw [scanDigits_cons digit, Option.map_eq_some_iff] at scanned
        obtain ⟨⟨others, _, _, _⟩, later, same⟩ := scanned
        cases same
        obtain ⟨length, weight, scale, total⟩ := ih later
        rw [digitCount_cons digit, List.length_cons, length]
        cases haveDp with
        | true =>
            simp only [if_true] at weight scale total
            refine ⟨rfl, weight, by omega, by omega⟩
        | false =>
            simp only [Bool.false_eq_true, if_false] at weight scale total
            refine ⟨rfl, by omega, scale, by omega⟩
      · rw [scanDigits, if_neg digit] at scanned
        rw [digitCount, if_neg digit]
        by_cases point : c = '.'
        · rw [if_pos point] at scanned ⊢
          cases haveDp with
          | true => cases scanned
          | false => exact ih scanned
        · rw [if_neg point] at scanned ⊢
          cases scanned
          simp

theorem scanInto_cons {c : Char} (digit : c.isDigit = true) (cp : List Char) (haveDp : Bool)
    {decdigits middle : List (Option Int)} {i dweight dscale : Int}
    (first : store decdigits i (digitOf c) = .ok middle) (fits : 0 ≤ i ∧ i + 1 < 2 ^ 31)
    (weight : -1 ≤ dweight ∧ dweight ≤ i) (scale : 0 ≤ dscale ∧ dscale ≤ i) :
    scanInto (c :: cp) haveDp decdigits i dweight dscale =
      scanInto cp haveDp middle (i + 1) (if haveDp then dweight else dweight + 1)
        (if haveDp then dscale + 1 else dscale) := by
  rw [scanInto, if_pos digit, first, ok_bind, checkedIndex_ok (by omega) fits.2, ok_bind]
  cases haveDp with
  | true =>
      simp only [if_true]
      rw [checkedIndex_ok (by omega) (by omega), ok_bind]
  | false =>
      simp only [Bool.false_eq_true, if_false]
      rw [checkedIndex_ok (by omega) (by omega), ok_bind]

theorem scanInto_spec {cp : List Char} {haveDp : Bool} {decdigits : List (Option Int)}
    {stored : List Int} {free : Nat} {dweight dscale : Int}
    (filled : Filled decdigits stored (cp.length + free))
    (fits : stored.length + digitCount cp haveDp < 2 ^ 31)
    (weight : -1 ≤ dweight ∧ dweight ≤ stored.length)
    (scale : 0 ≤ dscale ∧ dscale ≤ stored.length) :
    match scanDigits cp haveDp dweight dscale with
    | none => scanInto cp haveDp decdigits stored.length dweight dscale = .ok none
    | some (found, dweight', dscale', rest) => ∃ next more,
        scanInto cp haveDp decdigits stored.length dweight dscale =
          .ok (some (next, (stored ++ found).length, dweight', dscale', rest)) ∧
        Filled next (stored ++ found) (more + free) := by
  induction cp generalizing haveDp decdigits stored free dweight dscale with
  | nil =>
      refine ⟨decdigits, 0, ?_, ?_⟩
      · rw [List.append_nil]
        rfl
      · rw [List.append_nil]
        exact filled
  | cons c cp ih =>
      by_cases digit : c.isDigit = true
      · rw [List.length_cons, Nat.add_right_comm] at filled
        rw [digitCount_cons digit] at fits
        obtain ⟨middle, first, filledMiddle⟩ := filled.store (digitOf c)
        have stepped : (stored ++ [digitOf c]).length = stored.length + 1 := by simp
        have rest := @ih haveDp _ _ _ (if haveDp then dweight else dweight + 1)
          (if haveDp then dscale + 1 else dscale) filledMiddle (by omega)
          (by split <;> omega) (by split <;> omega)
        rw [stepped, Nat.cast_add, Nat.cast_one] at rest
        rw [scanDigits_cons digit, scanInto_cons digit cp haveDp first (by omega) weight scale]
        cases found : scanDigits cp haveDp (if haveDp then dweight else dweight + 1)
            (if haveDp then dscale + 1 else dscale) with
        | none =>
            rw [found] at rest
            exact rest
        | some result =>
            obtain ⟨digits, dweight', dscale', left⟩ := result
            rw [found] at rest
            obtain ⟨next, more, run, filledNext⟩ := rest
            rw [List.append_assoc] at run filledNext
            exact ⟨next, more, run, filledNext⟩
      · rw [digitCount, if_neg digit] at fits
        by_cases point : c = '.'
        · rw [if_pos point] at fits
          rw [scanDigits, scanInto, if_neg digit, if_pos point, if_neg digit, if_pos point]
          cases haveDp with
          | true => rfl
          | false =>
              rw [List.length_cons, Nat.add_assoc, Nat.add_comm 1] at filled
              have rest := @ih true _ _ _ _ _ filled fits weight scale
              simp only [Bool.false_eq_true, if_false]
              cases found : scanDigits cp true dweight dscale with
              | none =>
                  rw [found] at rest
                  exact rest
              | some result =>
                  rw [found] at rest
                  obtain ⟨next, more, run, filledNext⟩ := rest
                  refine ⟨next, more + 1, run, ?_⟩
                  rw [Nat.add_right_comm, Nat.add_assoc]
                  exact filledNext
        · rw [scanDigits, scanInto, if_neg digit, if_neg point, if_neg digit, if_neg point]
          refine ⟨decdigits, (c :: cp).length, ?_, ?_⟩
          · rw [List.append_nil]
          · rw [List.append_nil]
            exact filled

theorem scanInto_overflows {cp : List Char} {haveDp : Bool} {decdigits : List (Option Int)}
    {stored : List Int} {free : Nat} {dweight dscale : Int}
    (filled : Filled decdigits stored (cp.length + free)) (fits : stored.length < 2 ^ 31)
    (beyond : 2 ^ 31 ≤ stored.length + digitCount cp haveDp)
    (weight : -1 ≤ dweight ∧ dweight ≤ stored.length)
    (scale : 0 ≤ dscale ∧ dscale ≤ stored.length) :
    scanInto cp haveDp decdigits stored.length dweight dscale = .error .overflow := by
  induction cp generalizing haveDp decdigits stored free dweight dscale with
  | nil =>
      rw [digitCount] at beyond
      omega
  | cons c cp ih =>
      by_cases digit : c.isDigit = true
      · rw [List.length_cons, Nat.add_right_comm] at filled
        rw [digitCount_cons digit] at beyond
        obtain ⟨middle, first, filledMiddle⟩ := filled.store (digitOf c)
        by_cases next : stored.length + 1 < 2 ^ 31
        · have stepped : (stored ++ [digitOf c]).length = stored.length + 1 := by simp
          have rest := @ih haveDp _ _ _ (if haveDp then dweight else dweight + 1)
            (if haveDp then dscale + 1 else dscale) filledMiddle (by omega) (by omega)
            (by split <;> omega) (by split <;> omega)
          rw [stepped, Nat.cast_add, Nat.cast_one] at rest
          rw [scanInto_cons digit cp haveDp first (by omega) weight scale]
          exact rest
        · rw [scanInto, if_pos digit, first, ok_bind, checkedIndex_overflows (by omega)]
          rfl
      · rw [digitCount, if_neg digit] at beyond
        rw [scanInto, if_neg digit]
        by_cases point : c = '.'
        · rw [if_pos point] at beyond ⊢
          cases haveDp with
          | true =>
              rw [if_pos rfl] at beyond
              omega
          | false =>
              rw [List.length_cons, Nat.add_assoc, Nat.add_comm 1] at filled
              exact ih filled fits beyond weight scale
        · rw [if_neg point] at beyond
          omega

section

variable {cp : List Char} {haveDp : Bool}

theorem scanText_padded : ∃ decdigits padded,
    allocate Int (cp.length + decDigits * 2) = .ok decdigits ∧
      storeAll decdigits 0 (List.replicate decDigits.toNat 0) = .ok padded ∧
      Filled padded (List.replicate 4 0) (cp.length + 4) := by
  have four : decDigits = 4 := rfl
  have size : ((cp.length : Int) + decDigits * 2).toNat = 4 + (cp.length + 4) := by omega
  obtain ⟨decdigits, allocated, empty⟩ :=
    @allocate_filled Int ((cp.length : Int) + decDigits * 2) (by omega)
  rw [size] at empty
  obtain ⟨padded, leading, filled⟩ := @Filled.storeAll _ _ _ _ (List.replicate 4 0) empty
  exact ⟨decdigits, padded, allocated, leading, filled⟩

theorem scanText_spec (fits : digitCount cp haveDp + 4 < 2 ^ 31) :
    match scanDigits cp haveDp (-1) 0 with
    | none => scanText cp haveDp = .ok none
    | some (found, dweight, dscale, rest) => ∃ trailed free,
        scanText cp haveDp = .ok (some (trailed, found.length, dweight, dscale, rest)) ∧
        Filled trailed (List.replicate 4 0 ++ found ++ List.replicate 3 0) free := by
  obtain ⟨decdigits, padded, allocated, leading, filled⟩ := @scanText_padded cp
  have four : (List.replicate 4 (0 : Int)).length = 4 := rfl
  have scanned := @scanInto_spec cp haveDp _ _ _ (-1) 0 filled (by omega) (by omega) (by omega)
  rw [scanText, allocated, ok_bind, leading, ok_bind]
  cases found : scanDigits cp haveDp (-1) 0 with
  | none =>
      have run : scanInto cp haveDp padded decDigits (-1) 0 = .ok none := by
        rw [found] at scanned
        exact scanned
      rw [run]
      rfl
  | some result =>
      obtain ⟨digits, dweight, dscale, rest⟩ := result
      rw [found] at scanned
      obtain ⟨next, more, run, filledNext⟩ := scanned
      have start : scanInto cp haveDp padded decDigits (-1) 0 = .ok (some (next,
          ((List.replicate 4 0 ++ digits : List Int).length : Int), dweight, dscale, rest)) := run
      obtain ⟨trailed, trailing, filledAll⟩ :=
        @Filled.storeText _ _ _ _ (List.replicate 3 0) filledNext (by simp)
      have behind : storeAll next ((List.replicate 4 0 ++ digits : List Int).length : Int)
          (List.replicate (decDigits - 1).toNat 0) = .ok trailed := trailing
      have count : ((List.replicate 4 0 ++ digits : List Int).length : Int) - decDigits =
          digits.length := by
        rw [decDigits, List.length_append, List.length_replicate]
        push_cast
        ring
      refine ⟨trailed, _, ?_, filledAll⟩
      rw [start, ok_bind]
      dsimp only
      rw [behind, ok_bind, count]
      rfl

theorem scanText_overflows (beyond : 2 ^ 31 ≤ digitCount cp haveDp + 4) :
    scanText cp haveDp = .error .overflow := by
  obtain ⟨decdigits, padded, allocated, leading, filled⟩ := @scanText_padded cp
  have four : (List.replicate 4 (0 : Int)).length = 4 := rfl
  have run : scanInto cp haveDp padded decDigits (-1) 0 = .error .overflow :=
    @scanInto_overflows cp haveDp _ _ _ (-1) 0 filled (by decide) (by omega) (by omega) (by omega)
  rw [scanText, allocated, ok_bind, leading, ok_bind, run]
  rfl

end

section

variable {cp rest : List Char} {dweight dscale dweight' dscale' : Int}

theorem scanExponent_low (moved : scanExponent dweight dscale cp = some (dweight', dscale', rest)) :
    dweight - 2 ^ 30 ≤ dweight' := by
  cases cp with
  | nil =>
      cases moved
      omega
  | cons c cp =>
      rw [scanExponent] at moved
      split at moved
      · rw [Option.bind_eq_bind, Option.bind_eq_some_iff] at moved
        obtain ⟨⟨exponent, left⟩, _, kept⟩ := moved
        have half : intMax.tdiv 2 = 1073741823 := rfl
        dsimp only at kept
        split at kept
        · cases kept
        · cases kept
          omega
      · cases moved
        omega

def ExponentFits (dweight dscale dweight' : Int) : Prop :=
  dweight' < 2 ^ 31 ∧ dscale + dweight - dweight' < 2 ^ 31

theorem scanExponentIn_none (none_ : scanExponent dweight dscale cp = none) :
    scanExponentIn dweight dscale cp = .ok none := by
  cases cp with
  | nil => cases none_
  | cons c cp =>
      rw [scanExponent] at none_
      rw [scanExponentIn]
      split at none_
      · next marked =>
          rw [if_pos marked]
          cases parsed : strtol cp with
          | none => rfl
          | some read =>
              obtain ⟨exponent, left⟩ := read
              rw [parsed] at none_
              dsimp only [bind, Option.bind] at none_ ⊢
              split at none_
              · next large => rw [if_pos large]
              · cases none_
      · cases none_

theorem scanExponentIn_some (moved : scanExponent dweight dscale cp = some (dweight', dscale', rest))
    (weight : -1 ≤ dweight ∧ dweight < 2 ^ 31) (scale : 0 ≤ dscale ∧ dscale < 2 ^ 31) :
    (ExponentFits dweight dscale dweight' →
      scanExponentIn dweight dscale cp = .ok (some (dweight', dscale', rest))) ∧
    (¬ExponentFits dweight dscale dweight' →
      scanExponentIn dweight dscale cp = .error .overflow) := by
  cases cp with
  | nil =>
      cases moved
      exact ⟨fun _ => rfl, fun beyond => absurd ⟨weight.2, by omega⟩ beyond⟩
  | cons c cp =>
      rw [scanExponent] at moved
      rw [scanExponentIn]
      split at moved
      · next marked =>
          rw [if_pos marked]
          rw [Option.bind_eq_bind, Option.bind_eq_some_iff] at moved
          obtain ⟨⟨exponent, left⟩, parsed, kept⟩ := moved
          have half : intMax.tdiv 2 = 1073741823 := rfl
          rw [parsed]
          dsimp only at kept ⊢
          split at kept
          · cases kept
          · next small =>
              cases kept
              rw [if_neg small]
              constructor
              · rintro ⟨fits, room⟩
                rw [checkedIndex_ok (by omega) fits, ok_bind,
                  checkedIndex_ok (by omega) (by omega)]
                rfl
              · intro beyond
                by_cases fits : dweight + exponent < 2 ^ 31
                · have room : 2 ^ 31 ≤ dscale - exponent := by
                    by_contra inside
                    exact beyond ⟨fits, by omega⟩
                  rw [checkedIndex_ok (by omega) fits, ok_bind, checkedIndex_overflows room]
                  rfl
                · rw [checkedIndex_overflows (by omega)]
                  rfl
      · next unmarked =>
          cases moved
          rw [if_neg unmarked]
          exact ⟨fun _ => rfl, fun beyond => absurd ⟨weight.2, by omega⟩ beyond⟩

end

def alignOffset (dweight : Int) : Int := -(dweight + 1) % 4

theorem offset_eq (dweight : Int) :
    (weightOf dweight + 1) * decDigits - (dweight + 1) = alignOffset dweight := by
  have four : decDigits = 4 := rfl
  rw [weightOf, four, alignOffset]
  by_cases nonneg : dweight ≥ 0
  · rw [if_pos nonneg, Int.tdiv_eq_ediv_of_nonneg (by omega)]
    omega
  · rw [if_neg nonneg, Int.tdiv_eq_ediv_of_nonneg (by omega)]
    omega

theorem alignOffset_range (dweight : Int) : 0 ≤ alignOffset dweight ∧ alignOffset dweight ≤ 3 := by
  rw [alignOffset]
  omega

theorem checkedWeight_ok {dweight : Int} (low : -2 ^ 31 < dweight) (fits : dweight + 5 < 2 ^ 31) :
    checkedWeight dweight = .ok (weightOf dweight) := by
  have four : decDigits = 4 := rfl
  rw [checkedWeight, weightOf]
  by_cases nonneg : dweight ≥ 0
  · rw [if_pos nonneg, if_pos nonneg, checkedIndex_ok (by omega) (by omega), ok_bind,
      checkedIndex_ok (by omega) (by omega)]
    rfl
  · rw [if_neg nonneg, if_neg nonneg, checkedIndex_ok (by omega) (by omega)]
    rfl

section

variable {dweight : Int} {count : Nat}

structure AlignFits (count : Nat) (dweight : Int) : Prop where
  weight : dweight + 5 < 2 ^ 31
  padded : count + alignOffset dweight + 4 < 2 ^ 31

theorem alignment_ok (low : -2 ^ 31 < dweight) (fits : AlignFits count dweight) :
    alignment count dweight = .ok (weightOf dweight, alignOffset dweight,
      ((count : Int) + alignOffset dweight + decDigits - 1).tdiv decDigits) := by
  obtain ⟨weight, padded⟩ := fits
  have range := alignOffset_range dweight
  have offset := offset_eq dweight
  have four : decDigits = 4 := rfl
  rw [alignment, checkedWeight_ok low weight, ok_bind, checkedIndex_ok (by omega) (by omega),
    ok_bind, checkedIndex_ok (by omega) (by omega), ok_bind, offset,
    checkedIndex_ok (by omega) (by omega), ok_bind, checkedIndex_ok (by omega) (by omega), ok_bind,
    checkedIndex_ok (by omega) (by omega)]
  rfl

theorem alignment_overflows (low : -2 ^ 31 < dweight) (high : dweight < 2 ^ 31)
    (beyond : ¬AlignFits count dweight) : alignment count dweight = .error .overflow := by
  have range := alignOffset_range dweight
  have offset := offset_eq dweight
  have four : decDigits = 4 := rfl
  by_cases weight : dweight + 5 < 2 ^ 31
  · have padded : 2 ^ 31 ≤ count + alignOffset dweight + 4 := by
      by_contra inside
      exact beyond ⟨weight, by omega⟩
    rw [alignment, checkedWeight_ok low weight, ok_bind, checkedIndex_ok (by omega) (by omega),
      ok_bind, checkedIndex_ok (by omega) (by omega), ok_bind, offset,
      checkedIndex_ok (by omega) (by omega), ok_bind]
    by_cases sum : count + alignOffset dweight < 2 ^ 31
    · rw [checkedIndex_ok (by omega) sum, ok_bind, four, checkedIndex_overflows padded]
      rfl
    · rw [checkedIndex_overflows (by omega)]
      rfl
  · rw [alignment, checkedWeight, if_pos (by omega)]
    by_cases next : dweight + 1 < 2 ^ 31
    · rw [checkedIndex_ok (by omega) next, ok_bind, four, checkedIndex_overflows (by omega)]
      rfl
    · rw [checkedIndex_overflows (by omega)]
      rfl

end

theorem packDigits_zeros (ndigits k : Nat) (decdigits : List Int) :
    packDigits ndigits (decdigits ++ List.replicate k 0) = packDigits ndigits decdigits := by
  have same (decdigits : List Int) (k i : Nat) :
      (decdigits ++ List.replicate k 0).getD i 0 = decdigits.getD i 0 := by
    by_cases inside : i < decdigits.length
    · rw [List.getD_append _ _ _ _ inside]
    · rw [List.getD_append_right _ _ _ _ (not_lt.mp inside), List.getD_eq_default _ _ (not_lt.mp inside)]
      by_cases zero : i - decdigits.length < k
      · rw [List.getD_eq_getElem _ _ (by rw [List.length_replicate]; exact zero),
          List.getElem_replicate]
      · rw [List.getD_eq_default _ _ (by rw [List.length_replicate]; exact not_lt.mp zero)]
  induction ndigits generalizing decdigits k with
  | zero => rfl
  | succ ndigits ih =>
      rw [packDigits, packDigits, same, same, same, same, List.drop_append, List.drop_replicate, ih]

theorem packInto_step {decdigits buf : List (Option Int)} {stored packed : List Int}
    {free left i : Nat} (filled : Filled decdigits stored free) (enough : i + 4 ≤ stored.length)
    (room : Filled buf packed (left + 1)) (fits : i + 4 < 2 ^ 31) :
    ∃ middle, Filled middle (packed ++ (packDigits 1 (stored.drop i))) left ∧ ∀ ndigits,
      packInto decdigits (ndigits + 1) i buf packed.length =
        packInto decdigits ndigits (i + 4 : Nat) middle (packed.length + 1) := by
  have loaded (k : Nat) (small : k < 4) :
      load decdigits ((i : Int) + k) = .ok ((stored.drop i).getD k 0) := by
    have inside : i + k < stored.length := by omega
    have read := filled.load inside
    push_cast at read
    rw [read, List.getD_eq_getElem _ _ (by rw [List.length_drop]; omega), List.getElem_drop]
  obtain ⟨middle, first, filledMiddle⟩ := room.store
    ((((stored.drop i).getD 0 0 * 10 + (stored.drop i).getD 1 0) * 10 +
      (stored.drop i).getD 2 0) * 10 + (stored.drop i).getD 3 0)
  refine ⟨middle, filledMiddle, fun ndigits => ?_⟩
  have at0 := loaded 0 (by decide)
  rw [Int.natCast_zero, add_zero] at at0
  have next : checkedIndex ((i : Int) + decDigits) = .ok ((i + 4 : Nat) : Int) :=
    checkedIndex_ok (by rw [decDigits]; omega) (by rw [decDigits]; omega)
  rw [packInto, next, ok_bind, at0, ok_bind]
  have at1 := loaded 1 (by decide)
  have at2 := loaded 2 (by decide)
  have at3 := loaded 3 (by decide)
  push_cast at at1 at2 at3
  rw [at1, ok_bind, at2, ok_bind, at3, ok_bind, first, ok_bind]

theorem packDigits_succ (ndigits : Nat) (decdigits : List Int) :
    packDigits (ndigits + 1) decdigits =
      packDigits 1 decdigits ++ packDigits ndigits (decdigits.drop 4) := rfl

theorem packInto_spec {decdigits buf : List (Option Int)} {stored packed : List Int}
    {free left ndigits i : Nat} (filled : Filled decdigits stored free)
    (enough : i + 4 * ndigits ≤ stored.length) (room : Filled buf packed (ndigits + left))
    (fits : i + 4 * ndigits < 2 ^ 31) :
    ∃ next, packInto decdigits ndigits i buf packed.length = .ok next ∧
      Filled next (packed ++ packDigits ndigits (stored.drop i)) left := by
  induction ndigits generalizing buf packed i with
  | zero =>
      rw [Nat.zero_add] at room
      refine ⟨buf, rfl, ?_⟩
      rw [packDigits, List.append_nil]
      exact room
  | succ ndigits ih =>
      rw [Nat.add_right_comm] at room
      obtain ⟨middle, filledMiddle, step⟩ :=
        @packInto_step _ _ _ _ _ _ i filled (by omega) room (by omega)
      obtain ⟨next, rest, filledNext⟩ := @ih middle _ (i + 4) (by omega) filledMiddle (by omega)
      rw [List.length_append, length_packDigits] at rest
      push_cast at rest
      rw [List.append_assoc, ← List.drop_drop, ← packDigits_succ] at filledNext
      refine ⟨next, ?_, filledNext⟩
      rw [step ndigits]
      exact_mod_cast rest

theorem packInto_overflows {decdigits buf : List (Option Int)} {stored packed : List Int}
    {free left ndigits i : Nat} (filled : Filled decdigits stored free)
    (enough : i + 4 * ndigits ≤ stored.length) (room : Filled buf packed (ndigits + left))
    (start : i < 2 ^ 31) (beyond : 2 ^ 31 ≤ i + 4 * ndigits) :
    packInto decdigits ndigits i buf packed.length = .error .overflow := by
  induction ndigits generalizing buf packed i with
  | zero => omega
  | succ ndigits ih =>
      by_cases fits : i + 4 < 2 ^ 31
      · rw [Nat.add_right_comm] at room
        obtain ⟨middle, filledMiddle, step⟩ :=
          @packInto_step _ _ _ _ _ _ i filled (by omega) room fits
        have rest := @ih middle _ (i + 4) (by omega) filledMiddle fits (by omega)
        rw [List.length_append, length_packDigits] at rest
        rw [step ndigits]
        exact_mod_cast rest
      · rw [packInto, checkedIndex_overflows (by rw [decDigits]; omega)]
        rfl

section

variable {decdigits : List (Option Int)} {found : List Int} {free offset n : Nat}
  (filled : Filled decdigits (List.replicate 4 0 ++ found ++ List.replicate 3 0) free)
  (small : offset ≤ 3) (count : 4 * n ≤ found.length + offset + 3)

include small count

theorem packInto_enough : 4 - offset + 4 * n ≤
    (List.replicate 4 (0 : Int) ++ found ++ List.replicate 3 0).length := by
  rw [List.length_append, List.length_append, List.length_replicate, List.length_replicate]
  omega

omit count in
theorem packIndex_eq : ((4 - offset : Nat) : Int) = decDigits - offset := by
  rw [decDigits]
  omega

include filled

theorem packedDigits_ok (fits : 4 - offset + 4 * n < 2 ^ 31) :
    packedDigits decdigits offset n = .ok (packDigits n (List.replicate offset 0 ++ found)) := by
  obtain ⟨spare, allocated, empty⟩ := @allocate_filled Int ((n : Int) + 1) (by omega)
  have places : ((n : Int) + 1).toNat = n + 1 := by omega
  rw [places] at empty
  obtain ⟨zeroed, first, filledZero⟩ := empty.store 0
  obtain ⟨packed, run, filledPacked⟩ := @packInto_spec _ zeroed _ ([] ++ [0]) free 0 n (4 - offset)
    filled (packInto_enough small count) filledZero fits
  have aligned : (List.replicate 4 (0 : Int) ++ found ++ List.replicate 3 0).drop (4 - offset) =
      List.replicate offset 0 ++ found ++ List.replicate 3 0 := by
    have rest : 4 - (4 - offset) = offset := by omega
    rw [List.append_assoc, List.drop_append_of_le_length (by rw [List.length_replicate]; omega),
      List.drop_replicate, rest, List.append_assoc]
  rw [aligned, packDigits_zeros] at filledPacked
  rw [packIndex_eq small] at run
  have packing : packInto decdigits n (decDigits - offset) zeroed 1 = .ok packed := run
  have loaded := @Filled.loadAll _ _ _ _ filledPacked n 1
    (by rw [List.length_append, length_packDigits]; simp)
  have all : (packDigits n (List.replicate offset 0 ++ found)).take n =
      packDigits n (List.replicate offset 0 ++ found) :=
    List.take_of_length_le (le_of_eq (length_packDigits _ _))
  have zero : store spare 0 0 = .ok zeroed := first
  rw [packedDigits, checkedIndex_ok (by omega) (by omega), ok_bind, allocated, ok_bind, zero,
    ok_bind, Int.toNat_natCast, packing, ok_bind, ← all]
  exact loaded

theorem packedDigits_overflows (inside : n + 1 < 2 ^ 31) (beyond : 2 ^ 31 ≤ 4 - offset + 4 * n) :
    packedDigits decdigits offset n = .error .overflow := by
  obtain ⟨spare, allocated, empty⟩ := @allocate_filled Int ((n : Int) + 1) (by omega)
  have places : ((n : Int) + 1).toNat = n + 1 := by omega
  rw [places] at empty
  obtain ⟨zeroed, first, filledZero⟩ := empty.store 0
  have run := @packInto_overflows _ zeroed _ ([] ++ [0]) free 0 n (4 - offset) filled
    (packInto_enough small count) filledZero (by omega) beyond
  rw [packIndex_eq small] at run
  have packing : packInto decdigits n (decDigits - offset) zeroed 1 = .error .overflow := run
  have zero : store spare 0 0 = .ok zeroed := first
  rw [packedDigits, checkedIndex_ok (by omega) (by omega), ok_bind, allocated, ok_bind, zero,
    ok_bind, Int.toNat_natCast, packing]
  rfl

end

/-- The `int` values of a number that has been scanned: its scale, its weight moved by the
exponent, its digits with the zeros in front, and the index behind the last one packed. -/
structure PlacedFits (count : Nat) (dweight dscale dweight' : Int) : Prop where
  exponent : ExponentFits dweight dscale dweight'
  align : AlignFits count dweight'
  index : 4 * (((count : Int) + alignOffset dweight' + 3) / 4) + 4 - alignOffset dweight' < 2 ^ 31

theorem offset_places (dweight : Int) (count : Nat) : ∃ offset n : Nat,
    alignOffset dweight = offset ∧ offset ≤ 3 ∧
      ((count : Int) + offset + decDigits - 1).tdiv decDigits = n ∧
      ((count : Int) + offset + 3) / 4 = n ∧ 4 * n ≤ count + offset + 3 := by
  have range := alignOffset_range dweight
  obtain ⟨offset, same⟩ := Int.eq_ofNat_of_zero_le range.1
  have four : decDigits = 4 := rfl
  refine ⟨offset, (((count : Int) + offset + 3) / 4).toNat, same, by omega, ?_, by omega, by omega⟩
  rw [four, Int.tdiv_eq_ediv_of_nonneg (by omega)]
  omega

section

variable {decdigits : List (Option Int)} {found : List Int} {free : Nat}
  {dweight dscale : Int} {cp : List Char}
  (filled : Filled decdigits (List.replicate 4 0 ++ found ++ List.replicate 3 0) free)
  (weight : -1 ≤ dweight ∧ dweight < 2 ^ 31) (scale : 0 ≤ dscale ∧ dscale < 2 ^ 31) (sign : Int)

include filled weight scale

theorem placeDigits_ok {dweight' dscale' : Int} {rest : List Char}
    (moved : scanExponent dweight dscale cp = some (dweight', dscale', rest))
    (fits : PlacedFits found.length dweight dscale dweight') :
    placeDigits sign decdigits found.length dweight dscale cp =
      .ok (some (stripVar
        { spare := 1,
          digits := packDigits (((found.length : Int) +
            ((weightOf dweight' + 1) * decDigits - (dweight' + 1)) + decDigits - 1).tdiv
              decDigits).toNat
            (List.replicate ((weightOf dweight' + 1) * decDigits - (dweight' + 1)).toNat 0 ++ found),
          weight := weightOf dweight', sign, dscale := dscale' }, rest)) := by
  have low := scanExponent_low moved
  obtain ⟨offset, n, aligned, small, places, groups, enough⟩ := offset_places dweight' found.length
  obtain ⟨exponent, align, index⟩ := fits
  rw [aligned, groups] at index
  rw [placeDigits, (scanExponentIn_some moved weight scale).1 exponent, ok_bind]
  dsimp only
  rw [alignment_ok (by omega) align, ok_bind, offset_eq, aligned, places, Int.toNat_natCast,
    Int.toNat_natCast]
  dsimp only
  rw [packedDigits_ok filled small enough (by omega)]
  rfl

theorem placeDigits_overflows {dweight' dscale' : Int} {rest : List Char}
    (moved : scanExponent dweight dscale cp = some (dweight', dscale', rest))
    (beyond : ¬PlacedFits found.length dweight dscale dweight') :
    placeDigits sign decdigits found.length dweight dscale cp = .error .overflow := by
  have low := scanExponent_low moved
  obtain ⟨kept, lost⟩ := scanExponentIn_some moved weight scale
  obtain ⟨offset, n, aligned, small, places, groups, enough⟩ := offset_places dweight' found.length
  rw [placeDigits]
  by_cases exponent : ExponentFits dweight dscale dweight'
  · rw [kept exponent, ok_bind]
    dsimp only
    by_cases align : AlignFits found.length dweight'
    · have padded := align.padded
      have index : 2 ^ 31 ≤ 4 - offset + 4 * n := by
        by_contra inside
        refine beyond ⟨exponent, align, ?_⟩
        rw [aligned, groups]
        omega
      rw [aligned] at padded
      rw [alignment_ok (by omega) align, ok_bind, aligned, places]
      dsimp only
      rw [packedDigits_overflows filled small enough (by omega) index]
      rfl
    · rw [alignment_overflows (by omega) exponent.1 align]
      rfl
  · rw [lost exponent]
    rfl

omit filled weight scale in
theorem placeDigits_none (ddigits : Int) (none_ : scanExponent dweight dscale cp = none) :
    placeDigits sign decdigits ddigits dweight dscale cp = .ok none := by
  rw [placeDigits, scanExponentIn_none none_]
  rfl

end

/-- The `int` values that a text without its sign and first point is read with. -/
structure TextFits (cp : List Char) (haveDp : Bool) : Prop where
  digits : digitCount cp haveDp + 4 < 2 ^ 31
  placed : ∀ {found dweight dscale rest dweight' dscale' rest'},
    scanDigits cp haveDp (-1) 0 = some (found, dweight, dscale, rest) →
    scanExponent dweight dscale rest = some (dweight', dscale', rest') →
    PlacedFits (digitCount cp haveDp) dweight dscale dweight'

/-- The text is no number, or every `int` fits that it is read with. -/
def Readable (cp : List Char) : Prop :=
  let (haveDp, cp) := scanPoint (scanSign cp).2
  (cp.headD '\x00').isDigit = true → TextFits cp haveDp

theorem setVarFromStrIn_eq {cp : List Char} (readable : Readable cp) :
    setVarFromStrIn cp = .ok (setVarFromStr cp) := by
  rw [Readable] at readable
  rw [setVarFromStrIn, setVarFromStr]
  generalize scanSign cp = signed at readable ⊢
  obtain ⟨sign, cp⟩ := signed
  dsimp only at readable ⊢
  generalize scanPoint cp = pointed at readable ⊢
  obtain ⟨haveDp, cp⟩ := pointed
  dsimp only at readable ⊢
  cases starts : (cp.headD '\x00').isDigit with
  | false => rfl
  | true =>
      obtain ⟨digits, placed⟩ := readable starts
      have scanned := scanText_spec digits
      rw [Bool.not_true, if_neg Bool.false_ne_true, if_neg Bool.false_ne_true]
      cases found : scanDigits cp haveDp (-1) 0 with
      | none =>
          rw [found] at scanned
          rw [scanned]
          rfl
      | some result =>
          obtain ⟨stored, dweight, dscale, rest⟩ := result
          rw [found] at scanned
          obtain ⟨trailed, free, run, filled⟩ := scanned
          obtain ⟨count, weight, scale, total⟩ := scanDigits_counts found
          rw [run, ok_bind]
          dsimp only [bind, Option.bind]
          cases exponent : scanExponent dweight dscale rest with
          | none => exact placeDigits_none sign _ exponent
          | some moved =>
              obtain ⟨dweight', dscale', rest'⟩ := moved
              have fits := placed found exponent
              rw [← count] at fits
              exact placeDigits_ok filled (by omega) (by omega) sign exponent fits

theorem setVarFromStrIn_overflows {cp : List Char} (unreadable : ¬Readable cp) :
    setVarFromStrIn cp = .error .overflow := by
  rw [Readable] at unreadable
  rw [setVarFromStrIn]
  generalize scanSign cp = signed at unreadable ⊢
  obtain ⟨sign, cp⟩ := signed
  dsimp only at unreadable ⊢
  generalize scanPoint cp = pointed at unreadable ⊢
  obtain ⟨haveDp, cp⟩ := pointed
  dsimp only at unreadable ⊢
  obtain ⟨starts, beyond⟩ := Classical.not_imp.mp unreadable
  rw [starts, Bool.not_true, if_neg Bool.false_ne_true]
  by_cases digits : digitCount cp haveDp + 4 < 2 ^ 31
  · have scanned := scanText_spec digits
    by_cases placed : ∀ found dweight dscale rest dweight' dscale' rest',
        scanDigits cp haveDp (-1) 0 = some (found, dweight, dscale, rest) →
        scanExponent dweight dscale rest = some (dweight', dscale', rest') →
        PlacedFits (digitCount cp haveDp) dweight dscale dweight'
    · exact absurd ⟨digits, fun found moved => placed _ _ _ _ _ _ _ found moved⟩ beyond
    · push Not at placed
      obtain ⟨stored, dweight, dscale, rest, dweight', dscale', rest', found, moved, fails⟩ := placed
      obtain ⟨count, weight, scale, total⟩ := scanDigits_counts found
      rw [found] at scanned
      obtain ⟨trailed, free, run, filled⟩ := scanned
      rw [← count] at fails
      rw [run, ok_bind]
      exact placeDigits_overflows filled (by omega) (by omega) sign moved fails
  · rw [scanText_overflows (by omega)]
    rfl

end PqAsync
