import PqAsync.Library.Buffer
import PqAsync.NumericDecimal

/-!
The buffer of the printer, with every access and the `int` values of its size checked. What is
printed is what is printed without it unless an `int` overflows.
-/

namespace PqAsync

open Buffer Results Numeric

def putText (str : List (Option Char)) (cp : Int) (text : List Char) :
    Except Fault (List (Option Char) × Int) := do
  let str ← storeAll str cp text
  return (str, cp + text.length)

/-- The loop over the digits in front of the point, from the digit `d` on. -/
def wholeInto (digits : List Int) : Nat → Int → List (Option Char) → Int →
    Except Fault (List (Option Char) × Int)
  | 0, _, str, cp => .ok (str, cp)
  | n + 1, d, str, cp => do
      let dig := Radix.digitAt digits d
      let (str, cp) ← putText str cp (if d > 0 then fourDigits dig else firstDigits dig)
      wholeInto digits n (d + 1) str cp

/-- The loop over the digits behind the point, from the digit `d` on. -/
def fractionInto (digits : List Int) : Nat → Int → List (Option Char) → Int →
    Except Fault (List (Option Char) × Int)
  | 0, _, str, cp => .ok (str, cp)
  | n + 1, d, str, cp => do
      let (str, cp) ← putText str cp (fourDigits (Radix.digitAt digits d))
      fractionInto digits n (d + 1) str cp

def signInto (var : Numeric) (str : List (Option Char)) : Except Fault (List (Option Char) × Int) :=
  if var.sign = numericNeg then putText str 0 ['-'] else .ok (str, 0)

def frontInto (var : Numeric) (str : List (Option Char)) (cp : Int) :
    Except Fault (List (Option Char) × Int) :=
  if var.weight < 0 then putText str cp ['0']
  else wholeInto var.digits (var.weight + 1).toNat 0 str cp

def scaleInto (var : Numeric) (str : List (Option Char)) (cp : Int) :
    Except Fault (List (Option Char) × Int) :=
  if var.dscale > 0 then do
    let (str, cp) ← putText str cp ['.']
    let endcp := cp + var.dscale
    let (str, _) ← fractionInto var.digits ((var.dscale + 3) / decDigits).toNat (var.weight + 1) str cp
    return (str, endcp)
  else .ok (str, cp)

/-- `get_str_from_var`, and the text that its callers read up to the NUL. -/
def getStrFromVar (var : Numeric) : Except Fault (List Char) := do
  let places ← checkedIndex (var.weight + 1)
  let i ← checkedIndex (places * decDigits)
  let i := if i ≤ 0 then 1 else i
  let size ← checkedIndex (i + var.dscale)
  let size ← checkedIndex (size + decDigits)
  let size ← checkedIndex (size + 2)
  -- the counters of the loops stay below the size
  let str ← allocate Char size
  let (str, cp) ← signInto var str
  let (str, cp) ← frontInto var str cp
  let (str, cp) ← scaleInto var str cp
  let str ← store str cp '\x00'
  loadUntil '\x00' str

def placesText (digits : List Int) (d : Int) (n : Nat) : List Char :=
  (List.range n).flatMap fun i : Nat => fourDigits (Radix.digitAt digits (d + i))

theorem placesText_succ (digits : List Int) (d : Int) (n : Nat) :
    placesText digits d (n + 1) =
      fourDigits (Radix.digitAt digits d) ++ placesText digits (d + 1) n := by
  rw [placesText, placesText, List.range_succ_eq_map, List.flatMap_cons, List.flatMap_map]
  congr 1
  · simp
  · refine List.flatMap_congr fun i _ => ?_
    have place : d + (i.succ : Nat) = d + 1 + i := by
      push_cast
      ring
    rw [place]

theorem length_placesText (digits : List Int) (d : Int) (n : Nat) :
    (placesText digits d n).length = 4 * n := by
  induction n generalizing d with
  | zero => rfl
  | succ n ih =>
      rw [placesText_succ, List.length_append, ih]
      simp only [fourDigits, List.length_cons, List.length_nil]
      omega

theorem wholeText_places {digits : List Int} {w : Nat} :
    wholeText digits w = firstDigits (Radix.digitAt digits 0) ++ placesText digits 1 w := by
  rw [wholeText, if_neg (by omega), Int.toNat_natCast]
  congr 1
  refine List.flatMap_congr fun i _ => ?_
  rw [add_comm]

theorem length_firstDigits (dig : Int) : (firstDigits dig).length ≤ 4 := by
  have short := List.length_dropWhile_le (fun c => decide (c = '0')) ((fourDigits dig).take 3)
  have four : (fourDigits dig).length = 4 := rfl
  rw [List.length_take, four] at short
  rw [firstDigits]
  change List.length (List.append _ _) ≤ 4
  rw [List.append_eq, List.length_append, List.length_drop, four]
  omega

variable {str : List (Option Char)} {text : List Char} {free : Nat}

theorem putText_spec (filled : Filled str text free) {more : List Char} (room : more.length ≤ free) :
    ∃ next, putText str text.length more = .ok (next, (text ++ more).length) ∧
      Filled next (text ++ more) (free - more.length) := by
  obtain ⟨next, run, filledNext⟩ := filled.storeText room
  refine ⟨next, bind_ok.mpr ⟨next, run, ?_⟩, filledNext⟩
  rw [List.length_append]
  rfl

theorem fractionInto_spec (digits : List Int) {n : Nat} (d : Int) (filled : Filled str text free)
    (room : 4 * n ≤ free) :
    ∃ next, fractionInto digits n d str text.length =
        .ok (next, (text ++ placesText digits d n).length) ∧
      Filled next (text ++ placesText digits d n) (free - 4 * n) := by
  induction n generalizing d str text free with
  | zero =>
      refine ⟨str, ?_, ?_⟩
      · simp [fractionInto, placesText]
      · simpa [placesText] using filled
  | succ n ih =>
      have four : (fourDigits (Radix.digitAt digits d)).length = 4 := rfl
      obtain ⟨middle, first, filledMiddle⟩ :=
        @putText_spec _ _ _ filled (fourDigits (Radix.digitAt digits d)) (by omega)
      obtain ⟨next, rest, filledNext⟩ := ih (d + 1) filledMiddle (by omega)
      rw [List.append_assoc, ← placesText_succ] at rest filledNext
      have left : free - (fourDigits (Radix.digitAt digits d)).length - 4 * n = free - 4 * (n + 1) := by
        omega
      rw [left] at filledNext
      exact ⟨next, bind_ok.mpr ⟨_, first, rest⟩, filledNext⟩

theorem wholeInto_eq (digits : List Int) (n : Nat) {d : Int} (later : 0 < d)
    (str : List (Option Char)) (cp : Int) :
    wholeInto digits n d str cp = fractionInto digits n d str cp := by
  induction n generalizing d str cp with
  | zero => rfl
  | succ n ih =>
      rw [wholeInto, fractionInto, if_pos later]
      congr 1
      funext result
      exact ih (by omega) _ _

theorem wholeInto_spec (digits : List Int) (w : Nat) (filled : Filled str text free)
    (room : 4 * (w + 1) ≤ free) :
    ∃ next, wholeInto digits (w + 1) 0 str text.length =
        .ok (next, (text ++ wholeText digits w).length) ∧
      Filled next (text ++ wholeText digits w) (free - (wholeText digits w).length) := by
  have short := length_firstDigits (Radix.digitAt digits 0)
  obtain ⟨middle, first, filledMiddle⟩ :=
    @putText_spec _ _ _ filled (firstDigits (Radix.digitAt digits 0)) (by omega)
  obtain ⟨next, rest, filledNext⟩ := @fractionInto_spec _ _ _ digits w 1 filledMiddle (by omega)
  rw [List.append_assoc, ← wholeText_places] at rest filledNext
  have left : free - (firstDigits (Radix.digitAt digits 0)).length - 4 * w =
      free - (wholeText digits w).length := by
    rw [wholeText_places, List.length_append, length_placesText]
    omega
  rw [left] at filledNext
  refine ⟨next, ?_, filledNext⟩
  rw [wholeInto, if_neg (lt_irrefl 0), first, ok_bind]
  rw [← wholeInto_eq digits w Int.one_pos] at rest
  exact rest

theorem wholeText_length (digits : List Int) {w : Nat} :
    (wholeText digits w).length ≤ 4 * (w + 1) := by
  have short := length_firstDigits (Radix.digitAt digits 0)
  rw [wholeText_places, List.length_append, length_placesText]
  omega

theorem fourDigits_printed {dig : Int} (own : 0 ≤ dig ∧ dig < nbase) :
    ∀ c ∈ fourDigits dig, c.isDigit = true := by
  obtain ⟨d, rfl⟩ := Int.eq_ofNat_of_zero_le own.1
  rw [fourDigits_eq (by have high := own.2; rw [nbase] at high; omega)]
  exact Decimal.isDigit_padded

theorem firstDigits_printed {dig : Int} (own : 0 ≤ dig ∧ dig < nbase) :
    ∀ c ∈ firstDigits dig, c.isDigit = true := by
  intro c member
  change c ∈ List.append _ _ at member
  rw [List.append_eq] at member
  rcases List.mem_append.mp member with front | last
  · exact fourDigits_printed own c (List.mem_of_mem_take (List.dropWhile_sublist _ |>.mem front))
  · exact fourDigits_printed own c (List.mem_of_mem_drop last)

theorem placesText_printed {digits : List Int} (range : Radix.Digits nbase digits) (d : Int)
    (n : Nat) : ∀ c ∈ placesText digits d n, c.isDigit = true := by
  intro c member
  obtain ⟨i, _, own⟩ := List.mem_flatMap.mp member
  exact fourDigits_printed (Radix.digitAt_range nbase_pos range _) c own

theorem wholeText_printed {digits : List Int} (range : Radix.Digits nbase digits) (weight : Int) :
    ∀ c ∈ wholeText digits weight, c.isDigit = true := by
  by_cases below : weight < 0
  · rw [wholeText, if_pos below]
    exact List.all_eq_true.mp rfl
  · obtain ⟨w, rfl⟩ := Int.eq_ofNat_of_zero_le (not_lt.mp below)
    intro c member
    rw [wholeText_places] at member
    rcases List.mem_append.mp member with first | rest
    · exact firstDigits_printed (Radix.digitAt_range nbase_pos range _) c first
    · exact placesText_printed range 1 w c rest

theorem ended_text (filled : Filled str text (free + 1)) {n : Nat} (inside : n ≤ text.length)
    (printed : ∀ c ∈ text.take n, c ≠ '\x00') :
    (do let str ← store str n '\x00'; loadUntil '\x00' str) = .ok (text.take n) := by
  obtain ⟨next, stored, read⟩ := filled.loadUntil inside printed
  exact bind_ok.mpr ⟨next, stored, read⟩

theorem signInto_spec (var : Numeric) (filled : Filled str [] free) (room : 1 ≤ free) :
    ∃ next, signInto var str =
        .ok (next, (signText (decide (var.sign = numericNeg))).length) ∧
      Filled next (signText (decide (var.sign = numericNeg)))
        (free - (signText (decide (var.sign = numericNeg))).length) := by
  rw [signInto]
  by_cases negative : var.sign = numericNeg
  · rw [if_pos negative, decide_eq_true negative]
    exact putText_spec filled room
  · rw [if_neg negative, decide_eq_false negative]
    exact ⟨str, rfl, filled⟩

def wholeRoom (weight : Int) : Int :=
  if (weight + 1) * decDigits ≤ 0 then 1 else (weight + 1) * decDigits

theorem wholeRoom_below {weight : Int} (below : weight < 0) : wholeRoom weight = 1 := by
  rw [wholeRoom, decDigits]
  omega

theorem wholeRoom_nat (w : Nat) : wholeRoom w = 4 * (w + 1) := by
  rw [wholeRoom, decDigits]
  omega

theorem wholeText_fits (digits : List Int) (weight : Int) :
    ((wholeText digits weight).length : Int) ≤ wholeRoom weight := by
  by_cases below : weight < 0
  · rw [wholeText, if_pos below, wholeRoom_below below]
    rfl
  · obtain ⟨w, rfl⟩ := Int.eq_ofNat_of_zero_le (not_lt.mp below)
    have length := @wholeText_length digits w
    rw [wholeRoom_nat]
    omega

theorem frontInto_spec (var : Numeric) (filled : Filled str text free)
    (room : wholeRoom var.weight ≤ free) :
    ∃ next, frontInto var str text.length =
        .ok (next, (text ++ wholeText var.digits var.weight).length) ∧
      Filled next (text ++ wholeText var.digits var.weight)
        (free - (wholeText var.digits var.weight).length) := by
  rw [frontInto]
  by_cases below : var.weight < 0
  · rw [wholeRoom_below below] at room
    rw [if_pos below, wholeText, if_pos below]
    exact putText_spec filled (by exact_mod_cast room)
  · obtain ⟨w, weight⟩ := Int.eq_ofNat_of_zero_le (not_lt.mp below)
    have count : ((w : Int) + 1).toNat = w + 1 := by omega
    rw [weight, wholeRoom_nat] at room
    rw [if_neg below, weight, count]
    exact wholeInto_spec var.digits w filled (by omega)

def scaleText (var : Numeric) : List Char :=
  if var.dscale > 0 then '.' :: fractionText var.digits var.weight var.dscale.toNat else []

theorem scaleInto_spec {var : Numeric} (scale : 0 ≤ var.dscale) (filled : Filled str text free)
    (room : var.dscale + 5 ≤ free) :
    ∃ next excess left, scaleInto var str text.length = .ok (next, (text ++ scaleText var).length) ∧
      Filled next (text ++ scaleText var ++ excess) (left + 1) := by
  rw [scaleInto, scaleText]
  by_cases fraction : var.dscale > 0
  · obtain ⟨dscale, scaleEq⟩ := Int.eq_ofNat_of_zero_le scale
    obtain ⟨n, count, enough, notMore⟩ : ∃ n : Nat, ((var.dscale + 3) / decDigits).toNat = n ∧
        dscale ≤ 4 * n ∧ 4 * n ≤ dscale + 3 := by
      rw [decDigits]
      exact ⟨_, rfl, by omega, by omega⟩
    obtain ⟨pointed, pointRun, filledPoint⟩ := @putText_spec _ _ _ filled ['.'] (by
      rw [List.length_singleton]
      omega)
    obtain ⟨printed, printRun, filledAll⟩ := @fractionInto_spec _ _ _ var.digits n (var.weight + 1)
      filledPoint (by rw [List.length_singleton]; omega)
    have places : fractionText var.digits var.weight dscale =
        (placesText var.digits (var.weight + 1) n).take dscale := by
      have same : (dscale + 3) / 4 = n := by omega
      rw [fractionText, same, placesText]
    have split : text ++ ['.'] ++ placesText var.digits (var.weight + 1) n =
        text ++ '.' :: fractionText var.digits var.weight dscale ++
          (placesText var.digits (var.weight + 1) n).drop dscale := by
      rw [places]
      simp
    obtain ⟨left, leftEq⟩ : ∃ left, free - ['.'].length - 4 * n = left + 1 := by
      refine Nat.exists_eq_succ_of_ne_zero ?_
      rw [List.length_singleton]
      omega
    have moved : ((text ++ ['.']).length : Int) + dscale =
        (text ++ '.' :: fractionText var.digits var.weight dscale).length := by
      have kept : (fractionText var.digits var.weight dscale).length = dscale := by
        rw [places, List.length_take, length_placesText, min_eq_left enough]
      simp only [List.length_append, List.length_cons, List.length_nil, kept]
      push_cast
      ring
    rw [if_pos fraction, if_pos fraction, scaleEq, Int.toNat_natCast]
    rw [scaleEq] at count
    refine ⟨printed, (placesText var.digits (var.weight + 1) n).drop dscale, left, ?_, ?_⟩
    · rw [pointRun, ok_bind, count]
      dsimp only
      rw [printRun, ok_bind, moved]
      rfl
    · rw [← split, ← leftEq]
      exact filledAll
  · obtain ⟨left, leftEq⟩ := Nat.exists_eq_succ_of_ne_zero (show free ≠ 0 by omega)
    rw [if_neg fraction, if_neg fraction]
    refine ⟨str, [], left, ?_, ?_⟩
    · rw [List.append_nil]
    · rw [List.append_nil, List.append_nil, ← Nat.succ_eq_add_one, ← leftEq]
      exact filled

theorem fractionText_printed {digits : List Int} (range : Radix.Digits nbase digits)
    (weight : Int) (dscale : Nat) : ∀ c ∈ fractionText digits weight dscale, c.isDigit = true :=
  fun c member => placesText_printed range _ _ c (List.mem_of_mem_take member)

theorem text_parts (var : Numeric) : var.text = signText (decide (var.sign = numericNeg)) ++
    wholeText var.digits var.weight ++ scaleText var := by
  rw [Numeric.text, signText, scaleText, List.append_assoc]
  simp only [decide_eq_true_eq]

theorem text_printed {var : Numeric} (range : Radix.Digits nbase var.digits) :
    ∀ c ∈ var.text, c ≠ '\x00' := by
  have digit {c : Char} (own : c.isDigit = true) : c ≠ '\x00' := by
    rintro rfl
    exact absurd own (by decide)
  intro c member
  rw [text_parts, scaleText] at member
  rcases List.mem_append.mp member with front | scale
  · rcases List.mem_append.mp front with sign | whole
    · rw [signText] at sign
      split at sign
      · rw [List.mem_singleton.mp sign]
        decide
      · exact absurd sign List.not_mem_nil
    · exact digit (wholeText_printed range _ c whole)
  · split at scale
    · rcases List.mem_cons.mp scale with point | places
      · rw [point]
        decide
      · exact digit (fractionText_printed range _ _ c places)
    · exact absurd scale List.not_mem_nil

/-- The size of the buffer, and the places that it is computed from. -/
def PrinterFits (weight dscale : Int) : Prop :=
  -2 ^ 31 ≤ (weight + 1) * decDigits ∧ wholeRoom weight + dscale + 6 < 2 ^ 31

theorem wholeRoom_ge (weight : Int) :
    1 ≤ wholeRoom weight ∧ (weight + 1) * decDigits ≤ wholeRoom weight := by
  rw [wholeRoom]
  split
  · omega
  · omega

theorem getStrFromVar_eq {var : Numeric} (range : Radix.Digits nbase var.digits)
    (scale : 0 ≤ var.dscale) (fits : PrinterFits var.weight var.dscale) :
    getStrFromVar var = .ok var.text := by
  obtain ⟨low, high⟩ := fits
  have least := wholeRoom_ge var.weight
  have places : (var.weight + 1) * decDigits = (var.weight + 1) * 4 := rfl
  have whole := wholeText_fits var.digits var.weight
  have signLength : (signText (decide (var.sign = numericNeg))).length ≤ 1 := by
    cases decide (var.sign = numericNeg) with
    | true => exact le_refl 1
    | false => exact Nat.zero_le 1
  have room : (if (var.weight + 1) * decDigits ≤ 0 then 1 else (var.weight + 1) * decDigits) =
      wholeRoom var.weight := rfl
  have four : decDigits = 4 := rfl
  obtain ⟨str, allocated, empty⟩ :=
    @allocate_filled Char (wholeRoom var.weight + var.dscale + decDigits + 2) (by omega)
  obtain ⟨signed, signRun, filledSign⟩ := signInto_spec var empty (by omega)
  obtain ⟨front, frontRun, filledFront⟩ := frontInto_spec var filledSign (by omega)
  obtain ⟨all, excess, left, scaleRun, filledAll⟩ := scaleInto_spec scale filledFront (by omega)
  have kept : (signText (decide (var.sign = numericNeg)) ++ wholeText var.digits var.weight ++
      scaleText var ++ excess).take (signText (decide (var.sign = numericNeg)) ++
        wholeText var.digits var.weight ++ scaleText var).length = var.text := by
    rw [List.take_left, text_parts]
  have inside := (List.prefix_append (signText (decide (var.sign = numericNeg)) ++
    wholeText var.digits var.weight ++ scaleText var) excess).length_le
  have ended := ended_text filledAll inside (by rw [kept]; exact text_printed range)
  rw [kept] at ended
  rw [getStrFromVar, checkedIndex_ok (by omega) (by omega), ok_bind,
    checkedIndex_ok low (by omega), ok_bind]
  dsimp only
  rw [room, checkedIndex_ok (by omega) (by omega), ok_bind, checkedIndex_ok (by omega) (by omega),
    ok_bind, checkedIndex_ok (by omega) (by omega), ok_bind, allocated, ok_bind, signRun, ok_bind, frontRun, ok_bind, scaleRun, ok_bind]
  exact ended

theorem getStrFromVar_overflows {var : Numeric}
    (beyond : ¬PrinterFits var.weight var.dscale) : getStrFromVar var = .error .overflow := by
  have four : decDigits = 4 := rfl
  have room : (if (var.weight + 1) * decDigits ≤ 0 then 1 else (var.weight + 1) * decDigits) =
      wholeRoom var.weight := rfl
  have least := wholeRoom_ge var.weight
  rw [getStrFromVar]
  by_cases next : -2 ^ 31 ≤ var.weight + 1 ∧ var.weight + 1 < 2 ^ 31
  · rw [checkedIndex_ok next.1 next.2, ok_bind]
    by_cases places : -2 ^ 31 ≤ (var.weight + 1) * decDigits ∧ (var.weight + 1) * decDigits < 2 ^ 31
    · have large : 2 ^ 31 ≤ wholeRoom var.weight + var.dscale + 6 := by
        by_contra inside
        exact beyond ⟨places.1, by omega⟩
      rw [checkedIndex_ok places.1 places.2, ok_bind]
      dsimp only
      rw [room]
      by_cases digits : wholeRoom var.weight + var.dscale < 2 ^ 31
      · rw [checkedIndex_ok (by omega) digits, ok_bind]
        by_cases padded : wholeRoom var.weight + var.dscale + decDigits < 2 ^ 31
        · rw [checkedIndex_ok (by omega) padded, ok_bind, checkedIndex_overflows (by omega)]
          rfl
        · rw [checkedIndex_overflows (by omega)]
          rfl
      · rw [checkedIndex_overflows (by omega)]
        rfl
    · rw [checkedIndex, if_neg places]
      rfl
  · rw [checkedIndex, if_neg next]
    rfl

end PqAsync
