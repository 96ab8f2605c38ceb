import PqAsync.Library.Buffer
import PqAsync.NumericRound

/-!
`round_var` and `trunc_var` on the buffer of a numeric. Every access to a digit and every `int`
of the scales and weights is checked.
-/

namespace PqAsync

open Buffer Results Rounding

/-- A `numeric` with its buffer. `digits` is the place of its first digit, and places are counted
from the start of the buffer. -/
structure NumericVar where
  buf : List (Option Int)
  digits : Nat
  ndigits : Nat
  weight : Int
  sign : Int
  dscale : Int
  deriving DecidableEq, Repr

def loadDigit (buf : List (Option Int)) (place : Nat) : Except NumericError Int :=
  (load buf place).mapError fun _ => .outOfBounds

def storeDigit (buf : List (Option Int)) (place : Nat) (digit : Int) :
    Except NumericError (List (Option Int)) :=
  (store buf place digit).mapError fun _ => .outOfBounds

/-- The rounding within the digit in front of a place: the buffer, the place after
`--ndigits`, and the carry. -/
def roundWithin (pow10 : Int) :
    Nat → List (Option Int) → Except NumericError (List (Option Int) × Nat × Bool)
  | 0, _ => .error .outOfBounds
  | place + 1, buf => do
      let digit ← loadDigit buf place
      let extra := digit.tmod pow10
      let buf ← storeDigit buf place (digit - extra)
      if extra ≥ pow10.tdiv 2 then
        let pow10 := pow10 + (digit - extra)
        if pow10 ≥ nbase then do
          let buf ← storeDigit buf place (pow10 - nbase)
          return (buf, place, true)
        else do
          let buf ← storeDigit buf place pow10
          return (buf, place, false)
      else return (buf, place, false)

def truncWithin (pow10 : Int) : Nat → List (Option Int) → Except NumericError (List (Option Int))
  | 0, _ => .error .outOfBounds
  | place + 1, buf => do
      let digit ← loadDigit buf place
      storeDigit buf place (digit - digit.tmod pow10)

def roundCarry (buf : List (Option Int)) (di : Int) (place : Nat) :
    Except NumericError (List (Option Int) × Nat × Bool) :=
  if di = 0 then do
    let digit ← loadDigit buf place
    return (buf, place, digit ≥ halfNbase)
  else roundWithin (roundPowers di) place buf

def carryLoop : Nat → List (Option Int) → Except NumericError (List (Option Int) × Nat)
  | 0, _ => .error .outOfBounds
  | place + 1, buf => do
      let digit ← loadDigit buf place
      let carry := 1 + digit
      if carry ≥ nbase then do
        let buf ← storeDigit buf place (carry - nbase)
        carryLoop place buf
      else do
        let buf ← storeDigit buf place carry
        return (buf, place)

namespace NumericVar

def settle (var : NumericVar) (place : Nat) : Except NumericError NumericVar :=
  if place < var.digits then do
    assertThat (place + 1 = var.digits)
    assertThat (var.digits > 0)
    let weight ← int32 (var.weight + 1)
    return { var with digits := var.digits - 1, ndigits := var.ndigits + 1, weight }
  else .ok var

def propagate (var : NumericVar) (place : Nat) : Except NumericError NumericVar := do
  let (buf, place) ← carryLoop place var.buf
  { var with buf }.settle place

def roundCut (var : NumericVar) (di : Int) : Except NumericError NumericVar := do
  let (buf, place, carry) ← roundCarry var.buf di (var.digits + var.ndigits)
  let var := { var with buf }
  if carry then var.propagate place else var.settle place

def round (var : NumericVar) (rscale : Int) : Except NumericError NumericVar := do
  let var := { var with dscale := rscale }
  let di ← decimalDigits var.weight rscale
  if di < 0 then return { var with ndigits := 0, weight := 0, sign := numericPos }
  else
    let ndigits ← nbaseDigits di
    let di := di.tmod decDigits
    if ndigits < var.ndigits ∨ (ndigits = var.ndigits ∧ di > 0) then
      let var := { var with ndigits }
      var.roundCut di
    else return var

def trunc (var : NumericVar) (rscale : Int) : Except NumericError NumericVar := do
  let var := { var with dscale := rscale }
  let di ← decimalDigits var.weight rscale
  if di ≤ 0 then return { var with ndigits := 0, weight := 0, sign := numericPos }
  else
    let ndigits ← nbaseDigits di
    if ndigits ≤ var.ndigits then
      let var := { var with ndigits }
      let di := di.tmod decDigits
      if di > 0 then
        let buf ← truncWithin (roundPowers di) (var.digits + ndigits) var.buf
        return { var with buf }
      else return var
    else return var

structure ShowsBetween (var : NumericVar) (x : Numeric) (front after : List (Option Int)) : Prop where
  buf : var.buf = front ++ (x.digits.map some ++ after)
  digits : var.digits = front.length
  ndigits : var.ndigits = x.digits.length
  weight : var.weight = x.weight
  sign : var.sign = x.sign
  dscale : var.dscale = x.dscale

def Shows (var : NumericVar) (x : Numeric) : Prop := ∃ front after, var.ShowsBetween x front after

def HasSpare (var : NumericVar) : Prop :=
  ∃ place, var.digits = place + 1 ∧ var.buf[place]? = some (some 0)

theorem Shows.spare {var : NumericVar} {x : Numeric} (shows_ : var.Shows x) (spare : var.HasSpare) :
    ∃ front after, var.ShowsBetween x (front ++ [some 0]) after := by
  obtain ⟨front, after, between⟩ := shows_
  obtain ⟨place, digits, zero⟩ := spare
  have length : front.length = place + 1 := between.digits.symm.trans digits
  rcases List.eq_nil_or_concat front with rfl | ⟨start, cell, rfl⟩
  · simp at length
  · rw [List.concat_eq_append] at between length
    have inside : start.length = place := by simpa using length
    rw [between.buf, ← inside, List.append_assoc, List.getElem?_append_right (Nat.le_refl _),
      Nat.sub_self] at zero
    have same : cell = some 0 := by simpa using zero
    rw [same] at between
    exact ⟨start, after, between⟩

end NumericVar

theorem loadDigit_append {left right : List (Option Int)} {place : Nat} {digit : Int}
    (length : left.length = place) : loadDigit (left ++ some digit :: right) place = .ok digit := by
  rw [loadDigit, ← length, load_append]
  rfl

theorem storeDigit_append {left right : List (Option Int)} {place : Nat} {cell : Option Int}
    (length : left.length = place) (digit : Int) :
    storeDigit (left ++ cell :: right) place digit = .ok (left ++ some digit :: right) := by
  rw [storeDigit, ← length, store_append]
  rfl

theorem carryLoop_eq (front : List (Option Int)) (digits : List Int) (after : List (Option Int)) :
    ∃ carried intoSpare place, propagateCarry 1 digits = .ok (carried, intoSpare) ∧
      carryLoop (front.length + 1 + digits.length)
        (front ++ some 0 :: (digits.reverse.map some ++ after)) =
          .ok (front ++ ((if intoSpare then [] else [some 0]) ++
            (carried.reverse.map some ++ after)), place) ∧
      carried.length = digits.length + (if intoSpare then 1 else 0) ∧
      (if intoSpare then place = front.length ∧ ∃ rest, carried.reverse = 1 :: rest
        else front.length < place) := by
  induction digits generalizing after with
  | nil =>
      refine ⟨[1], true, front.length, rfl, ?_, rfl, rfl, [], rfl⟩
      change carryLoop (front.length + 1) _ = _
      rw [carryLoop, List.reverse_nil, List.map_nil, List.nil_append, loadDigit_append rfl, ok_bind]
      dsimp only
      rw [if_neg (by decide), storeDigit_append rfl]
      rfl
  | cons digit digits ih =>
      have split : front ++ some 0 :: ((digit :: digits).reverse.map some ++ after) =
          (front ++ some 0 :: digits.reverse.map some) ++ some digit :: after := by simp
      have length : (front ++ some 0 :: digits.reverse.map some).length =
          front.length + 1 + digits.length := by
        simp only [List.length_append, List.length_cons, List.length_map, List.length_reverse]
        omega
      have place : front.length + 1 + (digit :: digits).length =
          front.length + 1 + digits.length + 1 := rfl
      rw [propagateCarry, split, place, carryLoop, loadDigit_append length, ok_bind]
      dsimp only
      by_cases large : 1 + digit ≥ nbase
      · obtain ⟨carried, intoSpare, ended, run, loop, count, position⟩ :=
          ih (some (1 + digit - nbase) :: after)
        rw [if_pos large, if_pos large, storeDigit_append length, ok_bind, List.append_assoc,
          List.cons_append, loop, run]
        refine ⟨_, intoSpare, ended, rfl, ?_, ?_, ?_⟩
        · simp
        · rw [List.length_cons, List.length_cons, count]
          omega
        · cases intoSpare with
          | true =>
              obtain ⟨same, rest, first⟩ := position
              refine ⟨same, rest ++ [1 + digit - nbase], ?_⟩
              rw [List.reverse_cons, first]
              rfl
          | false => exact position
      · rw [if_neg large, if_neg large, storeDigit_append length]
        refine ⟨_, false, front.length + 1 + digits.length, rfl, ?_, rfl, ?_⟩
        · rw [ok_bind]
          simp
          rfl
        · simp only [Bool.false_eq_true, if_false]
          omega

namespace NumericVar

/-- What a rounding has done to the place of the first digit: nothing, or it stands in the spare
place and is a one. -/
inductive Moved (place : Nat) (weight : Int) (result : NumericVar) (y : Numeric) : Prop
  | dropped (digits : y.digits = []) (same : result.digits = place)
  | kept (sameWeight : y.weight = weight) (same : result.digits = place)
  | carried (nextWeight : y.weight = weight + 1) (spare : result.digits + 1 = place)
      (first : ∃ rest, y.digits = 1 :: rest)

theorem settle_behind {var : NumericVar} {place : Nat} (behind : var.digits ≤ place) :
    var.settle place = .ok var := if_neg (by omega)

theorem settle_front {var : NumericVar} {place : Nat} (front : var.digits = place + 1)
    (fits : -2 ^ 31 ≤ var.weight + 1 ∧ var.weight + 1 < 2 ^ 31) :
    var.settle place = .ok
      { var with digits := place, ndigits := var.ndigits + 1, weight := var.weight + 1 } := by
  have one : place + 1 = var.digits := front.symm
  have positive : var.digits > 0 := by omega
  rw [settle, if_pos (by omega), assertThat_ok (decide_eq_true one), ok_bind,
    assertThat_ok (decide_eq_true positive), ok_bind, int32_ok_iff.mpr ⟨fits, rfl⟩, ok_bind, front,
    Nat.add_sub_cancel]
  rfl

theorem propagate_refines {var : NumericVar} {x : Numeric} {front after : List (Option Int)}
    {kept rounded : List Int} (spare : x.spare = 1)
    (between : var.ShowsBetween { x with digits := kept ++ rounded } (front ++ [some 0]) after)
    (fits : -2 ^ 31 ≤ var.weight + 1 ∧ var.weight + 1 < 2 ^ 31) :
    ∃ result y, var.propagate (var.digits + kept.length) = .ok result ∧
      carryInto x kept rounded = .ok y ∧ result.Shows y ∧ Moved var.digits x.weight result y := by
  obtain ⟨buf, digits, ndigits, weight, sign, dscale⟩ := between
  obtain ⟨carried, intoSpare, place, run, loop, count, position⟩ :=
    carryLoop_eq front kept.reverse (rounded.map some ++ after)
  rw [List.length_append, List.length_singleton] at digits
  have whole : var.buf = front ++ some 0 :: (kept.reverse.reverse.map some ++
      (rounded.map some ++ after)) := by
    rw [buf]
    simp
  rw [List.length_append] at ndigits
  rw [List.length_reverse] at loop count
  rw [propagate, whole, digits, loop, ok_bind, carryInto, spare, run, ok_bind]
  dsimp only
  cases intoSpare with
  | true =>
      obtain ⟨ended, rest, first⟩ := position
      refine ⟨_, _, settle_front (congrArg (· + 1) ended.symm) fits, rfl, ?_, ?_⟩
      · refine ⟨front, after, by simp, ended, ?_, congrArg (· + 1) weight, sign, dscale⟩
        change var.ndigits + 1 = (carried.reverse ++ rounded).length
        rw [if_pos rfl] at count
        rw [List.length_append, List.length_reverse, count, ndigits]
        omega
      · refine .carried rfl (congrArg (· + 1) ended) ⟨rest ++ rounded, ?_⟩
        rw [first]
        rfl
  | false =>
      have behind : front.length + 1 ≤ place := position
      refine ⟨_, _, settle_behind behind, rfl, ?_, .kept rfl rfl⟩
      refine ⟨front ++ [some 0], after, by simp, by simp, ?_, weight, sign, dscale⟩
      rw [List.length_append, List.length_reverse, count, ndigits]
      rfl

def Refines (place : Nat) (weight : Int) (run : Except NumericError NumericVar)
    (abstract : Except NumericError Numeric) : Prop :=
  ∃ result y, run = .ok result ∧ abstract = .ok y ∧ result.Shows y ∧ Moved place weight result y

theorem ShowsBetween.take {var : NumericVar} {x : Numeric} {front after : List (Option Int)}
    (between : var.ShowsBetween x front after) (n : Nat) (rscale : Int)
    (enough : n ≤ x.digits.length) :
    { var with ndigits := n, dscale := rscale }.ShowsBetween
      { x with digits := x.digits.take n, dscale := rscale } front
      ((x.digits.drop n).map some ++ after) := by
  obtain ⟨buf, digits, ndigits, weight, sign, dscale⟩ := between
  refine ⟨?_, digits, ?_, weight, sign, rfl⟩
  · change var.buf = front ++ ((x.digits.take n).map some ++ ((x.digits.drop n).map some ++ after))
    rw [buf, ← List.append_assoc ((x.digits.take n).map some), ← List.map_append,
      List.take_append_drop]
  · exact (List.length_take_of_le enough).symm

theorem Shows.drop {var : NumericVar} {x : Numeric} (shows_ : var.Shows x) (rscale : Int) :
    { var with dscale := rscale, ndigits := 0, weight := 0, sign := numericPos }.Shows
      { x with dscale := rscale, digits := [], weight := 0, sign := numericPos } := by
  obtain ⟨front, after, between⟩ := shows_
  exact ⟨front, x.digits.map some ++ after, between.buf, between.digits, rfl, rfl, rfl, rfl⟩

theorem ShowsBetween.last {var : NumericVar} {x : Numeric} {front after : List (Option Int)}
    {kept : List Int} {last : Int} (between : var.ShowsBetween x front after)
    (split : x.digits = kept ++ [last]) (digit : Int) :
    { var with buf := front ++ kept.map some ++ some digit :: after }.ShowsBetween
      { x with digits := kept ++ [digit] } front after := by
  obtain ⟨buf, digits, ndigits, weight, sign, dscale⟩ := between
  refine ⟨by simp, digits, ?_, weight, sign, dscale⟩
  rw [split, List.length_append] at ndigits
  rw [List.length_append]
  exact ndigits

theorem ShowsBetween.atLast {var : NumericVar} {x : Numeric} {front after : List (Option Int)}
    {kept : List Int} {last : Int} (between : var.ShowsBetween x front after)
    (split : x.digits = kept ++ [last]) :
    var.buf = front ++ kept.map some ++ some last :: after ∧
      var.digits + var.ndigits = (front ++ kept.map some).length + 1 := by
  refine ⟨by simp [between.buf, split], ?_⟩
  rw [between.digits, between.ndigits, split, List.length_append, List.length_append,
    List.length_map]
  rfl

section

variable {var : NumericVar} {x : Numeric} {front after : List (Option Int)} (spare : x.spare = 1)
  (fits : -2 ^ 31 ≤ var.weight + 1 ∧ var.weight + 1 < 2 ^ 31)

include spare fits

theorem roundBorder_refines {kept : List Int} {next : Int}
    (between : var.ShowsBetween { x with digits := kept } (front ++ [some 0]) (some next :: after)) :
    Refines var.digits x.weight (var.roundCut 0)
      (if next ≥ halfNbase then carryInto x kept [] else .ok { x with digits := kept }) := by
  have count : var.ndigits = kept.length := between.ndigits
  have place : (front ++ [some 0] ++ kept.map some).length = var.digits + var.ndigits := by
    rw [between.digits, count, List.length_append, List.length_map]
  have whole : var.buf = front ++ [some 0] ++ kept.map some ++ some next :: after := by
    rw [between.buf]
    simp
  have read : loadDigit var.buf (var.digits + var.ndigits) = .ok next := by
    rw [whole, loadDigit_append place]
  rw [roundCut, roundCarry, if_pos rfl, read]
  change Refines var.digits x.weight
    (if decide (next ≥ halfNbase) = true then var.propagate (var.digits + var.ndigits)
      else var.settle (var.digits + var.ndigits)) _
  by_cases up : next ≥ halfNbase
  · rw [decide_eq_true up, if_pos rfl, if_pos up, count]
    refine @propagate_refines var x front (some next :: after) kept [] spare ?_ fits
    rw [List.append_nil]
    exact between
  · rw [decide_eq_false up, if_neg (by decide), if_neg up, settle_behind (Nat.le_add_right _ _)]
    exact ⟨_, _, rfl, rfl, ⟨_, _, between⟩, .kept rfl rfl⟩

theorem roundWithin_refines {kept : List Int} {last di : Int} (within : di ≠ 0)
    (between : var.ShowsBetween { x with digits := kept ++ [last] } (front ++ [some 0]) after) :
    Refines var.digits x.weight (var.roundCut di)
      (if last.tmod (roundPowers di) ≥ (roundPowers di).tdiv 2 then
        if roundPowers di + (last - last.tmod (roundPowers di)) ≥ nbase then
          carryInto x kept [roundPowers di + (last - last.tmod (roundPowers di)) - nbase]
        else .ok { x with digits := kept ++ [roundPowers di + (last - last.tmod (roundPowers di))] }
      else .ok { x with digits := kept ++ [last - last.tmod (roundPowers di)] }) := by
  obtain ⟨whole, ended⟩ := between.atLast rfl
  have place : (front ++ [some 0] ++ kept.map some).length = var.digits + kept.length := by
    rw [between.digits, List.length_append, List.length_map]
  have settled (digit : Int) : Refines var.digits x.weight
      ({ var with buf := front ++ [some 0] ++ kept.map some ++ some digit :: after }.settle
        (var.digits + kept.length)) (.ok { x with digits := kept ++ [digit] }) :=
    ⟨_, _, settle_behind (Nat.le_add_right _ _), rfl, ⟨_, _, between.last rfl digit⟩,
      .kept rfl rfl⟩
  rw [roundCut, roundCarry, if_neg within, ended, whole, place, roundWithin,
    loadDigit_append place, ok_bind]
  generalize roundPowers di = pow10
  dsimp only
  rw [storeDigit_append place, ok_bind]
  by_cases up : last.tmod pow10 ≥ pow10.tdiv 2
  · rw [if_pos up, if_pos up]
    by_cases carries : pow10 + (last - last.tmod pow10) ≥ nbase
    · rw [if_pos carries, if_pos carries, storeDigit_append place]
      exact propagate_refines spare (between.last rfl _) fits
    · rw [if_neg carries, if_neg carries, storeDigit_append place]
      exact settled _
  · rw [if_neg up, if_neg up]
    exact settled _

end

end NumericVar

namespace NumericVar

theorem round_refines {var : NumericVar} {x : Numeric} (shows_ : var.Shows x)
    (hasSpare : var.HasSpare) (spare : x.spare = 1) {rscale : Int}
    (fits : ScaleFits x.weight rscale) : Refines var.digits x.weight (var.round rscale) (roundVar x rscale) := by
  obtain ⟨front, after, between⟩ := shows_.spare hasSpare
  have wanted := decimalDigits_ok_iff.mpr ⟨fits.places, fits.decimals, fits.wanted, rfl⟩
  rw [round, roundVar]
  dsimp only
  rw [between.weight, wanted, ok_bind]
  by_cases below : (x.weight + 1) * decDigits + rscale < 0
  · rw [if_pos below, if_pos below]
    exact ⟨_, _, rfl, rfl, shows_.drop rscale, .dropped rfl rfl⟩
  · obtain ⟨n, count, remainder, places⟩ :=
      ndigits_eq (show 0 ≤ (x.weight + 1) * decDigits + rscale by omega)
    have cut (enough : n ≤ x.digits.length) := between.take n rscale enough
    rw [between.weight] at cut
    have length : { x with dscale := rscale }.ndigits = (x.digits.length : Int) := rfl
    have oneSpare : { x with dscale := rscale }.spare = 1 := spare
    rw [if_neg below, if_neg below, nbaseDigits_ok (by omega) fits.padded, ok_bind, count,
      Int.toNat_natCast, between.ndigits, length]
    by_cases shorter : n < x.digits.length ∨
        n = x.digits.length ∧ ((x.weight + 1) * decDigits + rscale).tmod decDigits > 0
    · have same : (n : Int) < x.digits.length ∨ (n : Int) = x.digits.length ∧
          ((x.weight + 1) * decDigits + rscale).tmod decDigits > 0 := by omega
      rw [if_pos shorter, if_pos same]
      by_cases border : ((x.weight + 1) * decDigits + rscale).tmod decDigits = 0
      · have inside : n < x.digits.length := by omega
        have own := cut inside.le
        rw [List.drop_eq_getElem_cons inside] at own
        have next : Radix.digitAt x.digits n = x.digits[n] := by
          rw [Radix.digitAt, if_pos ⟨Int.natCast_nonneg n, Int.ofNat_lt.mpr inside⟩,
            Int.toNat_natCast, List.getD_eq_getElem _ _ inside]
        rw [if_pos border, next, border]
        exact roundBorder_refines oneSpare fits.places own
      · rw [if_neg border]
        rcases List.eq_nil_or_concat (x.digits.take n) with empty | ⟨kept, last, split⟩
        · have taken := List.length_take_of_le (show n ≤ x.digits.length by omega)
          rw [empty, List.length_nil] at taken
          omega
        · have own := cut (by omega)
          rw [List.concat_eq_append] at split
          rw [split] at own ⊢
          rw [List.getLast?_concat, List.dropLast_concat]
          exact roundWithin_refines oneSpare fits.places border own
    · have same : ¬ ((n : Int) < x.digits.length ∨ (n : Int) = x.digits.length ∧
          ((x.weight + 1) * decDigits + rscale).tmod decDigits > 0) := by omega
      rw [if_neg shorter, if_neg same]
      refine ⟨_, _, rfl, rfl, ⟨front ++ [some 0], after, ?_⟩, .kept rfl rfl⟩
      exact ⟨between.buf, between.digits, rfl, rfl, between.sign, rfl⟩

theorem trunc_refines {var : NumericVar} {x : Numeric} (shows_ : var.Shows x) {rscale : Int}
    (fits : ScaleFits x.weight rscale) :
    Refines var.digits x.weight (var.trunc rscale) (truncVar x rscale) := by
  obtain ⟨front, after, between⟩ := id shows_
  have wanted := decimalDigits_ok_iff.mpr ⟨fits.places, fits.decimals, fits.wanted, rfl⟩
  rw [trunc, truncVar]
  dsimp only
  rw [between.weight, wanted, ok_bind]
  by_cases below : (x.weight + 1) * decDigits + rscale ≤ 0
  · rw [if_pos below, if_pos below]
    exact ⟨_, _, rfl, rfl, shows_.drop rscale, .dropped rfl rfl⟩
  · obtain ⟨n, count, remainder, places⟩ :=
      ndigits_eq (show 0 ≤ (x.weight + 1) * decDigits + rscale by omega)
    have cut (enough : n ≤ x.digits.length) := between.take n rscale enough
    rw [between.weight] at cut
    have length : { x with dscale := rscale }.ndigits = (x.digits.length : Int) := rfl
    rw [if_neg below, if_neg below, nbaseDigits_ok (by omega) fits.padded, ok_bind, count,
      Int.toNat_natCast, between.ndigits, length]
    by_cases enough : n ≤ x.digits.length
    · have own := cut enough
      have same : (n : Int) ≤ x.digits.length := by omega
      rw [if_pos enough, if_pos same]
      by_cases within : ((x.weight + 1) * decDigits + rscale).tmod decDigits > 0
      · rw [if_pos within, if_pos within]
        rcases List.eq_nil_or_concat (x.digits.take n) with empty | ⟨kept, last, split⟩
        · have taken := List.length_take_of_le enough
          rw [empty, List.length_nil] at taken
          omega
        · rw [List.concat_eq_append] at split
          rw [split] at own ⊢
          rw [List.getLast?_concat, List.dropLast_concat]
          obtain ⟨whole, ended⟩ := own.atLast rfl
          dsimp only at whole ended ⊢
          rw [ended, whole, truncWithin, loadDigit_append rfl, ok_bind, storeDigit_append rfl]
          exact ⟨_, _, rfl, rfl, ⟨_, _, own.last rfl _⟩, .kept rfl rfl⟩
      · rw [if_neg within, if_neg within]
        exact ⟨_, _, rfl, rfl, ⟨_, _, own⟩, .kept rfl rfl⟩
    · have same : ¬ (n : Int) ≤ x.digits.length := by omega
      rw [if_neg enough, if_neg same]
      refine ⟨_, _, rfl, rfl, ⟨front, after, ?_⟩, .kept rfl rfl⟩
      exact ⟨between.buf, between.digits, rfl, rfl, between.sign, rfl⟩

theorem scaleFits_of_round {var result : NumericVar} {rscale : Int}
    (run : var.round rscale = .ok result) : ScaleFits var.weight rscale := by
  obtain ⟨di, wanted, rest⟩ := bind_ok.mp run
  obtain ⟨places, decimals, fits, same⟩ := decimalDigits_ok_iff.mp wanted
  refine ⟨places, decimals, fits, ?_⟩
  by_cases below : di < 0
  · rw [same, decDigits]
    omega
  · rw [if_neg below] at rest
    obtain ⟨n, count, _⟩ := bind_ok.mp rest
    obtain ⟨_, padded, _⟩ := bind_ok.mp count
    rw [same]
    exact (int32_ok_iff.mp padded).1.2

structure LeavesAt (var : NumericVar) (weight rscale : Int) (value : ℚ) (result : NumericVar)
    (y : Numeric) : Prop where
  shows_ : result.Shows y
  range : Radix.Digits nbase y.digits
  same : y.value = value
  dscale : y.dscale = rscale
  /-- a carry out of the first digit takes the spare one -/
  carried : (nbase : ℚ) ^ (weight + 1) ≤ |value| →
    y.weight = weight + 1 ∧ result.digits + 1 = var.digits
  kept : |value| < (nbase : ℚ) ^ (weight + 1) →
    (y.digits = [] ∨ y.weight = weight) ∧ result.digits = var.digits

theorem value_of_magnitude {x y : Numeric} {f : ℚ → ℚ} (odd : ∀ value, f (-value) = -f value)
    (magnitude : y.magnitude = f x.magnitude)
    (sign : y.sign = x.sign ∨ y.sign = numericPos ∧ y.digits = []) : y.value = f x.value := by
  rw [Numeric.value, Numeric.value, magnitude]
  rcases sign with same | ⟨positive, empty⟩
  · rw [same]
    by_cases negative : x.sign = numericNeg
    · rw [if_pos negative, if_pos negative, odd]
    · rw [if_neg negative, if_neg negative]
  · rw [Numeric.magnitude_of_nil empty] at magnitude
    rw [positive, if_neg (by decide), apply_ite f, odd, ← magnitude, neg_zero, ite_self]

theorem Moved.leavesAt {var result : NumericVar} {y : Numeric} {weight rscale : Int} {value : ℚ}
    (moved : Moved var.digits weight result y) (shows_ : result.Shows y)
    (range : Radix.Digits nbase y.digits) (same : y.value = value) (dscale : y.dscale = rscale) :
    var.LeavesAt weight rscale value result y := by
  have size : |value| = y.magnitude := by rw [← same, Numeric.abs_value range]
  have below : y.magnitude < (nbase : ℚ) ^ (y.weight + 1) := Radix.magnitude_lt nbase_pos range _
  refine ⟨shows_, range, same, dscale, ?_, ?_⟩
  · intro reached
    rw [size] at reached
    cases moved with
    | dropped digits place =>
        rw [Numeric.magnitude_of_nil digits] at reached
        exact absurd reached (not_le.mpr (zpow_pos nbase_cast_pos _))
    | kept sameWeight place =>
        rw [sameWeight] at below
        exact absurd reached (not_le.mpr below)
    | carried nextWeight place first => exact ⟨nextWeight, place⟩
  · intro short
    rw [size] at short
    cases moved with
    | dropped digits place => exact ⟨Or.inl digits, place⟩
    | kept sameWeight place => exact ⟨Or.inr sameWeight, place⟩
    | carried nextWeight place first =>
        obtain ⟨rest, digits⟩ := first
        rw [Numeric.magnitude, digits, nextWeight] at short
        rw [digits] at range
        exact absurd short (not_lt.mpr (Radix.le_magnitude nbase_pos Int.one_pos
          (Radix.digits_cons.mp range).2 _))

def Rounds (var : NumericVar) (x : Numeric) (rscale : Int) : Prop :=
  ∃ result y, var.round rscale = .ok result ∧
    var.LeavesAt x.weight rscale (nearestAt x.value rscale) result y

def Truncates (var : NumericVar) (x : Numeric) (rscale : Int) : Prop :=
  ∃ result y, var.trunc rscale = .ok result ∧
    var.LeavesAt x.weight rscale (truncAt x.value rscale) result y

section

variable {var : NumericVar} {x : Numeric} (shows_ : var.Shows x)
  (range : Radix.Digits nbase x.digits) {rscale : Int} (fits : ScaleFits x.weight rscale)

include shows_ range fits

theorem rounds_of_fits (hasSpare : var.HasSpare) : var.Rounds x rscale := by
  obtain ⟨front, after, between⟩ := id shows_
  have spared : var.Shows { x with spare := 1 } :=
    ⟨front, after, between.buf, between.digits, between.ndigits, between.weight, between.sign,
      between.dscale⟩
  obtain ⟨result, y, run, abstract, shown, moved⟩ := round_refines spared hasSpare rfl fits
  obtain ⟨rounded, roundRun, digits, magnitude, dscale, sign⟩ :=
    @roundVar_spec { x with spare := 1 } range Nat.one_pos rscale
  obtain rfl := Except.ok.inj (roundRun.symm.trans abstract)
  have value : rounded.value = nearestAt x.value rscale :=
    @value_of_magnitude { x with spare := 1 } rounded (nearestAt · rscale)
      (fun value => nearestAt_neg value rscale) magnitude sign
  exact ⟨result, rounded, run, moved.leavesAt shown digits value dscale⟩

theorem truncates_of_fits : var.Truncates x rscale := by
  obtain ⟨result, y, run, abstract, shown, moved⟩ := trunc_refines shows_ fits
  obtain ⟨cut, cutRun, digits, magnitude, dscale, sign⟩ := truncVar_spec range rscale
  obtain rfl := Except.ok.inj (cutRun.symm.trans abstract)
  rw [← truncAt_of_nonneg (Numeric.magnitude_nonneg range)] at magnitude
  have value : cut.value = truncAt x.value rscale :=
    @value_of_magnitude x cut (truncAt · rscale) (fun value => truncAt_neg value rscale)
      magnitude sign
  exact ⟨result, cut, run, moved.leavesAt shown digits value dscale⟩

end

/-- Rounding and truncation do what they should unless an `int` overflows. -/
theorem rounding_iff {var : NumericVar} {x : Numeric} (shows_ : var.Shows x)
    (hasSpare : var.HasSpare) (range : Radix.Digits nbase x.digits) (rscale : Int) :
    var.Rounds x rscale ∧ var.Truncates x rscale ↔ ScaleFits x.weight rscale := by
  constructor
  · rintro ⟨⟨result, y, run, leaves⟩, _⟩
    obtain ⟨front, after, between⟩ := shows_
    rw [← between.weight]
    exact scaleFits_of_round run
  · intro fits
    exact ⟨rounds_of_fits shows_ range fits hasSpare, truncates_of_fits shows_ range fits⟩

theorem rounding_carries :
    NumericVar.Rounds ⟨[some 0, some 9999, some 9999], 1, 2, 0, numericPos, 4⟩
        ⟨1, [9999, 9999], 0, numericPos, 4⟩ 0 ∧
      NumericVar.Truncates ⟨[some 0, some 9999, some 9999], 1, 2, 0, numericPos, 4⟩
        ⟨1, [9999, 9999], 0, numericPos, 4⟩ 0 := by
  have range : Radix.Digits nbase [9999, 9999] := by
    rw [Radix.digits_cons, Radix.digits_cons]
    exact ⟨by decide, by decide, Radix.Digits.nil⟩
  exact (rounding_iff ⟨[some 0], [], rfl, rfl, rfl, rfl, rfl, rfl⟩ ⟨0, rfl, rfl⟩ range 0).mpr
    ⟨by decide, by decide, by decide, by decide⟩

theorem round_overflows : ¬ ∀ (var : NumericVar) (x : Numeric), var.Shows x → var.HasSpare →
    Radix.Digits nbase x.digits → x.digits ≠ [] → ∀ rscale, var.Rounds x rscale := by
  intro rounds
  have range : Radix.Digits nbase [0, 0, 1] := by
    rw [Radix.digits_cons, Radix.digits_cons, Radix.digits_cons]
    exact ⟨by decide, by decide, by decide, Radix.Digits.nil⟩
  obtain ⟨result, y, run, leaves⟩ := rounds
    ⟨[some 0, some 0, some 0, some 1], 1, 3, 536870912, numericPos, 0⟩
    ⟨1, [0, 0, 1], 536870912, numericPos, 0⟩ ⟨[some 0], [], rfl, rfl, rfl, rfl, rfl, rfl⟩
    ⟨0, rfl, rfl⟩ range (by decide) 0
  have fits := scaleFits_of_round run
  exact absurd fits.decimals (by decide)

end NumericVar

end PqAsync
