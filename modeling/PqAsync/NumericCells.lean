import PqAsync.CellNulls
import PqAsync.NumericLiteral
import PqAsync.NumericWire

/-!
NUMERIC cells that are read as truth values and as integers. Each conversion goes through the
text of the number; the parser of the integers is a parameter, which may throw.
-/

namespace PqAsync

open Results Numeric

/-- `md::str_to_num`, for an integer of each width. -/
def StrToNum := (w : Nat) → List Char → Except String (BitVec w)

section

variable (strToNum : StrToNum)

def boolOfNumeric (x : Numeric) : Bool := if x.text = ['0'] then false else true

def int16OfNumeric (x : Numeric) : Except String (BitVec 16) := strToNum 16 x.text

def int32OfNumeric (x : Numeric) : Except String (BitVec 32) := strToNum 32 x.text

def int64OfNumeric (x : Numeric) : Except String (BitVec 64) :=
  (strToNum 16 x.text).map (BitVec.signExtend 64)

def Conversions.withNumeric (others : Conversions) : Conversions :=
  { others with
    convert := fun source target oid value =>
      match source, target, value with
      | .numeric, .bool, x => .ok (boolOfNumeric x)
      | .numeric, .int16, x => int16OfNumeric strToNum x
      | .numeric, .int32, x => int32OfNumeric strToNum x
      | .numeric, .int64, x => int64OfNumeric strToNum x
      | source, target, value => others.convert source target oid value }

/-- `val_from_pgparam` on a NUMERIC cell with the given bytes. -/
def readNumericCell (others : Conversions) (host : Host) (target : PgType)
    (bytes : List UInt8) : Except WireError target.Value :=
  CellType.valFromPgparam (others.withNumeric strToNum) host numericOid (some bytes) bytes.length
    (.scalar (.value target))

end

/-- A number as the server sends it: stripped of zero digits, with no digit behind its display
scale, in fields of 16 bits. -/
structure Numeric.Sent (x : Numeric) : Prop where
  stripped : x.Stripped
  within : x.WithinScale
  fits : FitsWire x

section

variable {strToNum : StrToNum} {others : Conversions} {host : Host}

theorem fromPointer_numeric {x : Numeric} (sent : x.Sent) :
    PgType.fromPointer host .numeric (some (numericMemory x)) (numericMemory x).length =
      .ok { x with spare := 1 } := by
  have read := readsAs_numeric sent.stripped.digits (Holds.whole (numericMemory x))
  rw [decodedNumeric_fits sent.fits, received_eq sent.stripped.sign sent.fits] at read
  exact read

theorem readNumericCell_eq {target : PgType} (foreign : (numericOid : Int) ∉ target.ownOids)
    (source : target.source numericOid = some .numeric) {bytes : List UInt8} {x : Numeric}
    (arrives : PgType.fromPointer host .numeric (some bytes) bytes.length = .ok x) :
    readNumericCell strToNum others host target bytes =
      orThrow ((others.withNumeric strToNum).convert .numeric target numericOid x) := by
  rw [readNumericCell, CellType.valFromPgparam, Scalar.select, PgType.select, if_neg foreign,
    source]
  dsimp only
  rw [arrives]
  rfl

section

variable {x : Numeric} (sent : x.Sent)

include sent

theorem readNumericCell_bool :
    readNumericCell strToNum others host .bool (numericMemory x) = .ok (boolOfNumeric x) := by
  rw [readNumericCell_eq (by decide) (by decide) (fromPointer_numeric sent)]
  rfl

theorem readNumericCell_int16 :
    readNumericCell strToNum others host .int16 (numericMemory x) =
      orThrow (int16OfNumeric strToNum x) := by
  rw [readNumericCell_eq (by decide) (by decide) (fromPointer_numeric sent)]
  rfl

theorem readNumericCell_int32 :
    readNumericCell strToNum others host .int32 (numericMemory x) =
      orThrow (int32OfNumeric strToNum x) := by
  rw [readNumericCell_eq (by decide) (by decide) (fromPointer_numeric sent)]
  rfl

theorem readNumericCell_int64 :
    readNumericCell strToNum others host .int64 (numericMemory x) =
      orThrow (int64OfNumeric strToNum x) := by
  rw [readNumericCell_eq (by decide) (by decide) (fromPointer_numeric sent)]
  rfl

theorem exists_sent_text : ∃ (negative : Bool) (W g D : Nat), D < 10 ^ g ∧ x.dscale = g ∧
    (negative = true → 0 < W * 10 ^ g + D) ∧
    x.value = (if negative then -(W + D / 10 ^ g : ℚ) else W + D / 10 ^ g) ∧
    x.text = signText negative ++ (Nat.toDigits 10 W ++ pointText (Decimal.padded g D)) := by
  obtain ⟨g, N, placed⟩ := sent.within.placed sent.stripped.digits
  have power : 0 < 10 ^ g := Nat.pow_pos (by decide)
  have parts : N / 10 ^ g * 10 ^ g + N % 10 ^ g = N := by rw [mul_comm, Nat.div_add_mod]
  have magnitude : ((N / 10 ^ g : Nat) + (N % 10 ^ g : Nat) / 10 ^ g : ℚ) = x.magnitude := by
    rw [← div_places, parts, placed.magnitude_eq]
  have value : x.value = if decide (x.sign = numericNeg) = true then
      -((N / 10 ^ g : Nat) + (N % 10 ^ g : Nat) / 10 ^ g : ℚ)
      else (N / 10 ^ g : Nat) + (N % 10 ^ g : Nat) / 10 ^ g := by
    rw [magnitude, Numeric.value]
    simp only [decide_eq_true_eq]
  have signed : decide (x.sign = numericNeg) = true →
      0 < N / 10 ^ g * 10 ^ g + N % 10 ^ g := by
    intro negative
    have positive := sent.stripped.wellFormed.pos_of_neg (of_decide_eq_true negative)
    rw [placed.magnitude_eq] at positive
    rw [parts]
    by_contra none
    rw [Nat.eq_zero_of_not_pos none] at positive
    simp at positive
  exact ⟨decide (x.sign = numericNeg), N / 10 ^ g, g, N % 10 ^ g, Nat.mod_lt _ power, placed.scale,
    signed, value, text_of_value sent.stripped placed.scale (Nat.mod_lt _ power) signed value⟩

theorem text_of_integer {n : Int} (value : x.value = n) : ∃ g : Nat, x.dscale = g ∧
    x.text = signText (n < 0) ++ (Nat.toDigits 10 n.natAbs ++ pointText (List.replicate g '0')) := by
  obtain ⟨g, scale⟩ := Int.eq_ofNat_of_zero_le sent.within.1
  refine ⟨g, scale, ?_⟩
  rw [← Decimal.padded_zero]
  refine text_of_value sent.stripped scale (Nat.pow_pos (by decide)) ?_ ?_
  · intro negative
    have below := of_decide_eq_true negative
    exact Nat.add_pos_left (Nat.mul_pos (by omega) (Nat.pow_pos (by decide))) 0
  · rw [value, Nat.cast_natAbs, Nat.cast_zero, zero_div, add_zero]
    by_cases negative : n < 0
    · rw [if_pos (decide_eq_true negative), abs_of_neg negative, Int.cast_neg, neg_neg]
    · rw [if_neg (by simpa using negative), abs_of_nonneg (not_lt.mp negative)]

theorem text_eq_zero_iff : x.text = ['0'] ↔ x.value = 0 ∧ x.dscale = 0 := by
  constructor
  · intro zero
    obtain ⟨negative, W, g, D, fits, scale, _, value, text⟩ := exists_sent_text sent
    rw [zero] at text
    obtain ⟨c, cs, whole⟩ := List.exists_cons_of_ne_nil (@Nat.toDigits_ne_nil W 10)
    cases negative with
    | true => simp [signText, whole] at text
    | false =>
        rw [whole] at text
        obtain ⟨first, rest⟩ := List.cons.inj text
        obtain ⟨none, noPoint⟩ := List.append_eq_nil_iff.mp rest.symm
        have noPlaces : g = 0 := by
          by_contra some
          rw [pointText_padded (Nat.pos_of_ne_zero some)] at noPoint
          contradiction
        have wholeIs : W = 0 := by
          rw [← Decimal.number_toDigits W, whole, ← first, none]
          rfl
        rw [noPlaces, pow_zero, Nat.lt_one_iff] at fits
        rw [value, wholeIs, fits, scale, noPlaces]
        simp
  · rintro ⟨isZero, none⟩
    obtain ⟨g, scale, text⟩ := text_of_integer sent (n := 0) (by rw [isZero, Int.cast_zero])
    have noPlaces : g = 0 := by
      rw [none] at scale
      omega
    rw [text, noPlaces]
    rfl

theorem boolOfNumeric_iff :
    boolOfNumeric x = decide (x.value ≠ 0) ↔ (x.value = 0 → x.dscale = 0) := by
  rw [boolOfNumeric]
  by_cases printed : x.text = ['0']
  · obtain ⟨zero, none⟩ := (text_eq_zero_iff sent).mp printed
    rw [if_pos printed, decide_eq_false (not_not.mpr zero)]
    exact iff_of_true rfl fun _ => none
  · rw [if_neg printed, eq_comm, decide_eq_true_iff]
    constructor
    · intro some zero
      exact absurd zero some
    · intro scaled zero
      exact printed ((text_eq_zero_iff sent).mpr ⟨zero, scaled zero⟩)

end

/-- What is relied on of the parser: it reads the text of an integer that fits, with zeros behind
the point or without a point. -/
structure ReadsIntegers (strToNum : StrToNum) : Prop where
  read {w : Nat} {v : BitVec w} {negative : Bool} {digits zeros : List Char} : w ∈ [16, 32, 64] →
    PlainDigits digits zeros → (∀ c ∈ zeros, c = '0') →
    v.toInt = (if negative then -(Decimal.number digits : Int) else Decimal.number digits) →
    strToNum w (signText negative ++ (digits ++ pointText zeros)) = .ok v

theorem ReadsIntegers.text (reads : ReadsIntegers strToNum) {x : Numeric} (sent : x.Sent) {n : Int}
    (value : x.value = n) {w : Nat} (width : w ∈ [16, 32, 64]) {v : BitVec w}
    (same : v.toInt = n) : strToNum w x.text = .ok v := by
  obtain ⟨g, _, text⟩ := text_of_integer sent value
  rw [text]
  have plain : PlainDigits (Nat.toDigits 10 n.natAbs) (List.replicate g '0') := by
    refine ⟨Nat.toDigits_ne_nil, ?_, ?_⟩
    · intro c member
      exact Nat.isDigit_of_mem_toDigits (by decide) (by decide) member
    · intro c member
      rw [(List.mem_replicate.mp member).2]
      rfl
  refine reads.read width plain (fun c member => (List.mem_replicate.mp member).2) ?_
  rw [Decimal.number_toDigits, same]
  by_cases negative : n < 0
  · rw [if_pos (decide_eq_true negative)]
    omega
  · rw [if_neg (by simpa using negative)]
    omega

theorem int64OfNumeric_fits {x : Numeric} {v : BitVec 64}
    (read : int64OfNumeric strToNum x = .ok v) : FitsInt16 v.toInt := by
  obtain ⟨u, _, same⟩ := map_ok.mp read
  have low := @BitVec.le_toInt 16 u
  have high := @BitVec.toInt_lt 16 u
  rw [← same, BitVec.toInt_signExtend_of_le (by decide)]
  constructor
  · omega
  · omega

theorem int64OfNumeric_iff (reads : ReadsIntegers strToNum) {x : Numeric} (sent : x.Sent) {n : Int}
    (value : x.value = n) {v : BitVec 64} (same : v.toInt = n) :
    int64OfNumeric strToNum x = .ok v ↔ FitsInt16 n := by
  constructor
  · intro read
    rw [← same]
    exact int64OfNumeric_fits read
  · intro narrow
    have held : (BitVec.ofInt 16 n).toInt = n := narrow_eq_iff.mpr narrow
    rw [int64OfNumeric, reads.text sent value (by decide) held]
    refine congrArg Except.ok (BitVec.toInt_inj.mp ?_)
    rw [BitVec.toInt_signExtend_of_le (by decide), held, same]

theorem readNumericCell_nan :
    readNumericCell strToNum others host .bool (numericMemory nan) = .ok false := by
  have arrives : pgvalToNumeric (numericMemory nan) 0 (numericMemory nan).length =
      .ok ⟨1, [], 0, -16384, 0⟩ := by decide
  rw [readNumericCell_eq (by decide) (by decide) arrives]
  rfl

variable (others host)

/-- An integer that fits is read from a NUMERIC cell, but as 64 bits exactly when it fits 16. The
truth value is right unless the number is a zero with places, or NaN. -/
theorem numeric_cells (reads : ReadsIntegers strToNum) {x : Numeric} (sent : x.Sent) :
    (∀ n : Int, x.value = n →
      (∀ v : BitVec 16, v.toInt = n →
        readNumericCell strToNum others host .int16 (numericMemory x) = .ok v) ∧
      (∀ v : BitVec 32, v.toInt = n →
        readNumericCell strToNum others host .int32 (numericMemory x) = .ok v) ∧
      (∀ v : BitVec 64, v.toInt = n →
        (readNumericCell strToNum others host .int64 (numericMemory x) = .ok v ↔
          FitsInt16 n))) ∧
    (readNumericCell strToNum others host .bool (numericMemory x) = .ok (decide (x.value ≠ 0)) ↔
      (x.value = 0 → x.dscale = 0)) ∧
    readNumericCell strToNum others host .bool (numericMemory nan) = .ok false := by
  refine ⟨?_, ?_, readNumericCell_nan⟩
  · intro n value
    refine ⟨?_, ?_, ?_⟩
    · intro v same
      rw [readNumericCell_int16 sent, int16OfNumeric, reads.text sent value (by decide) same]
      rfl
    · intro v same
      rw [readNumericCell_int32 sent, int32OfNumeric, reads.text sent value (by decide) same]
      rfl
    · intro v same
      rw [readNumericCell_int64 sent, ← int64OfNumeric_iff reads sent value same]
      exact orThrow_ok
  · rw [readNumericCell_bool sent, ← boolOfNumeric_iff sent]
    exact ⟨fun same => Except.ok.inj same, fun same => congrArg Except.ok same⟩

end

def firstInteger : List Char → Int
  | '-' :: rest => -(Decimal.number (rest.takeWhile Char.isDigit) : Int)
  | rest => Decimal.number (rest.takeWhile Char.isDigit)

def extractInteger : StrToNum := fun w text =>
  if (BitVec.ofInt w (firstInteger text)).toInt = firstInteger text then
    .ok (BitVec.ofInt w (firstInteger text))
  else .error "out of range"

theorem takeWhile_pointText {digits zeros : List Char} (plain : PlainDigits digits zeros) :
    (digits ++ pointText zeros).takeWhile Char.isDigit = digits := by
  rw [List.takeWhile_append_of_pos plain.whole]
  cases zeros with
  | nil => rw [pointText, List.takeWhile_nil, List.append_nil]
  | cons c zeros => rw [pointText, List.takeWhile_cons_of_neg (by decide), List.append_nil]

theorem firstInteger_text {negative : Bool} {digits zeros : List Char}
    (plain : PlainDigits digits zeros) :
    firstInteger (signText negative ++ (digits ++ pointText zeros)) =
      if negative then -(Decimal.number digits : Int) else Decimal.number digits := by
  have cut := takeWhile_pointText plain
  cases negative with
  | true =>
      change -(Decimal.number ((digits ++ pointText zeros).takeWhile Char.isDigit) : Int) = _
      rw [cut, if_pos rfl]
  | false =>
      obtain ⟨c, rest, rfl⟩ := List.exists_cons_of_ne_nil plain.some
      have unsigned : firstInteger (signText false ++ (c :: rest ++ pointText zeros)) =
          Decimal.number ((c :: rest ++ pointText zeros).takeWhile Char.isDigit) := by
        rcases Decimal.isDigit_cases (plain.whole c List.mem_cons_self) with
          rfl | rfl | rfl | rfl | rfl | rfl | rfl | rfl | rfl | rfl
        all_goals rfl
      rw [unsigned, cut, if_neg Bool.false_ne_true]

theorem extractInteger_reads : ReadsIntegers extractInteger where
  read {w v negative digits zeros} _ plain _ same := by
    have value := @firstInteger_text negative _ _ plain
    rw [← same] at value
    rw [extractInteger, value, BitVec.ofInt_toInt, if_pos rfl]

theorem five_sent : Numeric.Sent ⟨0, [5], 0, numericPos, 2⟩ :=
  ⟨⟨by decide, by decide, by decide, by decide, by decide⟩,
    ⟨by decide, 500, by norm_num [Numeric.magnitude, Radix.magnitude, nbase]⟩,
    ⟨by decide, by decide, by decide, by decide⟩⟩

theorem numeric_cells_five :
    readNumericCell extractInteger noConversions epochHost .int64
      (numericMemory ⟨0, [5], 0, numericPos, 2⟩) = .ok (5 : BitVec 64) := by
  obtain ⟨integers, _⟩ := numeric_cells noConversions epochHost extractInteger_reads five_sent
  have value : Numeric.value ⟨0, [5], 0, numericPos, 2⟩ = (5 : Int) := by
    norm_num [Numeric.value, Numeric.magnitude, Radix.magnitude, nbase, numericPos, numericNeg]
  exact ((integers 5 value).2.2 5 (by decide)).mpr (by decide)

theorem numeric_cells_fail :
    Numeric.value ⟨0, [4], 1, numericPos, 0⟩ = 40000 ∧
    readNumericCell extractInteger noConversions epochHost .int64
      (numericMemory ⟨0, [4], 1, numericPos, 0⟩) = .error (.exception "out of range") ∧
    Numeric.value ⟨0, [], 0, numericPos, 2⟩ = 0 ∧
    readNumericCell extractInteger noConversions epochHost .bool
      (numericMemory ⟨0, [], 0, numericPos, 2⟩) = .ok true := by
  have wide : PgType.fromPointer epochHost .numeric (some (numericMemory ⟨0, [4], 1, numericPos, 0⟩))
      (numericMemory ⟨0, [4], 1, numericPos, 0⟩).length = .ok ⟨1, [4], 1, numericPos, 0⟩ := rfl
  have zero : PgType.fromPointer epochHost .numeric (some (numericMemory ⟨0, [], 0, numericPos, 2⟩))
      (numericMemory ⟨0, [], 0, numericPos, 2⟩).length = .ok ⟨1, [], 0, numericPos, 2⟩ := rfl
  refine ⟨?_, ?_, ?_, ?_⟩
  · norm_num [Numeric.value, Numeric.magnitude, Radix.magnitude, nbase, numericPos, numericNeg]
  · rw [readNumericCell_eq (by decide) (by decide) wide]
    rfl
  · norm_num [Numeric.value, Numeric.magnitude, Radix.magnitude]
  · rw [readNumericCell_eq (by decide) (by decide) zero]
    rfl

end PqAsync
