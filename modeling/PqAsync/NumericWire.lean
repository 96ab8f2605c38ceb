import PqAsync.NumericObtained
import PqAsync.RangeForms

/-!
What becomes of a numeric on the wire, alone and as a bound of a range. The header keeps 16
signed bits of each field, so it keeps a number exactly when its fields fit, and never NaN.
-/

namespace PqAsync

open Results Numeric

def narrow (x : Int) : Int := (BitVec.ofInt 16 x).toInt

def FitsInt16 (x : Int) : Prop := -32768 ≤ x ∧ x ≤ 32767

instance (x : Int) : Decidable (FitsInt16 x) := inferInstanceAs (Decidable (_ ∧ _))

theorem narrow_eq (x : Int) : narrow x = x.bmod 65536 := BitVec.toInt_ofInt x

theorem narrow_eq_iff {x : Int} : narrow x = x ↔ FitsInt16 x := by
  rw [narrow_eq, Int.bmod_def, FitsInt16]
  constructor
  · intro same
    split at same <;> omega
  · intro fits
    split <;> omega

theorem narrow_le {x : Int} (nonneg : 0 ≤ x) : narrow x ≤ x := by
  rw [narrow_eq, Int.bmod_def]
  split <;> omega

theorem narrow_digit {d : Int} (own : 0 ≤ d ∧ d < nbase) : narrow d = d := by
  have base : nbase = 10000 := rfl
  exact narrow_eq_iff.mpr ⟨by omega, by omega⟩

theorem int16Memory_eq (x : Int) :
    int16Memory x = Bytes.bigEndian 2 (BitVec.ofInt 16 x).toNat :=
  inMemory_swap2 (BitVec.ofInt 16 x) true

@[simp] theorem length_int16Memory (x : Int) : (int16Memory x).length = 2 := by
  simp [int16Memory_eq]

theorem length_digits (digits : List Int) :
    (digits.flatMap int16Memory).length = 2 * digits.length := by
  induction digits with
  | nil => rfl
  | cons digit digits ih =>
      rw [List.flatMap_cons, List.length_append, length_int16Memory, ih, List.length_cons]
      omega

theorem length_numericMemory (x : Numeric) :
    (numericMemory x).length = 8 + 2 * x.digits.length := by
  simp only [numericMemory, List.length_append, length_int16Memory, length_digits]
  omega

theorem Holds.readNarrow {buffer : List UInt8} {offset : Int} {x : Int}
    (holds : Holds buffer offset (int16Memory x)) :
    PqAsync.readInt16 buffer offset = .ok (BitVec.ofInt 16 x) := by
  rw [int16Memory_eq] at holds
  exact holds.readInt16

theorem readDigits_holds {buffer : List UInt8} {n : Nat} {digits : List Int} {offset : Int}
    (enough : n ≤ digits.length) (holds : Holds buffer offset (digits.flatMap int16Memory)) :
    readDigits buffer n offset = .ok ((digits.take n).map narrow) := by
  induction n generalizing digits offset with
  | zero => simp [readDigits]
  | succ n ih =>
      cases digits with
      | nil => simp at enough
      | cons digit digits =>
          rw [List.flatMap_cons] at holds
          have rest : Holds buffer (offset + 2) (digits.flatMap int16Memory) :=
            holds.after (by rw [length_int16Memory]; rfl)
          rw [readDigits, holds.left.readNarrow]
          change (readDigits buffer n (offset + 2) >>= fun digits => _) = _
          rw [ih (by simpa using enough) rest]
          rfl

def received (x : Numeric) : Numeric :=
  { spare := 1, digits := x.digits.take (narrow x.ndigits).toNat, weight := narrow x.weight,
    sign := narrow x.sign, dscale := narrow x.dscale }

theorem pgvalToNumeric_holds {x : Numeric} (kept : ∀ d ∈ x.digits, narrow d = d)
    {buffer : List UInt8} {offset len : Int} (present : len ≠ -1)
    (holds : Holds buffer offset (numericMemory x)) :
    pgvalToNumeric buffer offset len = do
      newDigits (narrow x.ndigits)
      return received x := by
  have two {x : Int} : ((int16Memory x).length : Int) = 2 := by rw [length_int16Memory]; rfl
  have weight := holds.after two
  have sign := weight.after two
  have dscale := sign.after two
  have digits := dscale.after two
  simp only [add_assoc, Int.reduceAdd] at sign dscale digits
  have enough : (narrow x.ndigits).toNat ≤ x.digits.length := by
    have below := narrow_le (show 0 ≤ x.ndigits by rw [ndigits]; omega)
    rw [ndigits] at below ⊢
    omega
  have same : (x.digits.take (narrow x.ndigits).toNat).map narrow =
      x.digits.take (narrow x.ndigits).toNat := by
    rw [List.map_congr_left (fun digit member => kept digit (List.mem_of_mem_take member)),
      List.map_id']
  have digitsRead := readDigits_holds enough digits
  rw [same] at digitsRead
  rw [pgvalToNumeric, if_neg present, holds.left.readNarrow]
  change (readInt16 buffer (offset + 2) >>= fun weight => _) = _
  rw [weight.left.readNarrow]
  change (readInt16 buffer (offset + 4) >>= fun sign => _) = _
  rw [sign.left.readNarrow]
  change (readInt16 buffer (offset + 6) >>= fun dscale => _) = _
  rw [dscale.left.readNarrow]
  change (newDigits (narrow x.ndigits) >>= fun _ => _) = _
  cases newDigits (narrow x.ndigits) with
  | error failure => rfl
  | ok =>
      change (readDigits buffer (narrow x.ndigits).toNat (offset + 8) >>= fun digits => _) = _
      rw [digitsRead]
      rfl

theorem numericLength_ok {x : Numeric} (small : x.digits.length < 1073741820) :
    numericLength x = .ok (numericMemory x).length := by
  have words : addInt 4 x.ndigits = .ok (4 + x.digits.length) := by
    rw [ndigits]
    exact addInt_ok (by omega) (by omega)
  have total : ((numericMemory x).length : Int) = 0 + 2 * (4 + x.digits.length) := by
    rw [length_numericMemory]
    push_cast
    ring
  rw [total, zero_add]
  refine bind_ok.mpr ⟨_, words, ?_⟩
  rw [mulInt, if_pos]
  constructor
  · norm_num
    omega
  · norm_num
    omega

theorem numericLength_overflow {x : Numeric} (large : 1073741820 ≤ x.digits.length) :
    numericLength x = .error .overflow := by
  rw [numericLength, addInt, ndigits]
  by_cases fits : -2 ^ 31 ≤ 4 + (x.digits.length : Int) ∧ 4 + (x.digits.length : Int) < 2 ^ 31
  · rw [if_pos fits, ok_bind, mulInt]
    refine if_neg ?_
    rintro ⟨low, high⟩
    norm_num at high
    omega
  · rw [if_neg fits]
    rfl

structure SameNumber (x y : Numeric) : Prop where
  nan : y.isNan = x.isNan
  dscale : y.dscale = x.dscale
  finite : x.isNan = false → y.value = x.value ∧ y.sign = x.sign

/-- The fields of a number that 16 signed bits hold; NaN has a sign that they do not. -/
structure FitsWire (x : Numeric) : Prop where
  finite : x.isNan = false
  ndigits : x.ndigits ≤ 32767
  weight : FitsInt16 x.weight
  dscale : FitsInt16 x.dscale

theorem FitsWire.counted {x : Numeric} (fits : FitsWire x) : narrow x.ndigits = x.ndigits :=
  narrow_eq_iff.mpr ⟨by rw [Numeric.ndigits]; omega, fits.ndigits⟩

theorem FitsWire.small {x : Numeric} (fits : FitsWire x) : x.digits.length < 1073741820 := by
  have few := fits.ndigits
  rw [Numeric.ndigits] at few
  omega

namespace Numeric

variable {x : Numeric}

theorem Known.sign_of_finite (known : x.Known) (finite : x.isNan = false) :
    x.sign = numericPos ∨ x.sign = numericNeg := by
  rcases known.sign with sign | sign | sign
  · exact Or.inl sign
  · exact Or.inr sign
  · rw [isNan, sign] at finite
    exact absurd finite (by decide)

theorem narrow_sign (valid : x.sign = numericPos ∨ x.sign = numericNeg) :
    narrow x.sign = x.sign := by
  rcases valid with sign | sign
  · rw [sign]
    rfl
  · rw [sign]
    rfl

theorem magnitude_of_value {y : Numeric} (sign : y.sign = x.sign) (value : y.value = x.value) :
    y.magnitude = x.magnitude := by
  rw [Numeric.value, Numeric.value, sign] at value
  split at value
  · exact neg_injective value
  · exact value

theorem Trimmed.head_pos {d : Int} {digits : List Int} (trimmed : x.Trimmed)
    (split : x.digits = d :: digits) : 0 < d := by
  have own := trimmed.digits d (by rw [split]; exact List.mem_cons_self)
  have different : d ≠ 0 := by
    intro zero
    apply trimmed.leading
    rw [split, zero]
    rfl
  omega

theorem Trimmed.whole_of_magnitude (trimmed : x.Trimmed) {n : Nat} {weight : Int}
    (same : Radix.magnitude nbase (x.digits.take n) weight = x.magnitude) :
    x.digits.length ≤ n ∧ (x.digits ≠ [] → weight = x.weight) := by
  rcases split : x.digits with _ | ⟨d, digits⟩
  · exact ⟨Nat.zero_le n, fun some => absurd rfl some⟩
  · have first := trimmed.head_pos split
    have range := trimmed.digits
    rw [Numeric.magnitude, split] at same
    rw [split] at range
    obtain ⟨_, others⟩ := Radix.digits_cons.mp range
    cases n with
    | zero =>
        have positive := Radix.magnitude_pos nbase_pos range x.weight
          ⟨d, List.mem_cons_self, first.ne'⟩
        exact absurd same positive.ne
    | succ n =>
        rw [List.take_succ_cons] at same
        have large : 1 < nbase := by decide
        have takenRange : Radix.Digits nbase (d :: digits.take n) := range.take (n + 1)
        have low := Radix.weight_le_of_magnitude large first (others.take n) range same
        have high := Radix.weight_le_of_magnitude large first others takenRange same.symm
        have sameWeight : weight = x.weight := le_antisymm low high
        refine ⟨?_, fun _ => sameWeight⟩
        by_contra longer
        -- the digits that were left out end in one that is not zero
        have rest : Radix.magnitude nbase (digits.drop n) (x.weight - (n + 1)) = 0 := by
          have parts := @Radix.magnitude_append nbase (d :: digits.take n)
            (digits.drop n) x.weight
          rw [List.cons_append, List.take_append_drop, ← sameWeight, same, sameWeight] at parts
          have length : (d :: digits.take n).length = n + 1 := by
            simp only [List.length_cons, List.length_take] at longer ⊢
            omega
          rw [length] at parts
          push_cast at parts
          linarith
        have some : digits.drop n ≠ [] := by
          intro none
          rw [List.drop_eq_nil_iff] at none
          simp only [List.length_cons] at longer
          omega
        have last : (digits.drop n).getLast some ≠ 0 := by
          intro zero
          apply trimmed.trailing
          rw [split, List.getLast?_cons, List.getLast?_eq_some_getLast
            (List.ne_nil_of_drop_ne_nil some)]
          rw [List.getLast_drop] at zero
          rw [zero]
          rfl
        have positive := Radix.magnitude_pos nbase_pos (others.drop n) (x.weight - (n + 1))
          ⟨_, List.getLast_mem some, last⟩
        exact absurd rest positive.ne'

theorem received_eq (valid : x.sign = numericPos ∨ x.sign = numericNeg) (fits : FitsWire x) :
    received x = { x with spare := 1 } := by
  have all : x.digits.take (narrow x.ndigits).toNat = x.digits := by
    rw [fits.counted, ndigits, Int.toNat_natCast, List.take_length]
  rw [received, all, narrow_eq_iff.mpr fits.weight, narrow_sign valid,
    narrow_eq_iff.mpr fits.dscale]

theorem received_same (known : x.Known) : SameNumber x (received x) ↔ FitsWire x := by
  constructor
  · intro same
    have finite : x.isNan = false := by
      by_contra nan
      rw [Bool.not_eq_false] at nan
      have sign : x.sign = numericNan := by simpa [isNan] using nan
      have kept : narrow x.sign = numericNan := by
        have own := same.nan
        rw [nan] at own
        exact eq_of_beq own
      rw [sign] at kept
      exact absurd kept (by decide)
    obtain ⟨value, sign⟩ := same.finite finite
    have magnitude := magnitude_of_value sign value
    obtain ⟨all, weight⟩ := known.toTrimmed.whole_of_magnitude magnitude
    have counted : narrow x.ndigits = x.ndigits := by
      have below := narrow_le (show 0 ≤ x.ndigits by rw [ndigits]; omega)
      rw [ndigits] at below ⊢
      rcases Nat.eq_zero_or_pos x.digits.length with none | some
      · rw [none]
        rfl
      · rw [ndigits] at all
        omega
    have weightKept : narrow x.weight = x.weight := by
      by_cases none : x.digits = []
      · rw [known.zero none]
        rfl
      · exact weight none
    exact ⟨finite, (narrow_eq_iff.mp counted).2, narrow_eq_iff.mp weightKept,
      narrow_eq_iff.mp same.dscale⟩
  · intro fits
    rw [received_eq (known.sign_of_finite fits.finite) fits]
    exact ⟨rfl, rfl, fun _ => ⟨rfl, rfl⟩⟩

end Numeric

theorem newParameterNumeric_sent {x : Numeric} (small : x.digits.length < 1073741820) :
    newParameterNumeric x =
      .ok { oid := numericOid, value := some (numericMemory x),
            length := (numericMemory x).length, format := 1 } :=
  bind_ok.mpr ⟨_, numericLength_ok small, fillBuffer_of_length⟩

theorem newParameterNumeric_overflow {x : Numeric} (large : ¬x.digits.length < 1073741820) :
    newParameterNumeric x = .error .overflow := by
  rw [newParameterNumeric, numericLength_overflow (not_lt.mp large), error_bind]

theorem newDigits_ok {n : Int} (nonneg : 0 ≤ n) : newDigits n = .ok () := by
  rw [newDigits, if_neg (by omega), if_neg (by omega)]

theorem numericEncoder_encodes {x : Numeric} (small : x.digits.length < 1073741820) :
    numericEncoder.Encodes x (numericMemory x) := ⟨numericLength_ok small, rfl⟩

def Refuses {α : Type} (result : Except WireError α) : Prop :=
  ∃ failure, result = .error failure ∧ failure ≠ .outOfBounds ∧ failure ≠ .overflow

/-- A numeric is refused, or what is sent of it is read back as the same number. -/
def Numeric.KeptByWire (x : Numeric) : Prop :=
  Refuses (newParameterNumeric x) ∨
    ∃ param y, newParameterNumeric x = .ok param ∧
      pgvalToNumeric (param.value.getD []) 0 param.length = .ok y ∧ SameNumber x y

def BoundsKeptByWire (r : BoundRange Numeric) : Prop :=
  Refuses (newParameterNumrange r) ∨
    ∃ param range, newParameterNumrange r = .ok param ∧
      pgvalToNumrange (param.value.getD []) 0 param.length = .ok range ∧
      (r.hasLbound → SameNumber r.lb range.lb) ∧ (r.hasUbound → SameNumber r.ub range.ub)

theorem not_refuses_ok {α : Type} (a : α) : ¬Refuses (.ok a : Except WireError α) := by
  rintro ⟨failure, result, _⟩
  exact absurd result (by simp)

theorem not_refuses_overflow {α : Type} : ¬Refuses (.error .overflow : Except WireError α) := by
  rintro ⟨failure, result, _, different⟩
  exact different (Except.error.inj result).symm

def decodedNumeric (x : Numeric) : Except WireError Numeric := do
  newDigits (narrow x.ndigits)
  return received x

theorem readsAs_numeric {x : Numeric} (range : Radix.Digits nbase x.digits) :
    ReadsAs pgvalToNumeric (numericMemory x) (decodedNumeric x) := fun holds =>
  pgvalToNumeric_holds (fun d member => narrow_digit (range d member)) (by omega) holds

theorem decodedNumeric_ok {x y : Numeric} (known : x.Known)
    (decoded : decodedNumeric x = .ok y) : SameNumber x y ↔ FitsWire x := by
  obtain ⟨_, _, built⟩ := bind_ok.mp decoded
  rw [← Except.ok.inj built]
  exact received_same known

theorem decodedNumeric_fits {x : Numeric} (fits : FitsWire x) :
    decodedNumeric x = .ok (received x) := by
  rw [decodedNumeric, newDigits_ok (by rw [fits.counted, ndigits]; omega)]
  rfl

theorem keptByWire_iff {x : Numeric} (known : x.Known) : x.KeptByWire ↔ FitsWire x := by
  constructor
  · rintro (refused | ⟨param, y, sent, read, same⟩)
    · by_cases small : x.digits.length < 1073741820
      · rw [newParameterNumeric_sent small] at refused
        exact absurd refused (not_refuses_ok _)
      · rw [newParameterNumeric_overflow small] at refused
        exact absurd refused not_refuses_overflow
    · by_cases small : x.digits.length < 1073741820
      · rw [newParameterNumeric_sent small] at sent
        rw [← Except.ok.inj sent] at read
        have decoded := readsAs_numeric known.digits (Holds.whole (numericMemory x))
        exact (decodedNumeric_ok known (decoded.symm.trans read)).mp same
      · rw [newParameterNumeric_overflow small] at sent
        contradiction
  · intro fits
    refine Or.inr ⟨_, received x, newParameterNumeric_sent fits.small, ?_,
      (received_same known).mpr fits⟩
    exact (readsAs_numeric known.digits (Holds.whole _)).trans (decodedNumeric_fits fits)

theorem addInt_cases (x y : Int) : addInt x y = .error .overflow ∨ addInt x y = .ok (x + y) := by
  rw [addInt]
  split
  · exact Or.inr rfl
  · exact Or.inl rfl

theorem addBound_numeric (present : Bool) (x : Numeric) (len : Int) :
    addBound numericEncoder present x len = .error .overflow ∨
      addBound numericEncoder present x len =
          .ok (len + (presentBytes present (numericMemory x)).length) ∧
        (present = true → x.digits.length < 1073741820) := by
  cases present with
  | false =>
      right
      simp [addBound, presentBytes]
  | true =>
      have total : ((presentBytes true (numericMemory x)).length : Int) =
          4 + (numericMemory x).length := by
        simp [presentBytes, length_wireNat]
      rw [addBound, if_pos rfl, total]
      by_cases small : x.digits.length < 1073741820
      · change numericLength x >>= _ = _ ∨ numericLength x >>= _ = _ ∧ _
        rw [numericLength_ok small, ok_bind]
        rcases addInt_cases 4 (numericMemory x).length with failed | field
        · rw [failed]
          exact Or.inl rfl
        · rw [field, ok_bind]
          rcases addInt_cases len (4 + (numericMemory x).length) with failed | sum
          · exact Or.inl failed
          · exact Or.inr ⟨sum, fun _ => small⟩
      · left
        change numericLength x >>= _ = _
        rw [numericLength_overflow (by omega)]
        rfl

theorem newParameterNumrange_cases (r : BoundRange Numeric) :
    newParameterNumrange r = .error .overflow ∨
      newParameterNumrange r =
          .ok { oid := numrangeOid, value := some (r.form numericMemory),
                length := (r.form numericMemory).length, format := 1 } ∧
        (r.hasLbound = true → r.lb.digits.length < 1073741820) ∧
        (r.hasUbound = true → r.ub.digits.length < 1073741820) := by
  rw [newParameterNumrange, newParameterBounds]
  rcases addBound_numeric r.hasLbound r.lb 1 with failed | ⟨first, lower⟩
  · rw [failed]
    exact Or.inl rfl
  · rw [first, ok_bind]
    rcases addBound_numeric r.hasUbound r.ub
      (1 + (presentBytes r.hasLbound (numericMemory r.lb)).length) with failed | ⟨second, upper⟩
    · rw [failed]
      exact Or.inl rfl
    · right
      have total : (1 : Int) + (presentBytes r.hasLbound (numericMemory r.lb)).length +
          (presentBytes r.hasUbound (numericMemory r.ub)).length =
            (r.form numericMemory).length := by
        rw [BoundRange.form, List.length_cons, List.length_append]
        push_cast
        ring
      rw [second, ok_bind, total]
      refine ⟨bind_ok.mpr ⟨(), ?_, bind_ok.mpr ⟨_, writeBound_ok ?_, bind_ok.mpr
        ⟨_, writeBound_ok ?_, fillBuffer_of_length⟩⟩⟩, lower, upper⟩
      · rw [newBuffer, if_neg (by omega)]
      · exact fun present => numericEncoder_encodes (lower present)
      · exact fun present => numericEncoder_encodes (upper present)

theorem boundOr_ok {α : Type} {absent bound : α} {present : Bool} {decoded : Except WireError α}
    (read : boundOr absent present decoded = .ok bound) (there : present = true) :
    decoded = .ok bound := by
  rwa [boundOr, if_pos there] at read

theorem boundOr_exists {α : Type} {absent : α} {present : Bool} {decoded : Except WireError α}
    {bound : α} (read : present = true → decoded = .ok bound) :
    ∃ value, boundOr absent present decoded = .ok value ∧ (present = true → value = bound) := by
  cases present with
  | false => exact ⟨absent, rfl, fun there => absurd there (by simp)⟩
  | true => exact ⟨bound, read rfl, fun _ => rfl⟩

section Bounds

variable {r : BoundRange Numeric}

theorem pgvalToNumrange_sent (lower : r.hasLbound = true → r.lb.Known)
    (upper : r.hasUbound = true → r.ub.Known)
    (lowerSmall : r.hasLbound = true → r.lb.digits.length < 1073741820)
    (upperSmall : r.hasUbound = true → r.ub.digits.length < 1073741820) (len : Int) :
    pgvalToNumrange (r.form numericMemory) 0 len = do
      let lb ← boundOr Numeric.unset r.hasLbound (decodedNumeric r.lb)
      let ub ← boundOr Numeric.unset r.hasUbound (decodedNumeric r.ub)
      return { flags := sentFlags r.flags, lb, ub } := by
  have short {x : Numeric} (small : x.digits.length < 1073741820) :
      (numericMemory x).length < 2 ^ 31 := by
    rw [length_numericMemory]
    omega
  have whole := @pgvalToBoundsFrom_holds _ Numeric.unset pgvalToNumeric _ _ decodedNumeric _ _
    (fun present => ⟨short (lowerSmall present), readsAs_numeric (lower present).digits⟩)
    (fun present => ⟨short (upperSmall present), readsAs_numeric (upper present).digits⟩)
    (Holds.whole (r.form numericMemory)) len
  rw [pgvalToNumrange, pgvalToBounds, whole]
  cases boundOr Numeric.unset r.hasLbound (decodedNumeric r.lb) with
  | error failure => rfl
  | ok lb =>
      cases boundOr Numeric.unset r.hasUbound (decodedNumeric r.ub) with
      | error failure => rfl
      | ok ub => rfl

theorem fits_of_boundsKept (lower : r.hasLbound = true → r.lb.Known)
    (upper : r.hasUbound = true → r.ub.Known) (kept : BoundsKeptByWire r) :
    (r.hasLbound = true → FitsWire r.lb) ∧ (r.hasUbound = true → FitsWire r.ub) := by
  rcases newParameterNumrange_cases r with failed | ⟨sent, lowerSmall, upperSmall⟩
  · rcases kept with refused | ⟨param, range, sent, _⟩
    · rw [failed] at refused
      exact absurd refused not_refuses_overflow
    · rw [failed] at sent
      contradiction
  · rcases kept with refused | ⟨param, range, built, read, sameLower, sameUpper⟩
    · rw [sent] at refused
      exact absurd refused (not_refuses_ok _)
    · rw [sent] at built
      rw [← Except.ok.inj built] at read
      have decoded := pgvalToNumrange_sent lower upper lowerSmall upperSmall
        (r.form numericMemory).length
      obtain ⟨lb, lbRead, rest⟩ := bind_ok.mp (decoded.symm.trans read)
      obtain ⟨ub, ubRead, rest⟩ := bind_ok.mp rest
      rw [← Except.ok.inj rest] at sameLower sameUpper
      constructor
      · intro there
        exact (decodedNumeric_ok (lower there) (boundOr_ok lbRead there)).mp (sameLower there)
      · intro there
        exact (decodedNumeric_ok (upper there) (boundOr_ok ubRead there)).mp (sameUpper there)

theorem FitsWire.short {x : Numeric} (fits : FitsWire x) : (numericMemory x).length ≤ 65542 := by
  have few := fits.ndigits
  rw [Numeric.ndigits] at few
  rw [length_numericMemory]
  omega

theorem boundsKept_of_fits (lower : r.hasLbound = true → r.lb.Known)
    (upper : r.hasUbound = true → r.ub.Known) (lowerFits : r.hasLbound = true → FitsWire r.lb)
    (upperFits : r.hasUbound = true → FitsWire r.ub) : BoundsKeptByWire r := by
  have lowerSmall := fun there => (lowerFits there).small
  have upperSmall := fun there => (upperFits there).small
  have total := @form_short _ numericMemory r (fun there => (lowerFits there).short)
    (fun there => (upperFits there).short)
  have sent := @newParameterBounds_form _ numericEncoder numericMemory r
    (fun there => numericEncoder_encodes (lowerSmall there))
    (fun there => numericEncoder_encodes (upperSmall there)) total numrangeOid
  obtain ⟨lb, lbRead, lbSame⟩ := @boundOr_exists _ Numeric.unset _ _ _
    (fun there => decodedNumeric_fits (lowerFits there))
  obtain ⟨ub, ubRead, ubSame⟩ := @boundOr_exists _ Numeric.unset _ _ _
    (fun there => decodedNumeric_fits (upperFits there))
  refine Or.inr ⟨_, _, sent, (pgvalToNumrange_sent lower upper lowerSmall upperSmall _).trans
    (bind_ok.mpr ⟨lb, lbRead, bind_ok.mpr ⟨ub, ubRead, rfl⟩⟩), ?_, ?_⟩
  · intro there
    rw [show _ = _ from lbSame there]
    exact (received_same (lower there)).mpr (lowerFits there)
  · intro there
    rw [show _ = _ from ubSame there]
    exact (received_same (upper there)).mpr (upperFits there)

theorem boundsKeptByWire_iff (lower : r.hasLbound = true → r.lb.Known)
    (upper : r.hasUbound = true → r.ub.Known) :
    BoundsKeptByWire r ↔
      (r.hasLbound = true → FitsWire r.lb) ∧ (r.hasUbound = true → FitsWire r.ub) := by
  constructor
  · exact fits_of_boundsKept lower upper
  · rintro ⟨lowerFits, upperFits⟩
    exact boundsKept_of_fits lower upper lowerFits upperFits

end Bounds

/-- A numeric, alone or as a bound, is kept by the wire exactly when its fields fit the header
and it is not NaN. -/
theorem numerics_kept_iff (x : Numeric) (obtained : x.Obtained) (r : BoundRange Numeric)
    (lower : r.hasLbound = true → r.lb.Obtained) (upper : r.hasUbound = true → r.ub.Obtained) :
    (x.KeptByWire ↔ FitsWire x) ∧
      (BoundsKeptByWire r ↔
        (r.hasLbound = true → FitsWire r.lb) ∧ (r.hasUbound = true → FitsWire r.ub)) :=
  ⟨keptByWire_iff obtained.known, boundsKeptByWire_iff (fun there => (lower there).known)
    (fun there => (upper there).known)⟩

theorem numerics_kept_negative :
    (ofText ['-', '1', '.', '5']).KeptByWire ∧
      BoundsKeptByWire { flags := 2, lb := ofText ['-', '1', '.', '5'], ub := ofText ['2'] } := by
  have both := numerics_kept_iff (ofText ['-', '1', '.', '5']) (.ofText _)
    { flags := 2, lb := ofText ['-', '1', '.', '5'], ub := ofText ['2'] }
    (fun _ => Obtained.ofText ['-', '1', '.', '5']) (fun _ => Obtained.ofText ['2'])
  have first : FitsWire (ofText ['-', '1', '.', '5']) := by
    refine ⟨by decide, by decide, ?_, ?_⟩
    · unfold FitsInt16
      decide
    · unfold FitsInt16
      decide
  have second : FitsWire (ofText ['2']) := by
    refine ⟨by decide, by decide, ?_, ?_⟩
    · unfold FitsInt16
      decide
    · unfold FitsInt16
      decide
  exact ⟨both.1.mpr first, both.2.mpr ⟨fun _ => first, fun _ => second⟩⟩

theorem wire_loses_nan : (ofText ['N', 'a', 'N']).Obtained ∧
    ¬(ofText ['N', 'a', 'N']).KeptByWire := by
  refine ⟨.ofText _, ?_⟩
  intro kept
  have fits := (keptByWire_iff (Obtained.ofText ['N', 'a', 'N']).known).mp kept
  exact absurd fits.finite (by decide)

end PqAsync
