import PqAsync.NumericCells
import PqAsync.RangeOps
import PqAsync.SplitTokens

/-!
Ranges as texts and back. The conversions between integers and texts are parameters, and so is
what the memory of a range holds before its constructor runs.
-/

namespace PqAsync

def invalidRange : WireError := .exception "Invalid input for range"

/-- `parse`: the flags, and the texts on both sides of the comma. -/
def parseRange (text : List Char) : Except WireError (BitVec 32 × List Char × List Char) :=
  if text = "empty".toList then .ok (0x01, [], [])
  else if (text.head? ≠ some '[' ∧ text.head? ≠ some '(') ∨
      (text.getLast? ≠ some ']' ∧ text.getLast? ≠ some ')') then .error invalidRange
  else
    let f : BitVec 32 := if text.head? = some '[' then 0x02 else 0x00
    let f := if text.getLast? = some ']' then f ||| 0x04 else f
    match text.idxOf? ',' with
    | none => .error invalidRange
    | some cp =>
        let v1 := trim ((text.drop 1).take (cp - 1))
        let v2 := trim (text.drop (cp + 1))
        let f := if v1.length = 0 then f ||| 0x08 else f
        let f := if v2.length = 0 then f ||| 0x10 else f
        let f := if v1.length = 0 ∨ v2.length = 0 then f ||| 0x80 else f
        .ok (f, v1, v2)

def formatRange (f : BitVec 32) (sl su : List Char) : List Char :=
  if f &&& 0x01 != 0 then "empty".toList
  else
    let ob := if f &&& 0x02 != 0 then '[' else '('
    let cb := if f &&& 0x04 != 0 then ']' else ')'
    ob :: (sl ++ ',' :: (su ++ [cb]))

namespace BoundRange

section

variable {α : Type}

/-- `range(const char*)`. Both bounds are read from the two texts of `parse`; its flags are stored
for the empty range alone, and what is not stored keeps what the memory holds. -/
def ofText (lower upper : List Char → List Char → Except WireError α) (memory : BoundRange α)
    (str : List Char) : Except WireError (BoundRange α) :=
  parseRange (trim (cString str)) >>= fun (f, v1, v2) =>
    if f &&& 0x01 != 0 then .ok { memory with flags := f }
    else
      (if v1.length > 0 then lower v1 v2 else .ok memory.lb) >>= fun lb =>
        (if v2.length > 0 then upper v1 v2 else .ok memory.ub) >>= fun ub =>
          .ok { memory with lb, ub }

/-- `operator std::string`. -/
def text (boundText : α → List Char) (absent : List Char) (value : BoundRange α) : List Char :=
  formatRange value.flags (if value.hasLbound then boundText value.lb else absent)
    (if value.hasUbound then boundText value.ub else absent)

/-- The same emptiness, and the same bounds with the same inclusion. -/
structure SameInterval (same : α → α → Prop) (value read : BoundRange α) : Prop where
  isEmpty : read.isEmpty = value.isEmpty
  hasLbound : read.hasLbound = value.hasLbound
  hasUbound : read.hasUbound = value.hasUbound
  lb : value.hasLbound = true → same read.lb value.lb
  ub : value.hasUbound = true → same read.ub value.ub
  lboundInclusion : read.lboundInclusion = value.lboundInclusion
  uboundInclusion : read.uboundInclusion = value.uboundInclusion

structure PlainEmpty (value : BoundRange α) : Prop where
  isEmpty : value.isEmpty = true
  lower : value.lboundInclusion = .exclusive
  upper : value.uboundInclusion = .exclusive

end

section

variable (strToNum : StrToNum) (numToStr : Int → List Char)

def boundFromText (w : Nat) (v : List Char) : Except WireError (BitVec w) :=
  orThrow (strToNum w v)

/-- Both bounds are read from the text in front of the comma. -/
def int4rangeOfText : Int4range → List Char → Except WireError Int4range :=
  ofText (fun v1 _ => boundFromText strToNum 32 v1) fun v1 _ => boundFromText strToNum 32 v1

def int8rangeOfText : Int8range → List Char → Except WireError Int8range :=
  ofText (fun v1 _ => boundFromText strToNum 64 v1) fun v1 _ => boundFromText strToNum 64 v1

def numrangeOfText (flags : BitVec 32) : List Char → Except WireError (BoundRange Numeric) :=
  ofText (fun v1 _ => .ok (Numeric.ofText v1)) (fun _ v2 => .ok (Numeric.ofText v2))
    { flags, lb := Numeric.unset, ub := Numeric.unset }

def int4rangeText (value : Int4range) : List Char :=
  value.text (fun bound => numToStr bound.toInt) []

def int8rangeText (value : Int8range) : List Char :=
  value.text (fun bound => numToStr bound.toInt) []

/-- Both branches of `?:` have the type of the bound, so that a missing one is `numeric("")`. -/
def numrangeText (value : BoundRange Numeric) : List Char :=
  value.text Numeric.text (Numeric.ofText []).text

end

section

variable {α : Type} {value : BoundRange α}

theorem absent_of_isEmpty (empty : value.isEmpty = true) :
    value.hasLbound = false ∧ value.hasUbound = false := by
  have masked : ∀ mask : BitVec 32, mask &&& 0x01 = 0x01 → (value.flags &&& mask == 0) = false := by
    intro mask covers
    by_contra none
    rw [Bool.not_eq_false, beq_iff_eq] at none
    have bit : value.flags &&& 0x01 = 0 := by
      rw [← covers, ← BitVec.and_assoc, none]
      simp
    rw [isEmpty, bit] at empty
    contradiction
  exact ⟨masked 0x29 (by decide), masked 0x51 (by decide)⟩

theorem or_unset {f mark : BitVec 32} {marked : Prop} [Decidable marked]
    (apart : mark &&& 0x01 = 0) : (if marked then f ||| mark else f) &&& 0x01 = f &&& 0x01 := by
  split
  · rw [BitVec.and_or_distrib_right, apart]
    exact BitVec.or_zero
  · rfl

theorem parseRange_flags {text v1 v2 : List Char} {f : BitVec 32} (other : text ≠ "empty".toList)
    (parsed : parseRange text = .ok (f, v1, v2)) : f &&& 0x01 = 0 := by
  rw [parseRange, if_neg other] at parsed
  cases comma : text.idxOf? ',' with
  | none =>
      rw [comma] at parsed
      split at parsed
      · contradiction
      · contradiction
  | some cp =>
      rw [comma, ite_eq_iff] at parsed
      obtain ⟨_, failed⟩ | ⟨_, parsed⟩ := parsed
      · contradiction
      · injection parsed with parsed
        injection parsed with flags _
        rw [← flags, or_unset (by decide), or_unset (by decide), or_unset (by decide),
          or_unset (by decide)]
        split
        · rfl
        · rfl

theorem ofText_flags {lower upper : List Char → List Char → Except WireError α}
    {memory read : BoundRange α} {str : List Char} (other : trim (cString str) ≠ "empty".toList)
    (constructed : ofText lower upper memory str = .ok read) : read.flags = memory.flags := by
  obtain ⟨⟨f, v1, v2⟩, parsed, rest⟩ := Results.bind_ok.mp constructed
  dsimp only at rest
  rw [parseRange_flags other parsed, if_neg (by decide)] at rest
  obtain ⟨lb, _, rest⟩ := Results.bind_ok.mp rest
  obtain ⟨ub, _, rest⟩ := Results.bind_ok.mp rest
  cases rest
  rfl

theorem text_ne_empty {boundText : α → List Char} {absent : List Char}
    (nonempty : value.isEmpty = false) :
    trim (cString (value.text boundText absent)) ≠ "empty".toList := by
  rw [isEmpty, bne_eq_false_iff_eq] at nonempty
  intro same
  have opening := congrArg List.head? (trim_visible (cString (value.text boundText absent)))
  rw [same, text, formatRange, if_neg (by rw [nonempty]; decide)] at opening
  dsimp only at opening
  split at opening
  · simp [cString, visible, isSpace] at opening
  · simp [cString, visible, isSpace] at opening

theorem marked_plain (memory : BoundRange α) : PlainEmpty { memory with flags := 0x01 } := by
  constructor
  · change ((0x01 : BitVec 32) &&& 0x01 != 0) = true
    decide
  · change (if (0x01 : BitVec 32) &&& 0x02 != 0 then RangeInclusion.inclusive else .exclusive) = _
    decide
  · change (if (0x01 : BitVec 32) &&& 0x04 != 0 then RangeInclusion.inclusive else .exclusive) = _
    decide

theorem ofText_empty {lower upper : List Char → List Char → Except WireError α}
    {memory : BoundRange α} {boundText : α → List Char} {absent : List Char}
    (empty : value.isEmpty = true) :
    ofText lower upper memory (value.text boundText absent) = .ok { memory with flags := 0x01 } := by
  have written : value.text boundText absent = "empty".toList := if_pos empty
  rw [written]
  rfl

theorem ofText_text_iff {lower upper : List Char → List Char → Except WireError α}
    {boundText : α → List Char} {absent : List Char} {same : α → α → Prop} (lb ub : α) :
    (∀ flags, ∃ read,
      ofText lower upper { flags, lb, ub } (value.text boundText absent) = .ok read ∧
      SameInterval same value read) ↔ value.PlainEmpty := by
  constructor
  · intro returns
    obtain ⟨read, constructed, kept⟩ := returns 0x01
    cases empty : value.isEmpty with
    | false =>
        have flags := ofText_flags (text_ne_empty empty) constructed
        have marked : read.isEmpty = true := by
          rw [isEmpty, flags]
          exact (marked_plain read).isEmpty
        rw [kept.isEmpty, empty] at marked
        contradiction
    | true =>
        rw [ofText_empty empty] at constructed
        injection constructed with constructed
        subst constructed
        have plain := marked_plain (BoundRange.mk 0x01 lb ub)
        exact ⟨empty, kept.lboundInclusion.symm.trans plain.lower,
          kept.uboundInclusion.symm.trans plain.upper⟩
  · intro plain flags
    have read := marked_plain (BoundRange.mk flags lb ub)
    have absent := absent_of_isEmpty plain.isEmpty
    have gone := absent_of_isEmpty read.isEmpty
    refine ⟨_, ofText_empty plain.isEmpty, ?_⟩
    exact {
      isEmpty := read.isEmpty.trans plain.isEmpty.symm
      hasLbound := gone.1.trans absent.1.symm
      hasUbound := gone.2.trans absent.2.symm
      lb := fun there => absurd (absent.1.symm.trans there) Bool.false_ne_true
      ub := fun there => absurd (absent.2.symm.trans there) Bool.false_ne_true
      lboundInclusion := read.lower.trans plain.lower.symm
      uboundInclusion := read.upper.trans plain.upper.symm }

end

/-- In each type the text gives the range back, for every content of the memory, just for the
empty range with exclusive bounds. -/
theorem text_returns_iff (strToNum : StrToNum) (numToStr : Int → List Char) :
    (∀ value : Int4range,
      (∀ memory, ∃ read, int4rangeOfText strToNum memory (int4rangeText numToStr value) = .ok read ∧
        SameInterval Eq value read) ↔ value.PlainEmpty) ∧
    (∀ value : Int8range,
      (∀ memory, ∃ read, int8rangeOfText strToNum memory (int8rangeText numToStr value) = .ok read ∧
        SameInterval Eq value read) ↔ value.PlainEmpty) ∧
    ∀ value : BoundRange Numeric,
      (∀ flags, ∃ read, numrangeOfText flags (numrangeText value) = .ok read ∧
        SameInterval (fun x y => x.equal y = true) value read) ↔ value.PlainEmpty := by
  refine ⟨?_, ?_, ?_⟩
  · intro value
    constructor
    · intro returns
      exact (ofText_text_iff 0 0).mp fun flags => returns { flags, lb := 0, ub := 0 }
    · intro plain memory
      exact (ofText_text_iff memory.lb memory.ub).mpr plain memory.flags
  · intro value
    constructor
    · intro returns
      exact (ofText_text_iff 0 0).mp fun flags => returns { flags, lb := 0, ub := 0 }
    · intro plain memory
      exact (ofText_text_iff memory.lb memory.ub).mpr plain memory.flags
  · intro value
    exact ofText_text_iff Numeric.unset Numeric.unset

theorem text_loses_bounds :
    int4rangeText (fun n => Nat.toDigits 10 n.toNat) (ofBounds 1 5) = "[1,5)".toList ∧
    int4rangeOfText extractInteger { flags := 0x00, lb := 0, ub := 0 } "[1,5)".toList =
      .ok { flags := 0x00, lb := 1, ub := 1 } ∧
    ¬SameInterval Eq (ofBounds 1 5 : Int4range) { flags := 0x00, lb := 1, ub := 1 } := by
  refine ⟨by decide, by rfl, ?_⟩
  intro kept
  exact absurd (kept.ub (by decide)) (by decide)

end BoundRange

end PqAsync
