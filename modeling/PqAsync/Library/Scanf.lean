import Mathlib.Algebra.BigOperators.Group.List.Basic
import Mathlib.Algebra.Order.Ring.Nat
import Mathlib.Data.List.TakeWhile

/-!
Reading a text by the directives of `sscanf`: characters, hexadecimal integers with or without a
maximum width, and words. What is laid out by a format is read by it, and the reverse.
-/

namespace Scanf

structure Alphabet where
  isSpace : Char → Bool
  digit? : Char → Option Nat
  plain : ∀ c, (digit? c).isSome = true → isSpace c = false ∧ c ∉ ['+', '-', 'x', 'X']

inductive Directive
  | char (c : Char)
  | hex (width : Option Nat)
  | word (width : Nat)
  deriving DecidableEq, Repr

def widthOf (c : Char) : Nat := c.toNat - '0'.toNat

def directives : List Char → List Directive
  | '%' :: 'x' :: format => .hex none :: directives format
  | '%' :: w :: 'x' :: format => .hex (some (widthOf w)) :: directives format
  | '%' :: w :: 's' :: format => .word (widthOf w) :: directives format
  | c :: format => .char c :: directives format
  | [] => []

inductive Assigned
  | number (value : Int)
  | text (value : List Char)
  deriving DecidableEq, Repr

/-- The characters an integer is read from: a sign, `0x` and digits. -/
structure Item where
  sign : List Char
  base : List Char
  digits : List Char
  deriving DecidableEq, Repr

def splitSign : List Char → List Char × List Char
  | '+' :: text => (['+'], text)
  | '-' :: text => (['-'], text)
  | text => ([], text)

def splitBase : List Char → List Char × List Char
  | '0' :: 'x' :: text => (['0', 'x'], text)
  | '0' :: 'X' :: text => (['0', 'X'], text)
  | text => ([], text)

def within : Option Nat → List Char → List Char
  | none, text => text
  | some width, text => text.take width

def numberOf (alphabet : Alphabet) (digits : List Char) : Nat :=
  digits.foldl (fun number c => 16 * number + (alphabet.digit? c).getD 0) 0

namespace Item

def text (item : Item) : List Char := item.sign ++ item.base ++ item.digits

/-- The conversion of `strtoul`, of which an `int` keeps the lower half. -/
def value (alphabet : Alphabet) (item : Item) : Int :=
  let number := numberOf alphabet item.digits
  let wide : BitVec 64 :=
    if number ≥ 2 ^ 64 then BitVec.allOnes 64
    else if item.sign = ['-'] then -BitVec.ofNat 64 number
    else BitVec.ofNat 64 number
  (wide.setWidth 32).toInt

end Item

variable (alphabet : Alphabet)

def isDigit (c : Char) : Bool := (alphabet.digit? c).isSome

def item? (field : List Char) : Option Item :=
  let signed := splitSign field
  let based := splitBase signed.2
  let digits := based.2.takeWhile (isDigit alphabet)
  if digits = [] then none else some { sign := signed.1, base := based.1, digits }

def scan : List Directive → List Char → List Assigned
  | [], _ => []
  | .char _ :: _, [] => []
  | .char c :: format, next :: text => if next = c then scan format text else []
  | .hex width :: format, text =>
      let text := text.dropWhile alphabet.isSpace
      match item? alphabet (within width text) with
      | none => []
      | some item =>
          .number (item.value alphabet) :: scan format (text.drop item.text.length)
  | .word width :: format, text =>
      let text := text.dropWhile alphabet.isSpace
      match (text.takeWhile (fun c => !alphabet.isSpace c)).take width with
      | [] => []
      | word => .text word :: scan format (text.drop word.length)

/-- A sign, `0x` and at least one digit. -/
structure Item.Formed (item : Item) : Prop where
  sign : item.sign ∈ [[], ['+'], ['-']]
  base : item.base ∈ [[], ['0', 'x'], ['0', 'X']]
  digits : item.digits ≠ [] ∧ item.digits.all (isDigit alphabet) = true

inductive Laid : List Directive → List Char → List Int → Prop
  | clean {width text} : text.all alphabet.isSpace = true → Laid [.word width] text []
  | char {c format text values} : Laid format text values →
      Laid (.char c :: format) (c :: text) values
  | hex {width format front text values} {item : Item} : front.all alphabet.isSpace = true →
      item.Formed alphabet → (∀ w, width = some w → item.text.length ≤ w) →
      Laid format text values →
      Laid (.hex width :: format) (front ++ item.text ++ text) (item.value alphabet :: values)

structure Numeral (field : List Char) : Prop where
  some : field ≠ []
  digits : field.all (isDigit alphabet) = true

def valueOf (field : List Char) : Int :=
  ({ sign := [], base := [], digits := field } : Item).value alphabet

def divider (c : Char) : Bool := !alphabet.isSpace c && !isDigit alphabet c && c ∉ ['x', 'X']

def Stops (text : List Char) : Prop :=
  ∀ c, text.head? = some c → isDigit alphabet c = false ∧ c ∉ ['x', 'X']

/-- The most characters that a directive takes, white space apart. -/
def Directive.size : Directive → Nat
  | .char _ => 1
  | .hex width => width.getD 0
  | .word _ => 0

def size (format : List Directive) : Nat := (format.map Directive.size).sum

def excludes (first second : List Directive) : Bool :=
  first.any (fun
    | .char c => divider alphabet c && second.count (.char c) < first.count (.char c)
    | _ => false) ||
  (.hex none ∉ first ++ second && size first < size second)

inductive Spelled : List Directive → List (List Char) → List Char → Prop
  | clean {width back} : back.all alphabet.isSpace = true → Spelled [.word width] [] back
  | char {c format fields text} : divider alphabet c = true → Spelled format fields text →
      Spelled (.char c :: format) fields (c :: text)
  | hex {width format field fields text} : Numeral alphabet field →
      (∀ w, width = some w → field.length = w) → (width = none → Stops alphabet text) →
      Spelled format fields text →
      Spelled (.hex width :: format) (field :: fields) (field ++ text)

variable {alphabet}

section Reading

variable {format : List Directive} {field text : List Char} {width : Option Nat} {item : Item}

theorem splitSign_eq (text : List Char) :
    (splitSign text).1 ∈ [[], ['+'], ['-']] ∧ (splitSign text).1 ++ (splitSign text).2 = text := by
  unfold splitSign
  split
  · simp
  · simp
  · simp

theorem splitBase_eq (text : List Char) :
    (splitBase text).1 ∈ [[], ['0', 'x'], ['0', 'X']] ∧
      (splitBase text).1 ++ (splitBase text).2 = text := by
  unfold splitBase
  split
  · simp
  · simp
  · simp

theorem item_formed (read : item? alphabet field = some item) :
    item.Formed alphabet ∧ item.text <+: field := by
  obtain ⟨signs, signed⟩ := splitSign_eq field
  obtain ⟨bases, based⟩ := splitBase_eq (splitSign field).2
  simp only [item?] at read
  split at read
  · cases read
  · next some =>
      injection read with made
      subst made
      refine ⟨⟨signs, bases, some, List.all_takeWhile⟩, ?_⟩
      have run := List.takeWhile_prefix (isDigit alphabet) (l := (splitBase (splitSign field).2).2)
      have unsigned := (List.prefix_append_right_inj (splitBase (splitSign field).2).1).mpr run
      rw [based] at unsigned
      have whole := (List.prefix_append_right_inj (splitSign field).1).mpr unsigned
      rw [signed] at whole
      rwa [Item.text, List.append_assoc]

theorem within_starts (width : Option Nat) (text : List Char) : within width text <+: text := by
  cases width with
  | none => exact List.prefix_rfl
  | some width => exact List.take_prefix width text

theorem length_within (text : List Char) (w : Nat) : (within (some w) text).length ≤ w :=
  List.length_take_le w text

theorem item_taken
    (read : item? alphabet (within width (text.dropWhile alphabet.isSpace)) = some item) :
    item.Formed alphabet ∧ (∀ w, width = some w → item.text.length ≤ w) ∧
      text = text.takeWhile alphabet.isSpace ++ item.text ++
        (text.dropWhile alphabet.isSpace).drop item.text.length := by
  obtain ⟨formed, starts⟩ := item_formed read
  refine ⟨formed, fun w narrow => ?_, ?_⟩
  · subst narrow
    exact le_trans starts.length_le (length_within _ w)
  · have inside : item.text <+: text.dropWhile alphabet.isSpace :=
      starts.trans (within_starts width _)
    rw [List.append_assoc, List.prefix_iff_eq_append.mp inside, List.takeWhile_append_dropWhile]

def hexes : List Directive → Nat
  | [] => 0
  | .hex _ :: format => hexes format + 1
  | .char _ :: format => hexes format
  | .word _ :: format => hexes format

/-- The last directive is the only word, and a character stands in front of an integer. -/
def closed : List Directive → Bool
  | [.word width] => 0 < width
  | .char _ :: format => 0 < hexes format && closed format
  | .hex _ :: format => closed format
  | _ => false

theorem all_isSpace (nothing : (text.dropWhile alphabet.isSpace).takeWhile
    (fun c => !alphabet.isSpace c) = []) : text.all alphabet.isSpace = true := by
  rw [List.all_eq_true, ← List.dropWhile_eq_nil_iff]
  cases left : text.dropWhile alphabet.isSpace with
  | nil => rfl
  | cons next rest =>
      have plain := List.head_dropWhile_not alphabet.isSpace (l := text)
        (left ▸ List.cons_ne_nil _ _)
      simp only [left, List.head_cons] at plain
      rw [left, List.takeWhile_cons_of_pos (by rw [plain]; rfl)] at nothing
      cases nothing

theorem laid_of_scan (ends : closed format = true)
    (count : (scan alphabet format text).length = hexes format) :
    ∃ values, scan alphabet format text = values.map .number ∧
      Laid alphabet format text values := by
  induction format generalizing text with
  | nil => cases ends
  | cons directive format ih =>
      cases directive with
      | char c =>
          simp only [closed, Bool.and_eq_true, decide_eq_true_iff] at ends
          rw [hexes] at count
          cases text with
          | nil =>
              rw [scan, List.length_nil] at count
              omega
          | cons next rest =>
              by_cases same : next = c
              · subst same
                rw [scan, if_pos rfl] at count
                obtain ⟨values, scanned, laid⟩ := ih ends.2 count
                exact ⟨values, by rw [scan, if_pos rfl, scanned], .char laid⟩
              · rw [scan, if_neg same, List.length_nil] at count
                omega
      | hex width =>
          rw [closed] at ends
          cases read : item? alphabet (within width (text.dropWhile alphabet.isSpace)) with
          | none =>
              rw [scan] at count
              simp only [read, List.length_nil, hexes] at count
              omega
          | some item =>
              rw [scan] at count ⊢
              simp only [read, List.length_cons, hexes, Nat.add_right_cancel_iff] at count ⊢
              obtain ⟨values, scanned, laid⟩ := ih ends count
              obtain ⟨formed, room, whole⟩ := item_taken read
              refine ⟨item.value alphabet :: values, by rw [scanned, List.map_cons], ?_⟩
              rw [whole]
              exact .hex List.all_takeWhile formed room laid
      | word width =>
          cases format with
          | cons _ _ => cases ends
          | nil =>
              simp only [closed, decide_eq_true_iff] at ends
              rw [scan] at count ⊢
              split at count
              · next nothing =>
                  refine ⟨[], rfl, .clean (all_isSpace ?_)⟩
                  exact (List.take_eq_nil_iff.mp nothing).resolve_left (Nat.ne_of_gt ends)
              · cases count

end Reading

section Writing

variable {format : List Directive} {fields : List (List Char)} {field text front : List Char}
variable {width : Option Nat} {c : Char}

theorem isDigit_plain (digit : isDigit alphabet c = true) :
    alphabet.isSpace c = false ∧ c ∉ ['+', '-', 'x', 'X'] := alphabet.plain c digit

theorem valueOf_small (small : numberOf alphabet field < 2 ^ 31) :
    valueOf alphabet field = numberOf alphabet field := by
  have fits : ¬ numberOf alphabet field ≥ 2 ^ 64 := by omega
  have kept : ((BitVec.ofNat 64 (numberOf alphabet field)).setWidth 32).toNat =
      numberOf alphabet field := by
    rw [BitVec.toNat_setWidth, BitVec.toNat_ofNat]
    omega
  simp only [valueOf, Item.value, if_neg fits, List.nil_eq, reduceCtorEq, if_false]
  rw [BitVec.toInt_eq_toNat_of_lt (by rw [kept]; omega), kept]

theorem Numeral.starts (numeral : Numeral alphabet field) :
    ∃ c rest, field = c :: rest ∧ isDigit alphabet c = true := by
  cases field with
  | nil => exact absurd rfl numeral.some
  | cons c rest => exact ⟨c, rest, rfl, (List.all_eq_true.mp numeral.digits) c List.mem_cons_self⟩

theorem Numeral.splitSign (numeral : Numeral alphabet field) :
    splitSign (field ++ text) = ([], field ++ text) := by
  obtain ⟨c, rest, rfl, digit⟩ := numeral.starts
  have plain := (isDigit_plain digit).2
  simp only [List.mem_cons, not_or] at plain
  unfold Scanf.splitSign
  split
  · next same => exact absurd (List.cons.inj same).1 plain.1
  · next same => exact absurd (List.cons.inj same).1 plain.2.1
  · rfl

theorem Numeral.second (numeral : Numeral alphabet field) (stops : Stops alphabet text)
    {first second : Char} {rest : List Char} (whole : field ++ text = first :: second :: rest) :
    second ∉ ['x', 'X'] := by
  obtain ⟨c, digits, rfl, digit⟩ := numeral.starts
  cases digits with
  | nil =>
      rw [List.singleton_append, List.cons.injEq] at whole
      exact (stops second (by rw [whole.2, List.head?_cons])).2
  | cons other digits =>
      simp only [List.cons_append, List.cons.injEq] at whole
      have all := numeral.digits
      simp only [List.all_cons, Bool.and_eq_true] at all
      have plain := (isDigit_plain all.2.1).2
      rw [whole.2.1] at plain
      simp only [List.mem_cons, not_or] at plain ⊢
      exact plain.2.2

theorem Numeral.splitBase (numeral : Numeral alphabet field) (stops : Stops alphabet text) :
    splitBase (field ++ text) = ([], field ++ text) := by
  unfold Scanf.splitBase
  split
  · next same => exact absurd List.mem_cons_self (numeral.second stops same)
  · next same => exact absurd (by simp) (numeral.second stops same)
  · rfl

theorem Numeral.takeWhile (numeral : Numeral alphabet field) (stops : Stops alphabet text) :
    (field ++ text).takeWhile (isDigit alphabet) = field := by
  rw [List.takeWhile_append_of_pos (List.all_eq_true.mp numeral.digits)]
  cases text with
  | nil => simp
  | cons c rest =>
      rw [List.takeWhile_cons_of_neg (by rw [(stops c rfl).1]; exact Bool.false_ne_true),
        List.append_nil]

theorem item_numeral (numeral : Numeral alphabet field) (stops : Stops alphabet text) :
    item? alphabet (field ++ text) = some { sign := [], base := [], digits := field } := by
  simp only [item?, numeral.splitSign, numeral.splitBase stops, numeral.takeWhile stops]
  rw [if_neg numeral.some]

theorem item_within (numeral : Numeral alphabet field)
    (room : ∀ w, width = some w → field.length = w) (stops : width = none → Stops alphabet text) :
    item? alphabet (within width (field ++ text)) =
      some { sign := [], base := [], digits := field } := by
  cases width with
  | none => exact item_numeral numeral (stops rfl)
  | some w =>
      have ends : Stops alphabet [] := by
        intro c head
        cases head
      rw [within, List.take_left' (room w rfl)]
      simpa using item_numeral numeral ends

theorem Numeral.dropWhile (numeral : Numeral alphabet field) :
    (field ++ text).dropWhile alphabet.isSpace = field ++ text := by
  obtain ⟨c, rest, rfl, digit⟩ := numeral.starts
  exact List.dropWhile_cons_of_neg (by rw [(isDigit_plain digit).1]; exact Bool.false_ne_true)

theorem Spelled.scan (spelled : Spelled alphabet format fields text) :
    scan alphabet format text = fields.map fun field => .number (valueOf alphabet field) := by
  induction spelled with
  | clean spaces =>
      have none := List.dropWhile_eq_nil_iff.mpr (List.all_eq_true.mp spaces)
      simp [Scanf.scan, none]
  | char _ _ ih => rw [Scanf.scan, if_pos rfl, ih]
  | hex numeral room stops _ ih =>
      rw [Scanf.scan]
      simp only [numeral.dropWhile, item_within numeral room stops, Item.text, List.nil_append,
        List.drop_left, ih]
      rfl

theorem Spelled.length (spelled : Spelled alphabet format fields text) :
    fields.length = hexes format := by
  induction spelled with
  | clean _ => rfl
  | char _ _ ih => exact ih
  | hex _ _ _ _ ih => exact congrArg (· + 1) ih

theorem scan_front (spaces : front.all alphabet.isSpace = true) :
    scan alphabet (.hex width :: format) (front ++ text) =
      scan alphabet (.hex width :: format) text := by
  simp only [scan]
  rw [List.dropWhile_append_of_pos (List.all_eq_true.mp spaces)]

end Writing

section Excluding

variable {format first second : List Directive} {fields : List (List Char)}
variable {text front : List Char} {values : List Int} {c : Char}

def inked (alphabet : Alphabet) (text : List Char) : Nat :=
  text.countP fun c => !alphabet.isSpace c

theorem inked_append (front text : List Char) :
    inked alphabet (front ++ text) = inked alphabet front + inked alphabet text :=
  List.countP_append

theorem inked_spaces (spaces : text.all alphabet.isSpace = true) : inked alphabet text = 0 := by
  rw [inked, List.countP_eq_zero]
  intro c inside
  rw [(List.all_eq_true.mp spaces) c inside]
  exact Bool.false_ne_true

theorem divider_plain (divides : divider alphabet c = true) :
    alphabet.isSpace c = false ∧ isDigit alphabet c = false := by
  simp only [divider, Bool.and_eq_true, Bool.not_eq_true'] at divides
  exact divides.1

theorem count_spaces (divides : divider alphabet c = true)
    (spaces : text.all alphabet.isSpace = true) : text.count c = 0 := by
  rw [List.count_eq_zero]
  intro inside
  have space := (List.all_eq_true.mp spaces) c inside
  rw [(divider_plain divides).1] at space
  cases space

theorem Numeral.count (numeral : Numeral alphabet text) (divides : divider alphabet c = true) :
    text.count c = 0 := by
  rw [List.count_eq_zero]
  intro inside
  have digit := (List.all_eq_true.mp numeral.digits) c inside
  rw [(divider_plain divides).2] at digit
  cases digit

theorem Numeral.inked (numeral : Numeral alphabet text) : inked alphabet text = text.length := by
  rw [Scanf.inked, List.countP_eq_length]
  intro c inside
  rw [(isDigit_plain ((List.all_eq_true.mp numeral.digits) c inside)).1]
  rfl

theorem Laid.count_le (laid : Laid alphabet format text values) (c : Char) :
    format.count (.char c) ≤ text.count c := by
  induction laid with
  | clean _ => simp
  | @char other format text values _ ih =>
      rw [List.count_cons, List.count_cons]
      by_cases same : other = c
      · simp only [same, beq_self_eq_true, if_true]
        omega
      · simpa [same] using ih
  | hex _ _ _ _ ih =>
      simp only [List.count_append, List.count_cons]
      simp
      omega

theorem Spelled.count (spelled : Spelled alphabet format fields text)
    (divides : divider alphabet c = true) : text.count c = format.count (.char c) := by
  induction spelled with
  | clean spaces => simp [count_spaces divides spaces]
  | @char other format fields text _ _ ih =>
      rw [List.count_cons, List.count_cons, ih]
      by_cases same : other = c
      · simp [same]
      · simp [same]
  | hex numeral _ _ _ ih => simp [numeral.count divides, ih]

theorem Laid.inked_le (laid : Laid alphabet format text values) (narrow : .hex none ∉ format) :
    inked alphabet text ≤ size format := by
  induction laid with
  | clean spaces => simp [inked_spaces spaces]
  | @char other format text values _ ih =>
      have rest := ih fun wide => narrow (List.mem_cons_of_mem _ wide)
      have one : inked alphabet [other] ≤ 1 := List.countP_le_length
      rw [← List.singleton_append, inked_append]
      simp only [size, List.map_cons, List.sum_cons, Directive.size] at rest ⊢
      omega
  | @hex width format front text values item spaces _ room _ ih =>
      have rest := ih fun wide => narrow (List.mem_cons_of_mem _ wide)
      cases width with
      | none => exact absurd List.mem_cons_self narrow
      | some w =>
          have most : inked alphabet item.text ≤ w :=
            le_trans List.countP_le_length (room w rfl)
          rw [inked_append, inked_append, inked_spaces spaces]
          simp only [size, List.map_cons, List.sum_cons, Directive.size, Option.getD_some] at rest ⊢
          omega

theorem Spelled.inked (spelled : Spelled alphabet format fields text)
    (narrow : .hex none ∉ format) : inked alphabet text = size format := by
  induction spelled with
  | clean spaces => simp [inked_spaces spaces, size, Directive.size]
  | @char other format fields text divides _ ih =>
      have rest := ih fun wide => narrow (List.mem_cons_of_mem _ wide)
      have one : Scanf.inked alphabet [other] = 1 := by
        simp [Scanf.inked, (divider_plain divides).1]
      rw [← List.singleton_append, inked_append, one, rest]
      rfl
  | @hex width format field fields text numeral room _ _ ih =>
      have rest := ih fun wide => narrow (List.mem_cons_of_mem _ wide)
      cases width with
      | none => exact absurd List.mem_cons_self narrow
      | some w =>
          rw [inked_append, numeral.inked, room w rfl, rest]
          rfl

theorem Spelled.not_laid (spelled : Spelled alphabet second fields text)
    (spaces : front.all alphabet.isSpace = true)
    (excluded : excludes alphabet first second = true) :
    ¬ Laid alphabet first (front ++ text) values := by
  intro laid
  rw [excludes, Bool.or_eq_true] at excluded
  rcases excluded with fewer | longer
  · obtain ⟨directive, _, less⟩ := List.any_eq_true.mp fewer
    cases directive with
    | char c =>
        simp only [Bool.and_eq_true, decide_eq_true_iff] at less
        have least := laid.count_le c
        rw [List.count_append, count_spaces less.1 spaces, spelled.count less.1] at least
        omega
    | hex _ => cases less
    | word _ => cases less
  · simp only [Bool.and_eq_true, decide_eq_true_iff, List.mem_append, not_or] at longer
    have most := laid.inked_le longer.1.1
    rw [inked_append, inked_spaces spaces, spelled.inked longer.1.2] at most
    omega

end Excluding

end Scanf
