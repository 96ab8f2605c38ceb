import PqAsync.PathText

/-!
Segments, boxes, circles and lines as texts and back. The first point is cut off with the length of
what is behind it, and a line is printed with a number of commas that its parser refuses.
-/

namespace PqAsync

open Results

variable {D : Type} {numToStr : D → List Char} {strToNum : List Char → Except WireError D}

/-- No part of a printed number is read as the same number, as there are no digits to spare. -/
def Shortest (numToStr : D → List Char) (strToNum : List Char → Except WireError D) : Prop :=
  ∀ x text rest, numToStr x = text ++ rest → rest ≠ [] → strToNum text ≠ .ok x

section Cutting

theorem numberChars_before {wanted idx : Nat} (ahead : idx < wanted) {s : List Char}
    (noComma : ',' ∉ s) : numberChars wanted idx s = [] := by
  induction s with
  | nil => rfl
  | cons c s ih =>
      rw [List.mem_cons, not_or] at noComma
      rw [numberChars, if_neg ahead.ne, if_neg (Ne.symm noComma.1), ih noComma.2, ite_self]

theorem numberChars_closed (more : List Char) (count : Nat) :
    numberChars 1 1 ((')' :: ',' :: more).take count) = [] := by
  match count with
  | 0 => rfl
  | 1 => rfl
  | count + 2 => exact numberChars_past (Nat.lt_succ_self 1) (more.take count)

variable (decimals : DecimalTexts numToStr strToNum) (shortest : Shortest numToStr strToNum)
include decimals

theorem pointOfText_long {lead more : List Char} (brackets : ∀ c ∈ lead, isBracket c = true)
    (point : PointOf D) (count : Nat)
    (visible : ∀ c ∈ (')' :: ',' :: more).take count, isSpace c = false) :
    PointOf.ofText strToNum (lead ++ (numToStr point.x ++ ',' :: (numToStr point.y ++
      (')' :: ',' :: more).take count))) = .ok point := by
  have seen : ∀ c ∈ lead ++ (numToStr point.x ++ ',' :: (numToStr point.y ++
      (')' :: ',' :: more).take count)), isSpace c = false := by
    intro c member
    simp only [List.mem_append, List.mem_cons] at member
    rcases member with front | first | rfl | second | back
    · exact (isBracket_iff.mp (brackets c front)).2.2
    · exact (numberChar_plain (decimals.plain point.x c first)).2
    · rfl
    · exact (numberChar_plain (decimals.plain point.y c second)).2
    · exact visible c back
  have second : numberChars 1 0 (lead ++ (numToStr point.x ++ ',' :: (numToStr point.y ++
      (')' :: ',' :: more).take count))) = numToStr point.y := by
    rw [numberChars_brackets brackets, numberChars_numbers (decimals.plain point.x),
      numberChars_comma, if_neg Nat.zero_ne_one, List.nil_append,
      numberChars_numbers (decimals.plain point.y), if_pos rfl, numberChars_closed, List.append_nil]
  rw [PointOf.ofText, trim_of_visible seen, numberChars_first decimals brackets, second,
    if_neg (by simp [decimals.length_pos]), decimals.exact, decimals.exact]
  rfl

theorem pointOfText_unfinished {lead : List Char} (brackets : ∀ c ∈ lead, isBracket c = true) (x : D)
    (count : Nat) (point : PointOf D) :
    PointOf.ofText strToNum ((lead ++ numToStr x).take count) ≠ .ok point := by
  have plain : ∀ c ∈ (lead ++ numToStr x).take count, c ≠ ',' ∧ isSpace c = false := by
    intro c member
    rcases List.mem_append.mp (List.mem_of_mem_take member) with front | number
    · exact (isBracket_iff.mp (brackets c front)).2
    · exact numberChar_plain (decimals.plain x c number)
  have none := numberChars_before Nat.zero_lt_one fun member => (plain ',' member).1 rfl
  rw [PointOf.ofText, trim_of_visible fun c member => (plain c member).2, none,
    if_pos (.inr List.length_nil)]
  intro same
  cases same

include shortest

theorem pointOfText_shortened {lead : List Char} (brackets : ∀ c ∈ lead, isBracket c = true)
    (point : PointOf D) {count : Nat} (short : count < (numToStr point.y).length) :
    PointOf.ofText strToNum (lead ++ (numToStr point.x ++ ',' :: (numToStr point.y).take count)) ≠
      .ok point := by
  have visible : ∀ c ∈ lead ++ (numToStr point.x ++ ',' :: (numToStr point.y).take count),
      isSpace c = false := by
    intro c member
    refine text_visible decimals brackets (List.forall_mem_nil _) point.x point.y c ?_
    simp only [List.mem_append, List.mem_cons, List.append_nil] at member ⊢
    exact member.imp_right (Or.imp_right (Or.imp_right List.mem_of_mem_take))
  have second : numberChars 1 0 (lead ++ (numToStr point.x ++ ',' ::
      (numToStr point.y).take count)) = (numToStr point.y).take count := by
    have digits := @numberChars_numbers 1 1 ((numToStr point.y).take count)
      (fun c member => decimals.plain point.y c (List.mem_of_mem_take member)) []
    rw [List.append_nil, if_pos rfl] at digits
    rw [numberChars_brackets brackets, numberChars_numbers (decimals.plain point.x),
      numberChars_comma, if_neg Nat.zero_ne_one, List.nil_append, digits]
    exact List.append_nil _
  rw [PointOf.ofText, trim_of_visible visible, second]
  intro read
  split at read
  · cases read
  · obtain ⟨x, _, rest⟩ := bind_ok.mp read
    obtain ⟨y, parsed, made⟩ := bind_ok.mp rest
    have same : y = point.y := congrArg PointOf.y (Except.ok.inj made)
    have spare : (numToStr point.y).drop count ≠ [] := by
      rw [Ne, List.drop_eq_nil_iff]
      omega
    exact shortest point.y _ _ (List.take_append_drop count _).symm spare (same ▸ parsed)

theorem pointOfText_take_iff {lead more : List Char} (brackets : ∀ c ∈ lead, isBracket c = true)
    (visible : ∀ c ∈ more, isSpace c = false) (point : PointOf D) (count : Nat) :
    PointOf.ofText strToNum ((lead ++ (numToStr point.x ++ ',' :: (numToStr point.y ++
        ')' :: ',' :: more))).take count) = .ok point ↔
      lead.length + (numToStr point.x).length + 1 + (numToStr point.y).length ≤ count := by
  have behind : ∀ c ∈ (')' :: ',' :: more), isSpace c = false := by
    intro c member
    rcases List.mem_cons.mp member with rfl | member
    · rfl
    · rcases List.mem_cons.mp member with rfl | member
      · rfl
      · exact visible c member
  by_cases comma : count ≤ lead.length + (numToStr point.x).length
  · have cut : (lead ++ (numToStr point.x ++ ',' :: (numToStr point.y ++
        ')' :: ',' :: more))).take count = (lead ++ numToStr point.x).take count := by
      rw [← List.append_assoc]
      exact List.take_append_of_le_length (by rw [List.length_append]; exact comma)
    rw [cut]
    exact iff_of_false (pointOfText_unfinished decimals brackets point.x count point) (by omega)
  · obtain ⟨further, rfl⟩ : ∃ further,
        count = (lead ++ (numToStr point.x ++ [','])).length + further := by
      refine ⟨count - (lead ++ (numToStr point.x ++ [','])).length, ?_⟩
      simp only [List.length_append, List.length_singleton]
      omega
    have cut : (lead ++ (numToStr point.x ++ ',' :: (numToStr point.y ++
        ')' :: ',' :: more))).take ((lead ++ (numToStr point.x ++ [','])).length + further) =
        lead ++ (numToStr point.x ++ ',' :: (numToStr point.y ++ ')' :: ',' :: more).take further) := by
      have split : lead ++ (numToStr point.x ++ ',' :: (numToStr point.y ++ ')' :: ',' :: more)) =
          (lead ++ (numToStr point.x ++ [','])) ++ (numToStr point.y ++ ')' :: ',' :: more) := by
        simp only [List.append_assoc, List.singleton_append]
      rw [split, List.take_length_add_append]
      simp only [List.append_assoc, List.singleton_append]
    rw [cut]
    simp only [List.length_append, List.length_singleton]
    by_cases short : further < (numToStr point.y).length
    · rw [List.take_append_of_le_length short.le]
      exact iff_of_false (pointOfText_shortened decimals shortest brackets point short) (by omega)
    · obtain ⟨rest, rfl⟩ := Nat.exists_eq_add_of_le (Nat.not_lt.mp short)
      rw [List.take_length_add_append]
      exact iff_of_true (pointOfText_long decimals brackets point rest fun c member =>
        behind c (List.mem_of_mem_take member)) (by omega)

end Cutting

section Segments

theorem length_pointText (point : PointOf D) : (PointOf.text numToStr point).length =
    (numToStr point.x).length + (numToStr point.y).length + 3 := by
  simp only [PointOf.text, List.length_cons, List.length_append, List.length_nil]
  omega

variable (decimals : DecimalTexts numToStr strToNum)
include decimals

theorem secondComma_point {lead : List Char} (brackets : ∀ c ∈ lead, isBracket c = true)
    (point : PointOf D) (rest : List Char) :
    secondComma (lead ++ (PointOf.text numToStr point ++ ',' :: rest)) =
      some (lead ++ PointOf.text numToStr point).length := by
  obtain ⟨comma, first, before, after, split, length, noComma, second⟩ :=
    @findComma_point D _ _ decimals [] lead brackets point (',' :: rest)
  rw [List.nil_append, List.length_nil] at first
  rw [List.nil_append] at split
  rw [secondComma, first, Option.bind_some, split, ← length, findComma_found noComma, length, second,
    List.length_nil, Nat.zero_add]

theorem pointOfText_cut_iff (shortest : Shortest numToStr strToNum) {lead rest : List Char}
    (brackets : ∀ c ∈ lead, isBracket c = true) (visible : ∀ c ∈ rest, isSpace c = false)
    (point : PointOf D) :
    PointOf.ofText strToNum ((lead ++ (PointOf.text numToStr point ++ ',' :: rest)).take
        ((lead ++ (PointOf.text numToStr point ++ ',' :: rest)).length -
          (lead ++ PointOf.text numToStr point).length)) = .ok point ↔
      lead.length + (PointOf.text numToStr point).length ≤ rest.length + 2 := by
  have brackets' : ∀ c ∈ lead ++ ['('], isBracket c = true := by
    intro c member
    rcases List.mem_append.mp member with front | opening
    · exact brackets c front
    · rw [List.mem_singleton.mp opening]
      rfl
  have taken : (lead ++ (PointOf.text numToStr point ++ ',' :: rest)).length -
      (lead ++ PointOf.text numToStr point).length = rest.length + 1 := by
    simp only [List.length_append, List.length_cons]
    omega
  have split : lead ++ (PointOf.text numToStr point ++ ',' :: rest) = (lead ++ ['(']) ++
      (numToStr point.x ++ ',' :: (numToStr point.y ++ ')' :: ',' :: rest)) := by
    simp only [PointOf.text, List.append_assoc, List.cons_append, List.nil_append]
  have read := pointOfText_take_iff decimals shortest brackets' visible point (rest.length + 1)
  rw [taken, split, read, length_pointText, List.length_append, List.length_singleton]
  omega

theorem cutPoints_iff (shortest : Shortest numToStr strToNum) {lead tail : List Char}
    (brackets : ∀ c ∈ lead, isBracket c = true) (ending : ∀ c ∈ tail, isBracket c = true)
    (first second : PointOf D) :
    cutPoints strToNum (lead ++ (PointOf.text numToStr first ++ ',' ::
        (PointOf.text numToStr second ++ tail))) = .ok (first, second) ↔
      lead.length + (PointOf.text numToStr first).length ≤
        (PointOf.text numToStr second).length + tail.length + 2 := by
  have visible : ∀ c ∈ PointOf.text numToStr second ++ tail, isSpace c = false := by
    intro c member
    rcases List.mem_append.mp member with inside | closing
    · exact pointText_visible decimals second c inside
    · exact (isBracket_iff.mp (ending c closing)).2.2
  have cut := pointOfText_cut_iff decimals shortest brackets visible first
  have behind : PointOf.ofText strToNum ((lead ++ (PointOf.text numToStr first ++ ',' ::
      (PointOf.text numToStr second ++ tail))).drop
        ((lead ++ PointOf.text numToStr first).length + 1)) = .ok second := by
    have dropped : (lead ++ (PointOf.text numToStr first ++ ',' ::
        (PointOf.text numToStr second ++ tail))).drop
          ((lead ++ PointOf.text numToStr first).length + 1) =
        [] ++ (PointOf.text numToStr second ++ tail) := by
      rw [← List.append_assoc, ← List.drop_drop, List.drop_left]
      rfl
    rw [dropped]
    exact pointText_surrounded decimals (List.forall_mem_nil _) ending second
  have lengths : (PointOf.text numToStr second ++ tail).length =
      (PointOf.text numToStr second).length + tail.length := List.length_append
  rw [lengths] at cut
  rw [cutPoints, secondComma_point decimals brackets]
  dsimp only
  rw [behind, ← cut]
  exact bind_ok_inj fun _ _ same => congrArg Prod.fst same

theorem twoPoints_iff (shortest : Shortest numToStr strToNum) (type : String) {lead tail : List Char}
    (brackets : ∀ c ∈ lead, isBracket c = true) (ending : ∀ c ∈ tail, isBracket c = true)
    (first second : PointOf D) :
    twoPoints strToNum type (lead ++ (PointOf.text numToStr first ++ ',' ::
        (PointOf.text numToStr second ++ tail))) = .ok (first, second) ↔
      lead.length + (PointOf.text numToStr first).length ≤
        (PointOf.text numToStr second).length + tail.length + 2 := by
  have none : ∀ {u : List Char}, (∀ c ∈ u, isBracket c = true) → u.count ',' = 0 := by
    intro u brackets
    exact List.count_eq_zero.mpr fun member => (isBracket_iff.mp (brackets ',' member)).2.1 rfl
  have visible : ∀ c ∈ lead ++ (PointOf.text numToStr first ++ ',' ::
      (PointOf.text numToStr second ++ tail)), isSpace c = false := by
    intro c member
    simp only [List.mem_append, List.mem_cons] at member
    rcases member with opening | own | rfl | other | closing
    · exact (isBracket_iff.mp (brackets c opening)).2.2
    · exact pointText_visible decimals first c own
    · rfl
    · exact pointText_visible decimals second c other
    · exact (isBracket_iff.mp (ending c closing)).2.2
  have commas : (lead ++ (PointOf.text numToStr first ++ ',' ::
      (PointOf.text numToStr second ++ tail))).count ',' = 3 := by
    rw [List.count_append, List.count_append, List.count_cons_self, List.count_append, none brackets,
      none ending, count_pointText decimals, count_pointText decimals]
  rw [twoPoints, trim_of_visible visible, if_neg (not_not.mpr commas)]
  exact cutPoints_iff decimals shortest brackets ending first second

theorem lsegOfText_iff (shortest : Shortest numToStr strToNum) (value : LsegOf D) :
    LsegOf.ofText strToNum (LsegOf.text numToStr value) = .ok value ↔
      (PointOf.text numToStr value.a).length ≤ (PointOf.text numToStr value.b).length + 2 := by
  have points := @twoPoints_iff D _ _ decimals shortest "lseg" ['['] [']'] (singleBracket rfl)
    (singleBracket rfl) value.a value.b
  rw [List.length_singleton, List.length_singleton, Nat.add_comm 1, Nat.add_right_comm,
    Nat.add_le_add_iff_right] at points
  rw [← points]
  constructor
  · intro read
    obtain ⟨⟨a, b⟩, own, made⟩ := bind_ok.mp read
    obtain rfl := Except.ok.inj made
    exact own
  · intro read
    exact bind_ok.mpr ⟨_, read, rfl⟩

theorem boxOfText_iff (shortest : Shortest numToStr strToNum) (value : BoxOf D) :
    BoxOf.ofText strToNum (BoxOf.text numToStr value) = .ok value ↔
      (PointOf.text numToStr value.high).length ≤ (PointOf.text numToStr value.low).length + 2 := by
  have points := @twoPoints_iff D _ _ decimals shortest "box" [] [] (List.forall_mem_nil _)
    (List.forall_mem_nil _) value.high value.low
  rw [List.nil_append, List.append_nil, List.length_nil, Nat.zero_add, Nat.add_zero] at points
  rw [← points]
  constructor
  · intro read
    obtain ⟨⟨high, low⟩, own, made⟩ := bind_ok.mp read
    obtain rfl := Except.ok.inj made
    exact own
  · intro read
    exact bind_ok.mpr ⟨_, read, rfl⟩

theorem lineOfText_text (through : PointOf D → PointOf D → LineOf D) (value : LineOf D) :
    LineOf.ofText strToNum through (LineOf.text numToStr value) = .error (invalidGeometry "line") := by
  have visible : ∀ c ∈ LineOf.text numToStr value, isSpace c = false := by
    intro c member
    simp only [LineOf.text, List.mem_cons, List.mem_append, List.not_mem_nil, or_false] at member
    rcases member with rfl | a | rfl | b | rfl | c' | rfl
    · rfl
    · exact (numberChar_plain (decimals.plain value.a c a)).2
    · rfl
    · exact (numberChar_plain (decimals.plain value.b c b)).2
    · rfl
    · exact (numberChar_plain (decimals.plain value.c c c')).2
    · rfl
  have commas : (LineOf.text numToStr value).count ',' = 2 := by
    have a := List.count_eq_zero.mpr (decimals.no_comma value.a)
    have b := List.count_eq_zero.mpr (decimals.no_comma value.b)
    have c := List.count_eq_zero.mpr (decimals.no_comma value.c)
    simp [LineOf.text, a, b, c]
  rw [LineOf.ofText, trim_of_visible visible, commas]
  rfl

theorem circleOfText_iff (shortest : Shortest numToStr strToNum) (value : CircleOf D) :
    CircleOf.ofText strToNum (CircleOf.text numToStr value) = .ok value ↔
      (PointOf.text numToStr value.center).length ≤ (numToStr value.radius).length + 2 := by
  have brackets : ∀ c ∈ ['<'], isBracket c = true := singleBracket rfl
  have ending : ∀ c ∈ numToStr value.radius ++ ['>'], isSpace c = false := by
    intro c member
    rcases List.mem_append.mp member with number | closing
    · exact (numberChar_plain (decimals.plain value.radius c number)).2
    · rw [List.mem_singleton.mp closing]
      rfl
  have visible : ∀ c ∈ CircleOf.text numToStr value, isSpace c = false := by
    intro c member
    rcases List.mem_cons.mp member with rfl | member
    · rfl
    · rcases List.mem_append.mp member with center | member
      · exact pointText_visible decimals value.center c center
      · rcases List.mem_cons.mp member with rfl | radius
        · rfl
        · exact ending c radius
  have commas : (CircleOf.text numToStr value).count ',' = 2 := by
    have radius := List.count_eq_zero.mpr (decimals.no_comma value.radius)
    simp [CircleOf.text, count_pointText decimals, radius]
  have cut := pointOfText_cut_iff decimals shortest brackets ending value.center
  have behind : ((CircleOf.text numToStr value).drop
      ((['<'] ++ PointOf.text numToStr value.center).length + 1)).filter isNumberChar =
      numToStr value.radius := by
    have dropped : (CircleOf.text numToStr value).drop
        ((['<'] ++ PointOf.text numToStr value.center).length + 1) =
        numToStr value.radius ++ ['>'] := by
      change (['<'] ++ (PointOf.text numToStr value.center ++ ',' ::
        (numToStr value.radius ++ ['>']))).drop _ = _
      rw [← List.append_assoc, ← List.drop_drop, List.drop_left]
      rfl
    have digits := List.filter_eq_self.mpr (decimals.plain value.radius)
    rw [dropped, List.filter_append, digits]
    exact List.append_nil _
  have second : secondComma (CircleOf.text numToStr value) =
      some (['<'] ++ PointOf.text numToStr value.center).length :=
    secondComma_point decimals brackets value.center _
  have lengths : (numToStr value.radius ++ ['>']).length = (numToStr value.radius).length + 1 :=
    List.length_append
  rw [lengths, List.length_singleton, Nat.add_comm 1, Nat.add_right_comm,
    Nat.add_le_add_iff_right] at cut
  rw [← cut, CircleOf.ofText, trim_of_visible visible, if_neg (not_not.mpr commas), second]
  dsimp only
  rw [behind]
  simp only [if_neg (decimals.length_pos value.radius), decimals.exact]
  exact bind_ok_inj (f := fun center => CircleOf.mk center value.radius) fun _ _ same =>
    congrArg CircleOf.center same

end Segments

section Types

inductive SegmentType
  | lseg
  | box
  | line
  | circle

def SegmentType.Value (D : Type) : SegmentType → Type
  | lseg => LsegOf D
  | box => BoxOf D
  | line => LineOf D
  | circle => CircleOf D

def SegmentType.text (numToStr : D → List Char) :
    (type : SegmentType) → type.Value D → List Char
  | lseg => LsegOf.text numToStr
  | box => BoxOf.text numToStr
  | line => LineOf.text numToStr
  | circle => CircleOf.text numToStr

def SegmentType.ofText (strToNum : List Char → Except WireError D)
    (through : PointOf D → PointOf D → LineOf D) :
    (type : SegmentType) → List Char → Except WireError (type.Value D)
  | lseg => LsegOf.ofText strToNum
  | box => BoxOf.ofText strToNum
  | line => LineOf.ofText strToNum through
  | circle => CircleOf.ofText strToNum

/-- The first point is not printed with more than two characters more than what follows it. -/
def SegmentType.Fits (numToStr : D → List Char) : (type : SegmentType) → type.Value D → Prop
  | lseg, value => (PointOf.text numToStr value.a).length ≤ (PointOf.text numToStr value.b).length + 2
  | box, value =>
      (PointOf.text numToStr value.high).length ≤ (PointOf.text numToStr value.low).length + 2
  | line, _ => False
  | circle, value =>
      (PointOf.text numToStr value.center).length ≤ (numToStr value.radius).length + 2

theorem readDigits_shorter {n : Nat} {text rest : List Char}
    (split : Nat.toDigits 10 n = text ++ rest) (spare : rest ≠ []) :
    Numerals.readDigits text ≠ some n := by
  intro read
  rw [Numerals.readDigits] at read
  split at read
  · next digits =>
      have value := Decimal.number_toDigits n
      rw [split, Decimal.number_append, Option.some.inj read] at value
      have longer : 1 < 10 ^ rest.length :=
        Nat.one_lt_pow (mt List.length_eq_zero_iff.mp spare) (by decide)
      have zero : n = 0 := by
        rcases Nat.eq_zero_or_pos n with zero | positive
        · exact zero
        · have more := Nat.mul_lt_mul_of_pos_left longer positive
          omega
      rw [zero] at split
      have lengths := congrArg List.length split
      have some := List.length_pos_of_ne_nil digits.1
      have others := List.length_pos_of_ne_nil spare
      rw [List.length_append] at lengths
      change 1 = _ at lengths
      omega
  · cases read

theorem integer_shortest : Shortest Numerals.integer readCoordinate := by
  intro x text rest split spare parsed
  have read : Numerals.readInteger text = some x := by
    rw [readCoordinate] at parsed
    split at parsed
    · next y found => rw [found, Except.ok.inj parsed]
    · cases parsed
  cases text with
  | nil => cases read
  | cons c text =>
      rcases lt_or_ge x 0 with negative | nonneg
      · rw [Numerals.integer_neg negative, List.cons_append] at split
        obtain ⟨sign, digits⟩ := List.cons.inj split
        rw [← sign, Numerals.readInteger, Option.map_eq_some_iff] at read
        obtain ⟨n, own, value⟩ := read
        have same : n = x.natAbs := by omega
        exact readDigits_shorter digits spare (own.trans (congrArg some same))
      · rw [Numerals.integer_nonneg nonneg] at split
        have digit : c.isDigit = true := by
          have member : c ∈ Nat.toDigits 10 x.natAbs := by
            rw [split]
            exact List.mem_cons_self
          exact Nat.isDigit_of_mem_toDigits (by decide) (by decide) member
        rw [Numerals.readInteger_of_digit digit, Option.map_eq_some_iff] at read
        obtain ⟨n, own, value⟩ := read
        have same : n = x.natAbs := by omega
        exact readDigits_shorter split spare (own.trans (congrArg some same))

/-- Lines are never read back, and the other values just when their first point is short enough. -/
theorem segment_round_trip_iff (decimals : DecimalTexts numToStr strToNum)
    (shortest : Shortest numToStr strToNum) (through : PointOf D → PointOf D → LineOf D)
    (type : SegmentType) (value : type.Value D) :
    type.ofText strToNum through (type.text numToStr value) = .ok value ↔
      type.Fits numToStr value := by
  cases type with
  | lseg => exact lsegOfText_iff decimals shortest value
  | box => exact boxOfText_iff decimals shortest value
  | line =>
      have refused := lineOfText_text decimals through value
      exact iff_of_false (fun read => nomatch refused.symm.trans read) not_false
  | circle => exact circleOfText_iff decimals shortest value

theorem segment_round_trip_integers :
    let value : LsegOf Int := ⟨⟨11, -2⟩, ⟨3, 4⟩⟩
    SegmentType.lseg.ofText readCoordinate (fun _ _ => ⟨0, 0, 0⟩)
        (SegmentType.lseg.text Numerals.integer value) = .ok value ↔
      SegmentType.lseg.Fits Numerals.integer value :=
  segment_round_trip_iff integer_decimals integer_shortest (fun _ _ => ⟨0, 0, 0⟩) .lseg _

theorem circle_refused :
    CircleOf.ofText readCoordinate (CircleOf.text Numerals.integer ⟨⟨1, 2⟩, 3⟩) ≠
      .ok ⟨⟨1, 2⟩, 3⟩ := by
  intro read
  have fits := (circleOfText_iff integer_decimals integer_shortest ⟨⟨1, 2⟩, 3⟩).mp read
  exact absurd fits (by decide)

end Types

end PqAsync
