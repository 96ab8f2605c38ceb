import PqAsync.GeoTextCore
import PqAsync.Library.Numerals
import PqAsync.Library.Results

/-!
Paths and polygons as texts and back: the loop that goes from comma to comma ends on every text, and
on a printed one it finds every point where it was printed.
-/

namespace PqAsync

open Results

variable {D : Type} {numToStr : D → List Char} {strToNum : List Char → Except WireError D}

/-- Numbers are printed as decimals without an exponent, and are read as what was printed. -/
structure DecimalTexts (numToStr : D → List Char) (strToNum : List Char → Except WireError D) :
    Prop where
  plain : ∀ x, ∀ c ∈ numToStr x, isNumberChar c = true
  nonempty : ∀ x, numToStr x ≠ []
  exact : ∀ x, strToNum (numToStr x) = .ok x

section Characters

def isBracket (c : Char) : Bool := !isNumberChar c && c != ',' && !isSpace c

theorem isBracket_iff {c : Char} :
    isBracket c = true ↔ isNumberChar c = false ∧ c ≠ ',' ∧ isSpace c = false := by
  rw [isBracket, Bool.and_eq_true, Bool.and_eq_true, Bool.not_eq_true', Bool.not_eq_true',
    bne_iff_ne, and_assoc]

theorem numberChar_plain {c : Char} (number : isNumberChar c = true) :
    c ≠ ',' ∧ isSpace c = false := by
  constructor
  · rintro rfl
    cases number
  · rw [Bool.eq_false_iff]
    intro space
    simp only [isSpace, Bool.or_eq_true, beq_iff_eq] at space
    rcases space with ((((rfl | rfl) | rfl) | rfl) | rfl) | rfl <;> cases number

variable {wanted idx : Nat} {u : List Char}

theorem numberChars_numbers (numbers : ∀ c ∈ u, isNumberChar c = true) (v : List Char) :
    numberChars wanted idx (u ++ v) =
      (if idx = wanted then u else []) ++ numberChars wanted idx v := by
  induction u with
  | nil => rw [ite_self, List.nil_append, List.nil_append]
  | cons c u ih =>
      have rest := ih fun d member => numbers d (List.mem_cons_of_mem c member)
      rw [List.cons_append, numberChars, if_pos (numbers c List.mem_cons_self), rest]
      split
      · rfl
      · rfl

theorem singleBracket {c : Char} (bracket : isBracket c = true) :
    ∀ other ∈ [c], isBracket other = true := List.forall_mem_singleton.mpr bracket

theorem numberChars_brackets (brackets : ∀ c ∈ u, isBracket c = true) (v : List Char) :
    numberChars wanted idx (u ++ v) = numberChars wanted idx v := by
  induction u with
  | nil => rfl
  | cons c u ih =>
      obtain ⟨other, noComma, _⟩ := isBracket_iff.mp (brackets c List.mem_cons_self)
      rw [List.cons_append, numberChars, if_neg (by rw [other]; exact Bool.false_ne_true),
        if_neg noComma]
      exact ih fun d member => brackets d (List.mem_cons_of_mem c member)

theorem numberChars_comma (v : List Char) :
    numberChars wanted idx (',' :: v) = numberChars wanted (idx + 1) v := rfl

theorem numberChars_past (behind : wanted < idx) (s : List Char) : numberChars wanted idx s = [] := by
  induction s generalizing idx with
  | nil => rfl
  | cons c s ih =>
      rw [numberChars]
      split
      · rw [if_neg behind.ne', ih behind]
      · split
        · exact ih (behind.trans (Nat.lt_succ_self idx))
        · exact ih behind

theorem trim_of_visible {s : List Char} (visible : ∀ c ∈ s, isSpace c = false) : trim s = s := by
  have kept : ∀ {s : List Char}, (∀ c ∈ s, isSpace c = false) → s.dropWhile isSpace = s := by
    intro s visible
    cases s with
    | nil => rfl
    | cons c s =>
        exact List.dropWhile_cons_of_neg (Bool.eq_false_iff.mp (visible c List.mem_cons_self))
  rw [trim, kept visible, kept fun c member => visible c (List.mem_reverse.mp member),
    List.reverse_reverse]

end Characters

section Commas

theorem findIdx_comma {u : List Char} (none : ',' ∉ u) (v : List Char) :
    (u ++ ',' :: v).findIdx? (· = ',') = some u.length := by
  induction u with
  | nil => rfl
  | cons c u ih =>
      rw [List.mem_cons, not_or] at none
      rw [List.cons_append, List.findIdx?_cons, ih none.2]
      simp [Ne.symm none.1]

theorem findComma_found {front u : List Char} (none : ',' ∉ u) (v : List Char) :
    findComma (front ++ (u ++ ',' :: v)) front.length = some (front.length + u.length) := by
  rw [findComma, List.drop_left, findIdx_comma none, Option.map_some]

theorem findComma_none {front u : List Char} (none : ',' ∉ u) :
    findComma (front ++ u) front.length = .none := by
  have missing : u.findIdx? (· = ',') = .none := by
    rw [List.findIdx?_eq_none_iff]
    intro c member
    exact decide_eq_false fun same => none (same ▸ member)
  rw [findComma, List.drop_left, missing, Option.map_none]

theorem findComma_bounds {s : List Char} {pos comma : Nat} (found : findComma s pos = some comma) :
    pos ≤ comma ∧ comma < s.length := by
  rw [findComma, Option.map_eq_some_iff] at found
  obtain ⟨i, found, rfl⟩ := found
  have inside := (List.findIdx?_eq_some_iff_getElem.mp found).1
  rw [List.length_drop] at inside
  omega

end Commas

section Termination

theorem pointsLoop_ends {s : List Char} {fuel finish : Nat} (enough : s.length - finish < fuel)
    (points : List (PointOf D)) : ∃ result, pointsLoop strToNum s fuel finish points = some result := by
  induction fuel generalizing finish points with
  | zero => omega
  | succ fuel ih =>
      rw [pointsLoop]
      cases first : findComma s (finish + 1) with
      | none => exact ⟨_, rfl⟩
      | some comma =>
          have firstBounds := findComma_bounds first
          dsimp only
          split
          · exact ⟨_, rfl⟩
          · split
            · exact ⟨_, rfl⟩
            · next unfinished =>
                cases second : findComma s (comma + 1) with
                | none =>
                    rw [second] at unfinished
                    exact absurd rfl unfinished
                | some next =>
                    have secondBounds := findComma_bounds second
                    exact ih (by rw [Option.getD_some]; omega) _

theorem trim_length_le (s : List Char) : (trim s).length ≤ s.length := by
  have front := (List.dropWhile_suffix (l := s) isSpace).length_le
  have back := (List.dropWhile_suffix (l := (s.dropWhile isSpace).reverse) isSpace).length_le
  rw [List.length_reverse] at back
  rw [trim, List.length_reverse]
  exact back.trans front

theorem pathOfText_ends {str : List Char} {fuel : Nat} (enough : str.length + 1 < fuel) :
    ∃ result, PathOf.ofText strToNum fuel str = some result := by
  have short := trim_length_le str
  rw [PathOf.ofText]
  split
  · exact ⟨_, rfl⟩
  · have inside : (trim str).length - 0 < fuel := by omega
    obtain ⟨result, ends⟩ := @pointsLoop_ends D strToNum (trim str) fuel 0 inside []
    exact ⟨_, by rw [ends]; rfl⟩

theorem polygonOfText_ends {str : List Char} {fuel : Nat} (enough : str.length + 1 < fuel) :
    ∃ result, polygonOfText strToNum fuel str = some result := by
  have short := trim_length_le str
  rw [polygonOfText]
  split
  · exact ⟨_, rfl⟩
  · exact pointsLoop_ends (by rw [List.length_cons]; omega) []

end Termination

section Integers

def readCoordinate (text : List Char) : Except WireError Int :=
  match Numerals.readInteger text with
  | some x => .ok x
  | none => .error .overflow

theorem integer_decimals : DecimalTexts Numerals.integer readCoordinate where
  plain x c member := by
    rw [isNumberChar, decide_eq_true_iff]
    rcases Numerals.mem_integer member with sign | digit
    · exact .inr (.inr sign)
    · exact .inl digit
  nonempty x := by
    rw [Numerals.integer]
    exact fun none => Nat.toDigits_ne_nil (List.append_eq_nil_iff.mp none).2
  exact x := by rw [readCoordinate, Numerals.readInteger_integer]

end Integers

section RoundTrip

variable (decimals : DecimalTexts numToStr strToNum)
include decimals

theorem DecimalTexts.no_comma (x : D) : ',' ∉ numToStr x := fun member =>
  (numberChar_plain (decimals.plain x ',' member)).1 rfl

theorem DecimalTexts.length_pos (x : D) : (numToStr x).length ≠ 0 :=
  mt List.length_eq_zero_iff.mp (decimals.nonempty x)

theorem numberChars_first {lead : List Char} (brackets : ∀ c ∈ lead, isBracket c = true) (x : D)
    (rest : List Char) : numberChars 0 0 (lead ++ (numToStr x ++ ',' :: rest)) = numToStr x := by
  rw [numberChars_brackets brackets, numberChars_numbers (decimals.plain x), numberChars_comma,
    numberChars_past Nat.one_pos, if_pos rfl, List.append_nil]

theorem numberChars_second {lead tail : List Char} (brackets : ∀ c ∈ lead, isBracket c = true)
    (ending : ∀ c ∈ tail, isBracket c = true) (x y : D) :
    numberChars 1 0 (lead ++ (numToStr x ++ ',' :: (numToStr y ++ tail))) = numToStr y := by
  have last := @numberChars_brackets 1 1 tail ending []
  rw [List.append_nil] at last
  rw [numberChars_brackets brackets, numberChars_numbers (decimals.plain x), numberChars_comma,
    if_neg Nat.zero_ne_one, List.nil_append, numberChars_numbers (decimals.plain y), if_pos rfl, last]
  exact List.append_nil _

theorem text_visible {lead tail : List Char} (brackets : ∀ c ∈ lead, isBracket c = true)
    (ending : ∀ c ∈ tail, isBracket c = true) (x y : D) :
    ∀ c ∈ lead ++ (numToStr x ++ ',' :: (numToStr y ++ tail)), isSpace c = false := by
  intro c member
  simp only [List.mem_append, List.mem_cons] at member
  rcases member with front | first | rfl | second | back
  · exact (isBracket_iff.mp (brackets c front)).2.2
  · exact (numberChar_plain (decimals.plain x c first)).2
  · rfl
  · exact (numberChar_plain (decimals.plain y c second)).2
  · exact (isBracket_iff.mp (ending c back)).2.2

theorem pointOfText_surrounded {lead tail : List Char} (brackets : ∀ c ∈ lead, isBracket c = true)
    (ending : ∀ c ∈ tail, isBracket c = true) (point : PointOf D) :
    PointOf.ofText strToNum (lead ++ (numToStr point.x ++ ',' :: (numToStr point.y ++ tail))) =
      .ok point := by
  rw [PointOf.ofText, trim_of_visible (text_visible decimals brackets ending point.x point.y),
    numberChars_first decimals brackets, numberChars_second decimals brackets ending,
    if_neg (by simp [decimals.length_pos]), decimals.exact, decimals.exact]
  rfl

theorem pointText_surrounded {lead tail : List Char} (brackets : ∀ c ∈ lead, isBracket c = true)
    (ending : ∀ c ∈ tail, isBracket c = true) (point : PointOf D) :
    PointOf.ofText strToNum (lead ++ (PointOf.text numToStr point ++ tail)) = .ok point := by
  have brackets' : ∀ c ∈ lead ++ ['('], isBracket c = true := by
    intro c member
    rcases List.mem_append.mp member with front | opening
    · exact brackets c front
    · rw [List.mem_singleton.mp opening]
      rfl
  have ending' : ∀ c ∈ ')' :: tail, isBracket c = true := by
    intro c member
    rcases List.mem_cons.mp member with rfl | back
    · rfl
    · exact ending c back
  have read := pointOfText_surrounded decimals brackets' ending' point
  simpa [PointOf.text] using read

theorem findComma_point {front lead : List Char} (brackets : ∀ c ∈ lead, isBracket c = true)
    (point : PointOf D) (rest : List Char) :
    ∃ comma, findComma (front ++ (lead ++ (PointOf.text numToStr point ++ rest))) front.length =
        some comma ∧ ∃ before after,
          front ++ (lead ++ (PointOf.text numToStr point ++ rest)) = before ++ (after ++ rest) ∧
            before.length = comma + 1 ∧ ',' ∉ after ∧
            comma + 1 + after.length = front.length + (lead ++ PointOf.text numToStr point).length := by
  have noComma : ',' ∉ lead ++ '(' :: numToStr point.x := by
    intro member
    rcases List.mem_append.mp member with opening | member
    · exact (isBracket_iff.mp (brackets ',' opening)).2.1 rfl
    · rcases List.mem_cons.mp member with same | number
      · cases same
      · exact decimals.no_comma point.x number
  have found := @findComma_found front _ noComma (numToStr point.y ++ ')' :: rest)
  refine ⟨front.length + (lead ++ '(' :: numToStr point.x).length, ?_,
    front ++ (lead ++ '(' :: (numToStr point.x ++ [','])), numToStr point.y ++ [')'], ?_, ?_, ?_, ?_⟩
  · simpa [PointOf.text] using found
  · simp [PointOf.text]
  · simp only [List.length_append, List.length_cons, List.length_nil]
    omega
  · intro member
    rcases List.mem_append.mp member with number | closing
    · exact decimals.no_comma point.y number
    · cases List.mem_singleton.mp closing
  · simp only [PointOf.text, List.length_append, List.length_cons, List.length_nil]
    omega

theorem pointsLoop_next {front lead : List Char} {finish fuel : Nat}
    (position : front.length = finish + 1) (brackets : ∀ c ∈ lead, isBracket c = true)
    (point : PointOf D) (rest : List Char) (points : List (PointOf D)) :
    pointsLoop strToNum (front ++ (lead ++ (PointOf.text numToStr point ++ ',' :: rest))) (fuel + 1)
        finish points =
      pointsLoop strToNum (front ++ (lead ++ (PointOf.text numToStr point ++ ',' :: rest))) fuel
        (front.length + (lead ++ PointOf.text numToStr point).length) (points ++ [point]) := by
  obtain ⟨comma, first, before, after, split, length, noComma, second⟩ :=
    @findComma_point D _ _ decimals front lead brackets point (',' :: rest)
  have next : findComma (front ++ (lead ++ (PointOf.text numToStr point ++ ',' :: rest)))
      (comma + 1) = some (comma + 1 + after.length) := by
    rw [split, ← length]
    exact findComma_found noComma rest
  have cut : ((front ++ (lead ++ (PointOf.text numToStr point ++ ',' :: rest))).drop front.length).take
      (front.length + (lead ++ PointOf.text numToStr point).length - front.length) =
      lead ++ (PointOf.text numToStr point ++ []) := by
    rw [List.drop_left, Nat.add_sub_cancel_left, List.append_nil, ← List.append_assoc]
    exact List.take_left
  have inside : front.length + (lead ++ PointOf.text numToStr point).length ≠
      (front ++ (lead ++ (PointOf.text numToStr point ++ ',' :: rest))).length := by
    simp only [List.length_append, List.length_cons]
    omega
  rw [pointsLoop, ← position, first]
  dsimp only
  rw [next, Option.getD_some, second, cut, pointText_surrounded decimals brackets (by simp)]
  dsimp only
  rw [if_neg inside]

theorem pointsLoop_last {front lead tail : List Char} {finish fuel : Nat}
    (position : front.length = finish + 1) (brackets : ∀ c ∈ lead, isBracket c = true)
    (ending : ∀ c ∈ tail, isBracket c = true) (point : PointOf D) (points : List (PointOf D)) :
    pointsLoop strToNum (front ++ (lead ++ (PointOf.text numToStr point ++ tail))) (fuel + 1)
      finish points = some (.ok (points ++ [point])) := by
  obtain ⟨comma, first, before, after, split, length, noComma, second⟩ :=
    @findComma_point D _ _ decimals front lead brackets point tail
  have next : findComma (front ++ (lead ++ (PointOf.text numToStr point ++ tail)))
      (comma + 1) = none := by
    rw [split, ← length]
    refine findComma_none fun member => ?_
    rcases List.mem_append.mp member with inside | closing
    · exact noComma inside
    · exact (isBracket_iff.mp (ending ',' closing)).2.1 rfl
  have cut : ((front ++ (lead ++ (PointOf.text numToStr point ++ tail))).drop front.length).take
      ((front ++ (lead ++ (PointOf.text numToStr point ++ tail))).length - front.length) =
      lead ++ (PointOf.text numToStr point ++ tail) := by
    rw [List.drop_left, List.length_append, Nat.add_sub_cancel_left]
    exact List.take_length
  rw [pointsLoop, ← position, first]
  dsimp only
  rw [next, Option.getD_none, cut, pointText_surrounded decimals brackets ending]
  dsimp only
  rw [if_pos rfl]

theorem pointsLoop_points {tail : List Char} (ending : ∀ c ∈ tail, isBracket c = true)
    {points : List (PointOf D)} (nonempty : points ≠ []) {front lead : List Char} {finish fuel : Nat}
    (position : front.length = finish + 1) (brackets : ∀ c ∈ lead, isBracket c = true)
    (enough : points.length ≤ fuel) (done : List (PointOf D)) :
    pointsLoop strToNum (front ++ (lead ++ (pointsText numToStr points ++ tail))) fuel finish done =
      some (.ok (done ++ points)) := by
  induction points generalizing front lead finish fuel done with
  | nil => exact absurd rfl nonempty
  | cons point points ih =>
      cases fuel with
      | zero => cases enough
      | succ fuel =>
          cases points with
          | nil => exact pointsLoop_last decimals position brackets ending point done
          | cons next points =>
              have passed : (front ++ (lead ++ (PointOf.text numToStr point ++ [',']))).length =
                  front.length + (lead ++ PointOf.text numToStr point).length + 1 := by
                simp only [List.length_append, List.length_singleton]
                omega
              have rest := @ih (List.cons_ne_nil next points) _ [] _ fuel passed
                (List.forall_mem_nil _) (Nat.le_of_succ_le_succ enough) (done ++ [point])
              have step := @pointsLoop_next D _ _ decimals front lead finish fuel position brackets
                point (pointsText numToStr (next :: points) ++ tail) done
              simp only [pointsText, List.append_assoc, List.cons_append,
                List.nil_append] at rest step ⊢
              rw [step, rest]

theorem count_pointText (point : PointOf D) : (PointOf.text numToStr point).count ',' = 1 := by
  have first := List.count_eq_zero.mpr (decimals.no_comma point.x)
  have second := List.count_eq_zero.mpr (decimals.no_comma point.y)
  simp [PointOf.text, first, second]

theorem count_pointsText {points : List (PointOf D)} (nonempty : points ≠ []) :
    (pointsText numToStr points).count ',' + 1 = 2 * points.length := by
  induction points with
  | nil => exact absurd rfl nonempty
  | cons point points ih =>
      have own := count_pointText decimals point
      cases points with
      | nil => rw [pointsText, own, List.length_singleton]
      | cons next points =>
          have rest := ih (List.cons_ne_nil next points)
          rw [pointsText, List.count_append, own, List.count_cons_self, List.length_cons]
          omega

theorem pointText_visible (point : PointOf D) :
    ∀ c ∈ PointOf.text numToStr point, isSpace c = false :=
  @text_visible D _ _ decimals ['('] [')'] (singleBracket rfl) (singleBracket rfl) point.x point.y

theorem pointsText_visible (points : List (PointOf D)) :
    ∀ c ∈ pointsText numToStr points, isSpace c = false := by
  induction points with
  | nil => exact List.forall_mem_nil _
  | cons point points ih =>
      intro c member
      cases points with
      | nil => exact pointText_visible decimals point c member
      | cons next points =>
          rcases List.mem_append.mp member with own | others
          · exact pointText_visible decimals point c own
          · rcases List.mem_cons.mp others with rfl | rest
            · rfl
            · exact ih c rest

omit decimals in
theorem length_le_pointsText (points : List (PointOf D)) :
    points.length ≤ (pointsText numToStr points).length := by
  induction points with
  | nil => exact Nat.zero_le _
  | cons point points ih =>
      cases points with
      | nil => simp [pointsText, PointOf.text]
      | cons next points =>
          rw [pointsText, List.length_append, List.length_cons, @List.length_cons Char]
          omega

theorem enclosed_text {points : List (PointOf D)} (nonempty : points ≠ []) {first last : Char}
    (opening : isBracket first = true) (closing : isBracket last = true) :
    trim (first :: (pointsText numToStr points ++ [last])) =
        first :: (pointsText numToStr points ++ [last]) ∧
      (first :: (pointsText numToStr points ++ [last])).count ',' % 2 ≠ 0 := by
  constructor
  · apply trim_of_visible
    intro c member
    simp only [List.mem_cons, List.mem_append, List.not_mem_nil, or_false] at member
    rcases member with rfl | inside | rfl
    · exact (isBracket_iff.mp opening).2.2
    · exact pointsText_visible decimals points c inside
    · exact (isBracket_iff.mp closing).2.2
  · have commas := count_pointsText decimals nonempty
    rw [List.count_cons_of_ne (isBracket_iff.mp opening).2.1, List.count_append,
      List.count_singleton, if_neg (by simp [(isBracket_iff.mp closing).2.1])]
    omega

theorem pathOfText_text (closed : Bool) {points : List (PointOf D)} (nonempty : points ≠ [])
    {fuel : Nat} (enough : (PathOf.text numToStr { closed, points }).length + 1 < fuel) :
    PathOf.ofText strToNum fuel (PathOf.text numToStr { closed, points }) =
      some (.ok { closed, points }) := by
  have opening : isBracket (if closed then '(' else '[') = true := by cases closed <;> rfl
  have closing : isBracket (if closed then ')' else ']') = true := by cases closed <;> rfl
  have flag : decide (some (if closed then '(' else '[') = some '(') = closed := by
    cases closed <;> rfl
  have few : points.length ≤ fuel := by
    have short := @length_le_pointsText D numToStr points
    simp only [PathOf.text, List.length_cons, List.length_append] at enough
    omega
  obtain ⟨trimmed, odd⟩ := enclosed_text decimals nonempty opening closing
  have read := @pointsLoop_points D _ _ decimals [if closed then ')' else ']']
    (by simpa using closing) points nonempty [if closed then '(' else '['] [] 0 fuel rfl
    (List.forall_mem_nil _) few []
  rw [PathOf.text, PathOf.ofText, trimmed, if_neg odd]
  rw [List.nil_append, List.singleton_append] at read
  rw [read, List.head?_cons, flag]
  rfl

theorem polygonOfText_text {points : List (PointOf D)} (nonempty : points ≠ []) {fuel : Nat}
    (enough : (polygonText numToStr points).length + 1 < fuel) :
    polygonOfText strToNum fuel (polygonText numToStr points) = some (.ok points) := by
  have few : points.length ≤ fuel := by
    have short := @length_le_pointsText D numToStr points
    simp only [polygonText, List.length_cons, List.length_append] at enough
    omega
  obtain ⟨trimmed, odd⟩ := @enclosed_text D _ _ decimals points nonempty '(' ')' rfl rfl
  have read := @pointsLoop_points D _ _ decimals [')'] (singleBracket rfl) points nonempty [' '] ['(']
    0 fuel rfl (singleBracket rfl) few []
  rw [polygonText, polygonOfText, trimmed, if_neg odd]
  exact read

/-- What is printed of a path or a polygon with points is read as the same value, and both parsers
end on every text. -/
theorem path_polygon_round_trip {points : List (PointOf D)} (nonempty : points ≠ []) :
    (∀ closed fuel, (PathOf.text numToStr { closed, points }).length + 1 < fuel →
      PathOf.ofText strToNum fuel (PathOf.text numToStr { closed, points }) =
        some (.ok { closed, points })) ∧
    (∀ fuel, (polygonText numToStr points).length + 1 < fuel →
      polygonOfText strToNum fuel (polygonText numToStr points) = some (.ok points)) ∧
    (∀ str fuel, str.length + 1 < fuel →
      (∃ result, PathOf.ofText strToNum fuel str = some result) ∧
        ∃ result, polygonOfText strToNum fuel str = some result) :=
  ⟨fun closed _ enough => pathOfText_text decimals closed nonempty enough,
    fun _ enough => polygonOfText_text decimals nonempty enough,
    fun _ _ enough => ⟨pathOfText_ends enough, polygonOfText_ends enough⟩⟩

end RoundTrip

theorem path_polygon_round_trip_integers :
    let points : List (PointOf Int) := [⟨1, -2⟩, ⟨30, 4⟩]
    (∀ closed fuel, (PathOf.text Numerals.integer { closed, points }).length + 1 < fuel →
      PathOf.ofText readCoordinate fuel (PathOf.text Numerals.integer { closed, points }) =
        some (.ok { closed, points })) ∧
    (∀ fuel, (polygonText Numerals.integer points).length + 1 < fuel →
      polygonOfText readCoordinate fuel (polygonText Numerals.integer points) = some (.ok points)) ∧
    (∀ str fuel, str.length + 1 < fuel →
      (∃ result, PathOf.ofText readCoordinate fuel str = some result) ∧
        ∃ result, polygonOfText readCoordinate fuel str = some result) :=
  path_polygon_round_trip integer_decimals (List.cons_ne_nil _ _)

end PqAsync
