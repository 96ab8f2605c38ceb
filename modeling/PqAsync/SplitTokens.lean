import PqAsync.SplitEndings
import PqAsync.Library.Tokens
import Mathlib.Data.List.TakeWhile

/-!
The token sequence of a query: how its text is cut into chunks, and what trimming and the
pieces of a statement are to it.
-/

namespace PqAsync

/-- Where a reader of a query stands, with what it has read since the chunk began: in a quoted
text, after a quote that closes it unless it is doubled, in the opening delimiter of a dollar
block, or in its body. -/
inductive Reading
  | outside
  | quoted (quote : Char) (sofar : List Char)
  | closing (quote : Char) (sofar : List Char)
  | tag (sofar : List Char)
  | body (delimiter sofar : List Char)
  deriving DecidableEq, Repr

def Reading.sofar : Reading → List Char
  | .outside => []
  | .quoted _ text => text
  | .closing _ text => text
  | .tag text => text
  | .body _ text => text

def opening (c : Char) : Option Reading :=
  if c = '\'' ∨ c = '"' then some (.quoted c [c])
  else if c = '$' then some (.tag [c])
  else none

def chunks : Reading → List Char → List (List Char)
  | .outside, [] => []
  | reading, [] => [reading.sofar]
  | .outside, c :: rest =>
      match opening c with
      | some reading => chunks reading rest
      | none => [c] :: chunks .outside rest
  | .quoted quote text, c :: rest =>
      if c = quote then chunks (.closing quote (text ++ [c])) rest
      else chunks (.quoted quote (text ++ [c])) rest
  | .closing quote text, c :: rest =>
      if c = quote then chunks (.quoted quote (text ++ [c])) rest
      else text ::
        match opening c with
        | some reading => chunks reading rest
        | none => [c] :: chunks .outside rest
  | .tag text, c :: rest =>
      if c = '$' then chunks (.body (text ++ [c]) (text ++ [c])) rest
      else chunks (.tag (text ++ [c])) rest
  | .body delimiter text, c :: rest =>
      if delimiter <:+ text ++ [c] ∧ 2 * delimiter.length ≤ (text ++ [c]).length then
        (text ++ [c]) :: chunks .outside rest
      else chunks (.body delimiter (text ++ [c])) rest

section

variable {quote c : Char} {delimiter text rest : List Char}

theorem chunks_outside_cons : chunks .outside (c :: rest) =
    match opening c with
    | some reading => chunks reading rest
    | none => [c] :: chunks .outside rest := rfl

theorem chunks_quoted_cons : chunks (.quoted quote text) (c :: rest) =
    if c = quote then chunks (.closing quote (text ++ [c])) rest
    else chunks (.quoted quote (text ++ [c])) rest := rfl

theorem chunks_closing_cons : chunks (.closing quote text) (c :: rest) =
    if c = quote then chunks (.quoted quote (text ++ [c])) rest
    else text :: chunks .outside (c :: rest) := rfl

theorem chunks_tag_cons : chunks (.tag text) (c :: rest) =
    if c = '$' then chunks (.body (text ++ [c]) (text ++ [c])) rest
    else chunks (.tag (text ++ [c])) rest := rfl

theorem chunks_body_cons : chunks (.body delimiter text) (c :: rest) =
    if delimiter <:+ text ++ [c] ∧ 2 * delimiter.length ≤ (text ++ [c]).length then
      (text ++ [c]) :: chunks .outside rest
    else chunks (.body delimiter (text ++ [c])) rest := rfl

end

def blankChunk (chunk : List Char) : Bool := chunk.all isSpace

/-- Two quoted texts of one kind that touch are one, and other characters form one token as
the relation `joins` says. -/
def touching (joins : Char → Char → Bool) (left right : Char) : Bool :=
  left == right && (left == '\'' || left == '"') || joins left right

def tokensOf (joins : Char → Char → Bool) (query : List Char) : List (List Char) :=
  Tokens.tokens blankChunk (touching joins) (chunks .outside query)

def visible (c : Char) : Bool := !isSpace c

variable {joins : Char → Char → Bool}

theorem opening_sofar {c : Char} {reading : Reading} (opens : opening c = some reading) :
    reading.sofar = [c] := by
  unfold opening at opens
  split at opens
  · cases opens
    rfl
  · split at opens
    · cases opens
      rfl
    · cases opens

theorem chunks_flatten (text : List Char) (reading : Reading) :
    (chunks reading text).flatten = reading.sofar ++ text := by
  induction text generalizing reading with
  | nil =>
      cases reading with
      | outside => rfl
      | quoted quote text => rfl
      | closing quote text => rfl
      | tag text => rfl
      | body delimiter text => rfl
  | cons c rest ih =>
      have started : (chunks .outside (c :: rest)).flatten = c :: rest := by
        rw [chunks_outside_cons]
        cases opens : opening c with
        | none => simp [ih, Reading.sofar]
        | some reading => simp [ih, opening_sofar opens]
      cases reading with
      | outside => exact started
      | quoted quote text =>
          rw [chunks_quoted_cons]
          split <;> simp [ih, Reading.sofar]
      | closing quote text =>
          rw [chunks_closing_cons]
          split
          · simp [ih, Reading.sofar]
          · rw [List.flatten_cons, started]
            rfl
      | tag text =>
          rw [chunks_tag_cons]
          split <;> simp [ih, Reading.sofar]
      | body delimiter text =>
          rw [chunks_body_cons]
          split <;> simp [ih, Reading.sofar]

theorem blankChunk_visible (chunk : List Char) (blank : blankChunk chunk = true) :
    chunk.filter visible = [] := by
  rw [List.filter_eq_nil_iff]
  intro c inChunk
  have space := List.all_eq_true.mp blank c inChunk
  simp [visible, space]

theorem tokensOf_visible (query : List Char) :
    (tokensOf joins query).flatten.filter visible = query.filter visible := by
  rw [tokensOf, Tokens.tokens_flatten_filter visible blankChunk_visible, chunks_flatten]
  rfl

theorem dropWhile_isSpace_visible (text : List Char) :
    (text.dropWhile isSpace).filter visible = text.filter visible := by
  induction text with
  | nil => rfl
  | cons c text ih =>
      by_cases space : isSpace c = true
      · rw [List.dropWhile_cons_of_pos space, ih]
        simp [visible, space]
      · rw [List.dropWhile_cons_of_neg space]

theorem trim_visible (text : List Char) : (trim text).filter visible = text.filter visible := by
  rw [trim, List.filter_reverse, dropWhile_isSpace_visible, List.filter_reverse,
    List.reverse_reverse, dropWhile_isSpace_visible]

theorem trim_eq_nil_iff (text : List Char) : trim text = [] ↔ text.filter visible = [] := by
  constructor
  · intro empty
    rw [← trim_visible, empty]
    rfl
  · intro none
    by_contra nonempty
    obtain ⟨c, member⟩ := List.exists_mem_of_ne_nil _ nonempty
    have hidden : ∀ c ∈ trim text, visible c = false := by
      have same := (trim_visible text).trans none
      simpa [List.filter_eq_nil_iff] using same
    have stripped : ∀ spaces : List Char, (∀ c ∈ spaces, visible c = false) →
        spaces.dropWhile isSpace = [] := by
      intro spaces all
      rw [List.dropWhile_eq_nil_iff]
      intro c inSpaces
      simpa [visible] using all c inSpaces
    have whole : ∀ c ∈ text, visible c = false := by simpa [List.filter_eq_nil_iff] using none
    simp [trim, stripped text whole] at nonempty

theorem chunks_contents (quote : Char) (contents rest text : List Char) :
    chunks (.quoted quote text) (doubled quote contents ++ quote :: rest) =
      chunks (.closing quote (text ++ (doubled quote contents ++ [quote]))) rest := by
  induction contents generalizing text with
  | nil => simp [chunks_quoted_cons]
  | cons c contents ih =>
      rw [doubled_cons]
      by_cases same : c = quote
      · subst c
        simp only [↓reduceIte, List.cons_append, List.nil_append]
        rw [chunks_quoted_cons, if_pos rfl, chunks_closing_cons, if_pos rfl, ih]
        simp
      · simp only [same, ↓reduceIte, List.cons_append, List.nil_append]
        rw [chunks_quoted_cons, if_neg same, ih]
        simp

theorem chunks_closing (quote : Char) (text rest : List Char) (single : rest.head? ≠ some quote) :
    chunks (.closing quote text) rest = text :: chunks .outside rest := by
  cases rest with
  | nil => rfl
  | cons c rest =>
      have different : c ≠ quote := by
        rintro rfl
        exact single rfl
      rw [chunks_closing_cons, if_neg different]

theorem chunks_tag (tag rest text : List Char) (plain : '$' ∉ tag) :
    chunks (.tag text) (tag ++ '$' :: rest) =
      chunks (.body (text ++ (tag ++ ['$'])) (text ++ (tag ++ ['$']))) rest := by
  induction tag generalizing text with
  | nil => simp [chunks_tag_cons]
  | cons c tag ih =>
      have different : c ≠ '$' := fun same => plain (by simp [same])
      have tailPlain : '$' ∉ tag := fun member => plain (List.mem_cons_of_mem _ member)
      rw [List.cons_append, chunks_tag_cons, if_neg different, ih _ tailPlain]
      simp

theorem chunks_body {delimiter body : List Char} (first : FirstAtEnd delimiter body) (text more rest : List Char) (left : more ≠ [])
    (whole : text ++ more = body ++ delimiter) :
    chunks (.body delimiter (delimiter ++ text)) (more ++ rest) =
      (delimiter ++ (body ++ delimiter)) :: chunks .outside rest := by
  induction more generalizing text with
  | nil => exact absurd rfl left
  | cons c more ih =>
      rw [List.cons_append, chunks_body_cons]
      by_cases last : more = []
      · subst more
        rw [if_pos]
        · rw [List.append_assoc, whole]
          rfl
        · rw [List.append_assoc, whole]
          refine ⟨⟨delimiter ++ body, by simp⟩, ?_⟩
          simp only [List.length_append]
          omega
      · rw [if_neg]
        · rw [List.append_assoc]
          apply ih (text ++ [c]) last
          rw [← whole]
          simp
        · rintro ⟨suffix, long⟩
          rw [List.append_assoc] at suffix long
          obtain ⟨before, ends⟩ : delimiter <:+ text ++ [c] := by
            apply List.suffix_of_suffix_length_le suffix (List.suffix_append delimiter _)
            simp only [List.length_append] at long ⊢
            omega
          -- the delimiter would end before the end of the body
          have count := congrArg List.length whole
          have endsCount := congrArg List.length ends
          have moreCount := List.length_pos_of_ne_nil last
          simp only [List.length_append, List.length_cons, List.length_nil] at count endsCount
          apply first before.length (by omega)
          rw [← whole, show text ++ c :: more = before ++ (delimiter ++ more) by
            rw [← List.append_assoc, ends]
            simp]
          simp

theorem chunks_piece (piece : Piece) (valid : piece.Valid) (rest : List Char)
    (open_ : ∀ next ∈ rest.head?, piece.barrier ≠ some next) :
    chunks .outside (piece.text ++ rest) = piece.text :: chunks .outside rest := by
  have notNext : ∀ quote, piece.barrier = some quote → rest.head? ≠ some quote := by
    intro quote barrier follows
    exact open_ quote follows barrier
  cases piece with
  | plain c =>
      obtain ⟨notSingle, notDouble, notDollar, _⟩ := valid
      have none : opening c = none := by simp [opening, notSingle, notDouble, notDollar]
      simp [Piece.text, chunks_outside_cons, none]
  | literal contents =>
      have opens : opening '\'' = some (.quoted '\'' ['\'']) := rfl
      simp only [Piece.text, List.cons_append, List.append_assoc, List.nil_append,
        chunks_outside_cons, opens]
      rw [chunks_contents, chunks_closing _ _ _ (notNext _ rfl)]
      rfl
  | identifier contents =>
      have opens : opening '"' = some (.quoted '"' ['"']) := rfl
      simp only [Piece.text, List.cons_append, List.append_assoc, List.nil_append,
        chunks_outside_cons, opens]
      rw [chunks_contents, chunks_closing _ _ _ (notNext _ rfl)]
      rfl
  | dollar tag body =>
      obtain ⟨plain, first⟩ := valid
      have opens : opening '$' = some (.tag ['$']) := rfl
      have unfolded : (Piece.dollar tag body).text ++ rest =
          '$' :: (tag ++ '$' :: ((body ++ dollarDelimiter tag) ++ rest)) := by
        simp [Piece.text, dollarDelimiter]
      have delimiter : ['$'] ++ (tag ++ ['$']) = dollarDelimiter tag := rfl
      rw [unfolded, chunks_outside_cons, opens]
      dsimp only
      rw [chunks_tag _ _ _ plain, delimiter]
      have read := chunks_body first [] (body ++ dollarDelimiter tag)
        rest (by simp [dollarDelimiter]) rfl
      rw [List.append_nil] at read
      rw [read]
      rfl

theorem chunks_pieces (pieces : List Piece) (valid : ∀ piece ∈ pieces, piece.Valid)
    (separated : Separated pieces) :
    chunks .outside (piecesText pieces) = pieces.map Piece.text := by
  induction pieces with
  | nil => rfl
  | cons piece pieces ih =>
      have parts := List.forall_mem_cons.mp valid
      rw [piecesText_cons, chunks_piece piece parts.1, ih parts.2 separated.tail, List.map_cons]
      intro next follows
      cases pieces with
      | nil => simp at follows
      | cons following pieces =>
          obtain ⟨text, startsWith⟩ := following.text_eq_first
          rw [piecesText_cons, startsWith] at follows
          simp only [List.cons_append, List.head?_cons, Option.mem_def, Option.some.injEq] at follows
          subst next
          exact (List.isChain_cons_cons.mp separated).1

def Piece.isBlank : Piece → Bool
  | .plain c => isSpace c
  | _ => false

def Piece.last : Piece → Char
  | .plain c => c
  | .literal _ => '\''
  | .identifier _ => '"'
  | .dollar _ _ => '$'

theorem Piece.text_eq_last (piece : Piece) : ∃ before, piece.text = before ++ [piece.last] := by
  cases piece with
  | plain c => exact ⟨[], rfl⟩
  | literal contents => exact ⟨'\'' :: doubled '\'' contents, rfl⟩
  | identifier contents => exact ⟨'"' :: doubled '"' contents, rfl⟩
  | dollar tag body =>
      refine ⟨dollarDelimiter tag ++ (body ++ '$' :: tag), ?_⟩
      simp [Piece.text, Piece.last, dollarDelimiter]

theorem blankChunk_text (piece : Piece) : blankChunk piece.text = piece.isBlank := by
  have single : isSpace '\'' = false ∧ isSpace '"' = false ∧ isSpace '$' = false := by decide
  obtain ⟨notSingle, notDouble, notDollar⟩ := single
  cases piece <;>
    simp [blankChunk, Piece.text, Piece.isBlank, dollarDelimiter, notSingle, notDouble, notDollar]

theorem isSpace_first (piece : Piece) : isSpace piece.first = piece.isBlank := by
  cases piece <;> rfl

theorem isSpace_last (piece : Piece) : isSpace piece.last = piece.isBlank := by
  cases piece <;> rfl

theorem fore_text (piece : Piece) (rest : List (List Char)) :
    Tokens.fore blankChunk (piece.text :: rest) =
      if piece.isBlank then none else some piece.first := by
  obtain ⟨text, startsWith⟩ := piece.text_eq_first
  rw [Tokens.fore, blankChunk_text, startsWith]
  rfl

def pieceTokens (joins : Char → Char → Bool) (pieces : List Piece) : List (List Char) :=
  Tokens.tokens blankChunk (touching joins) (pieces.map Piece.text)

theorem merged_tokens {first second whole : Piece} (text : whole.text = first.text ++ second.text)
    (solid : first.isBlank = false) (solidSecond : second.isBlank = false)
    (solidWhole : whole.isBlank = false)
    (touch : touching joins first.last second.first = true) (rest : List Piece) :
    pieceTokens joins (first :: second :: rest) = pieceTokens joins (whole :: rest) := by
  obtain ⟨before, endsWith⟩ := first.text_eq_last
  obtain ⟨after, startsWith⟩ := second.text_eq_first
  have both : blankChunk (first.text ++ second.text) = false := by
    rw [← text, blankChunk_text, solidWhole]
  have last : first.text.getLast? = some first.last := by simp [endsWith]
  have head : second.text.head? = some second.first := by simp [startsWith]
  have merged := Tokens.tokens_merge ((blankChunk_text first).trans solid)
    ((blankChunk_text second).trans solidSecond) both (by simp [startsWith]) last head touch
    (rest.map Piece.text)
  rw [← text] at merged
  exact merged

theorem glue_tokens (piece : Piece) (rest : List Piece) :
    pieceTokens joins (glue piece rest) = pieceTokens joins (piece :: rest) := by
  obtain ⟨kept, _⟩ | ⟨left, right, tail, rfl, rfl, joined⟩ | ⟨left, right, tail, rfl, rfl, joined⟩ :=
    glue_cases piece rest
  · rw [kept]
  · have text : (Piece.literal (left ++ '\'' :: right)).text =
        (Piece.literal left).text ++ (Piece.literal right).text := by
      simp [Piece.text, doubled_append, doubled_cons]
    have touch : touching joins '\'' '\'' = true := by simp [touching]
    rw [joined, merged_tokens text rfl rfl rfl touch]
  · have text : (Piece.identifier (left ++ '"' :: right)).text =
        (Piece.identifier left).text ++ (Piece.identifier right).text := by
      simp [Piece.text, doubled_append, doubled_cons]
    have touch : touching joins '"' '"' = true := by simp [touching]
    rw [joined, merged_tokens text rfl rfl rfl touch]

theorem glue_fore (piece : Piece) (rest : List Piece) :
    Tokens.fore blankChunk ((glue piece rest).map Piece.text) =
      Tokens.fore blankChunk ((piece :: rest).map Piece.text) := by
  obtain ⟨kept, _⟩ | ⟨left, right, tail, rfl, rfl, joined⟩ | ⟨left, right, tail, rfl, rfl, joined⟩ :=
    glue_cases piece rest
  · rw [kept]
  · rw [joined, List.map_cons, List.map_cons, fore_text, fore_text]
    rfl
  · rw [joined, List.map_cons, List.map_cons, fore_text, fore_text]
    rfl

theorem mergeQuotes_tokens (pieces : List Piece) :
    pieceTokens joins (mergeQuotes pieces) = pieceTokens joins pieces := by
  have both : pieceTokens joins (mergeQuotes pieces) = pieceTokens joins pieces ∧
      Tokens.fore blankChunk ((mergeQuotes pieces).map Piece.text) =
        Tokens.fore blankChunk (pieces.map Piece.text) := by
    induction pieces with
    | nil => exact ⟨rfl, rfl⟩
    | cons piece pieces ih =>
        change pieceTokens joins (glue piece (mergeQuotes pieces)) = _ ∧
          Tokens.fore blankChunk ((glue piece (mergeQuotes pieces)).map Piece.text) = _
        rw [glue_tokens, glue_fore]
        refine ⟨Tokens.tokens_cons_congr piece.text ih.1 ih.2, ?_⟩
        rw [List.map_cons, List.map_cons, fore_text, fore_text]
  exact both.1

theorem tokensOf_pieces (pieces : List Piece) (valid : ∀ piece ∈ pieces, piece.Valid)
    (noComment : pieces.IsChain fun left right => ¬ (left = .plain '-' ∧ right = .plain '-')) :
    tokensOf joins (piecesText pieces) = pieceTokens joins pieces := by
  rw [← mergeQuotes_tokens, ← mergeQuotes_text, tokensOf,
    chunks_pieces _ (mergeQuotes_valid _ valid) (mergeQuotes_separated _ valid noComment)]
  rfl

theorem dropWhile_pieces (pieces : List Piece) :
    (piecesText pieces).dropWhile isSpace = piecesText (pieces.dropWhile Piece.isBlank) := by
  induction pieces with
  | nil => rfl
  | cons piece pieces ih =>
      by_cases blank : piece.isBlank = true
      · rw [List.dropWhile_cons_of_pos blank, ← ih]
        cases piece with
        | plain c => exact List.dropWhile_cons_of_pos blank
        | _ => cases blank
      · rw [List.dropWhile_cons_of_neg blank]
        obtain ⟨text, startsWith⟩ := piece.text_eq_first
        have shown : ¬ isSpace piece.first = true := by rwa [isSpace_first]
        rw [piecesText_cons, startsWith, List.cons_append, List.dropWhile_cons_of_neg shown]

theorem dropLast_pieces (pieces : List Piece) :
    ((piecesText pieces).reverse.dropWhile isSpace).reverse =
      piecesText (pieces.reverse.dropWhile Piece.isBlank).reverse := by
  induction pieces using List.reverseRecOn with
  | nil => rfl
  | append_singleton pieces piece ih =>
      have text : piecesText (pieces ++ [piece]) = piecesText pieces ++ piece.text := by
        simp [piecesText]
      rw [text, List.reverse_append, List.reverse_append]
      by_cases blank : piece.isBlank = true
      · rw [List.reverse_singleton, List.singleton_append, List.dropWhile_cons_of_pos blank, ← ih]
        cases piece with
        | plain c =>
            have space : isSpace c = true := blank
            rw [Piece.text, List.reverse_singleton, List.singleton_append,
              List.dropWhile_cons_of_pos space]
        | _ => cases blank
      · rw [List.reverse_singleton, List.singleton_append, List.dropWhile_cons_of_neg blank]
        obtain ⟨before, endsWith⟩ := piece.text_eq_last
        have shown : ¬ isSpace piece.last = true := by rwa [isSpace_last]
        rw [endsWith, List.reverse_append, List.reverse_singleton, List.singleton_append,
          List.cons_append, List.dropWhile_cons_of_neg shown]
        simp [text, endsWith]

theorem pieceTokens_dropWhile (pieces : List Piece) :
    pieceTokens joins (pieces.dropWhile Piece.isBlank) = pieceTokens joins pieces := by
  induction pieces with
  | nil => rfl
  | cons piece pieces ih =>
      by_cases blank : piece.isBlank = true
      · rw [List.dropWhile_cons_of_pos blank, ih]
        have isBlank := (blankChunk_text piece).trans blank
        exact (Tokens.tokens_cons_blank isBlank _).symm
      · rw [List.dropWhile_cons_of_neg blank]

theorem pieceTokens_dropLast (pieces : List Piece) :
    pieceTokens joins (pieces.reverse.dropWhile Piece.isBlank).reverse =
      pieceTokens joins pieces := by
  induction pieces using List.reverseRecOn with
  | nil => rfl
  | append_singleton pieces piece ih =>
      rw [List.reverse_append, List.reverse_singleton, List.singleton_append]
      by_cases blank : piece.isBlank = true
      · rw [List.dropWhile_cons_of_pos blank, ih]
        have isBlank := (blankChunk_text piece).trans blank
        have split := @Tokens.tokens_append_blank _ _ (touching joins) _ isBlank
          (pieces.map Piece.text) []
        simp only [Tokens.tokens, List.append_nil] at split
        simp only [pieceTokens, List.map_append, List.map_cons, List.map_nil]
        exact split.symm
      · rw [List.dropWhile_cons_of_neg blank]
        simp

theorem trim_pieces (pieces : List Piece) :
    ∃ kept, kept <:+: pieces ∧ trim (piecesText pieces) = piecesText kept ∧
      pieceTokens joins kept = pieceTokens joins pieces := by
  refine ⟨((pieces.dropWhile Piece.isBlank).reverse.dropWhile Piece.isBlank).reverse, ?_, ?_, ?_⟩
  · have front := (List.dropWhile_suffix (l := pieces) Piece.isBlank).isInfix
    have back := List.dropWhile_suffix (l := (pieces.dropWhile Piece.isBlank).reverse) Piece.isBlank
    rw [← List.reverse_prefix, List.reverse_reverse] at back
    exact back.isInfix.trans front
  · rw [trim, dropWhile_pieces, dropLast_pieces]
  · rw [pieceTokens_dropLast, pieceTokens_dropWhile]

theorem tokensOf_trim (pieces : List Piece) (valid : ∀ piece ∈ pieces, piece.Valid)
    (noComment : pieces.IsChain fun left right => ¬ (left = .plain '-' ∧ right = .plain '-')) :
    tokensOf joins (trim (piecesText pieces)) = pieceTokens joins pieces := by
  obtain ⟨kept, part, text, same⟩ := @trim_pieces joins pieces
  rw [text, ← same]
  apply tokensOf_pieces kept
  · exact fun piece member => valid piece (part.subset member)
  · exact List.IsChain.infix noComment part

end PqAsync
