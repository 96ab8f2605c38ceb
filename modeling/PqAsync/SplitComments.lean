import PqAsync.SplitTokens

/-!
Scripts with line comments between the pieces of their statements, and when `split_queries`
returns the same token sequences as for white space in their place.
-/

namespace PqAsync

/-- The pieces of a statement before a comment, and the comment without its newline. A `-`
right before the two of the comment would be the first of them. -/
structure CommentLine where
  statement : Statement
  comment : List Char
  noDash : statement.pieces.getLast? ≠ some (.plain '-')
  oneLine : '\n' ∉ comment

def CommentLine.text (line : CommentLine) : List Char :=
  line.statement.text ++ '-' :: '-' :: (line.comment ++ ['\n'])

structure Commented where
  lines : List CommentLine
  last : Statement

def Commented.text (statement : Commented) : List Char :=
  statement.lines.flatMap CommentLine.text ++ statement.last.text

def strip : List CommentLine → Statement → List Piece
  | [], last => last.pieces
  | line :: lines, last => line.statement.pieces ++ strip lines last

def space : List CommentLine → Statement → List Piece
  | [], last => last.pieces
  | line :: lines, last => line.statement.pieces ++ .plain '\n' :: space lines last

theorem forall_mem_strip {holds : Piece → Prop} (lines : List CommentLine) (last : Statement)
    (inLines : ∀ line ∈ lines, ∀ piece ∈ line.statement.pieces, holds piece)
    (inLast : ∀ piece ∈ last.pieces, holds piece) : ∀ piece ∈ strip lines last, holds piece := by
  induction lines with
  | nil => exact inLast
  | cons line lines ih =>
      have parts := List.forall_mem_cons.mp inLines
      intro piece member
      rcases List.mem_append.mp member with here | later
      · exact parts.1 piece here
      · exact ih parts.2 piece later

theorem strip_valid (lines : List CommentLine) (last : Statement) :
    ∀ piece ∈ strip lines last, piece.Valid :=
  forall_mem_strip lines last (fun line _ => line.statement.valid) last.valid

theorem space_valid (lines : List CommentLine) (last : Statement) :
    ∀ piece ∈ space lines last, piece.Valid := by
  induction lines with
  | nil => exact last.valid
  | cons line lines ih =>
      intro piece member
      rcases List.mem_append.mp member with here | later
      · exact line.statement.valid piece here
      · rcases List.mem_cons.mp later with rfl | later
        · decide
        · exact ih piece later

theorem strip_noComment (lines : List CommentLine) (last : Statement) :
    (strip lines last).IsChain fun left right => ¬ (left = .plain '-' ∧ right = .plain '-') := by
  induction lines with
  | nil => exact last.noComment
  | cons line lines ih =>
      refine List.isChain_append.mpr ⟨line.statement.noComment, ih, ?_⟩
      rintro left isLast right _ ⟨rfl, _⟩
      exact line.noDash isLast

theorem space_noComment (lines : List CommentLine) (last : Statement) :
    (space lines last).IsChain fun left right => ¬ (left = .plain '-' ∧ right = .plain '-') := by
  induction lines with
  | nil => exact last.noComment
  | cons line lines ih =>
      refine List.isChain_append.mpr ⟨line.statement.noComment, ?_, ?_⟩
      · apply ih.cons
        rintro right _ ⟨impossible, _⟩
        cases impossible
      · rintro left isLast right _ ⟨rfl, _⟩
        exact line.noDash isLast

def Commented.stripped (statement : Commented) : Statement where
  pieces := strip statement.lines statement.last
  valid := strip_valid statement.lines statement.last
  noComment := strip_noComment statement.lines statement.last

def Commented.spaced (statement : Commented) : Statement where
  pieces := space statement.lines statement.last
  valid := space_valid statement.lines statement.last
  noComment := space_noComment statement.lines statement.last

/-- Between the piece before each comment and the next piece after it there is either white
space, or they do not belong to one token. -/
def keepsApart (joins : Char → Char → Bool) : List CommentLine → Statement → Bool
  | [], _ => true
  | line :: lines, last =>
      !Tokens.meets blankChunk (touching joins) (line.statement.pieces.map Piece.text)
          ((strip lines last).map Piece.text) &&
        keepsApart joins lines last

def Commented.KeepsApart (joins : Char → Char → Bool) (statement : Commented) : Prop :=
  keepsApart joins statement.lines statement.last = true

instance (joins : Char → Char → Bool) (statement : Commented) :
    Decidable (statement.KeepsApart joins) := inferInstanceAs (Decidable (_ = true))

variable {joins : Char → Char → Bool}

theorem newline_blank : blankChunk (Piece.plain '\n').text = true := rfl

theorem pieceTokens_space (before after : List Piece) :
    pieceTokens joins (before ++ .plain '\n' :: after) =
      pieceTokens joins before ++ pieceTokens joins after := by
  simp only [pieceTokens, List.map_append, List.map_cons]
  exact Tokens.tokens_append_blank newline_blank _ _

theorem length_strip_le (lines : List CommentLine) (last : Statement) :
    (pieceTokens joins (strip lines last)).length ≤
      (pieceTokens joins (space lines last)).length := by
  induction lines with
  | nil => exact Nat.le_refl _
  | cons line lines ih =>
      rw [space, pieceTokens_space, List.length_append]
      cases meeting : Tokens.meets blankChunk (touching joins)
          (line.statement.pieces.map Piece.text) ((strip lines last).map Piece.text) with
      | true =>
          have joined := Tokens.length_tokens_append meeting
          rw [← List.map_append] at joined
          simp only [strip, pieceTokens] at ih ⊢
          omega
      | false =>
          have apart := Tokens.tokens_append meeting
          rw [← List.map_append] at apart
          simp only [strip, pieceTokens] at ih ⊢
          rw [apart, List.length_append]
          omega

theorem strip_tokens_iff (lines : List CommentLine) (last : Statement) :
    pieceTokens joins (strip lines last) = pieceTokens joins (space lines last) ↔
      keepsApart joins lines last = true := by
  induction lines with
  | nil => exact iff_of_true rfl rfl
  | cons line lines ih =>
      rw [space, pieceTokens_space, keepsApart, Bool.and_eq_true, Bool.not_eq_true']
      cases meeting : Tokens.meets blankChunk (touching joins)
          (line.statement.pieces.map Piece.text) ((strip lines last).map Piece.text) with
      | true =>
          refine iff_of_false ?_ (by simp)
          intro same
          have joined := Tokens.length_tokens_append meeting
          have fewer := @length_strip_le joins lines last
          have count := congrArg List.length same
          rw [← List.map_append] at joined
          rw [List.length_append] at count
          simp only [strip, pieceTokens] at count fewer
          omega
      | false =>
          have apart := Tokens.tokens_append meeting
          rw [← List.map_append] at apart
          have split : pieceTokens joins (strip (line :: lines) last) =
              pieceTokens joins line.statement.pieces ++ pieceTokens joins (strip lines last) :=
            apart
          rw [split, List.append_cancel_left_eq, ih]
          simp

theorem Commented.tokens_stripped (statement : Commented) :
    tokensOf joins (trim statement.stripped.text) = pieceTokens joins statement.stripped.pieces :=
  tokensOf_trim _ statement.stripped.valid statement.stripped.noComment

theorem Commented.tokens_spaced (statement : Commented) :
    tokensOf joins (trim statement.spaced.text) = pieceTokens joins statement.spaced.pieces :=
  tokensOf_trim _ statement.spaced.valid statement.spaced.noComment

theorem piecesText_append (before after : List Piece) :
    piecesText (before ++ after) = piecesText before ++ piecesText after := by
  simp [piecesText]

theorem space_visible (lines : List CommentLine) (last : Statement) :
    (piecesText (space lines last)).filter visible =
      (piecesText (strip lines last)).filter visible := by
  induction lines with
  | nil => rfl
  | cons line lines ih =>
      have hidden : (Piece.plain '\n').text.filter visible = [] := rfl
      rw [space, strip, piecesText_append, piecesText_append, piecesText_cons, List.filter_append,
        List.filter_append, List.filter_append, hidden, ih]
      rfl

theorem splitLoop_commentText (text rest : List Char) (oneLine : '\n' ∉ text) (more : rest ≠ [])
    (state : Scan) (inMode : state.mode = .comment) :
    splitLoop (text ++ rest) 0 state = splitLoop rest 0 state := by
  induction text with
  | nil => rfl
  | cons c text ih =>
      have different : c ≠ '\n' := fun same => oneLine (by simp [same])
      obtain ⟨next, tail, split⟩ : ∃ next tail, text ++ rest = next :: tail :=
        List.exists_cons_of_ne_nil (by simp [more])
      have step : splitStep c (text ++ rest) state = (state, 0) := by
        rw [split]
        simp [splitStep, inMode, different]
      rw [List.cons_append, splitLoop_step, step]
      exact ih (fun member => oneLine (List.mem_cons_of_mem _ member))

theorem splitLoop_commentStart (rest : List Char) (state : Scan)
    (inMode : state.mode = .normal) :
    splitLoop ('-' :: '-' :: rest) 0 state =
      splitLoop ('-' :: rest) 0 { state with mode := .comment } := by
  rw [splitLoop_step, normal_mode_step inMode]
  rfl

theorem splitLoop_comment (comment rest : List Char) (oneLine : '\n' ∉ comment)
    (more : rest ≠ []) (state : Scan) (inMode : state.mode = .normal) :
    splitLoop ('-' :: '-' :: (comment ++ '\n' :: rest)) 0 state = splitLoop rest 0 state := by
  have dashed : '\n' ∉ '-' :: comment := by simpa using oneLine
  rw [splitLoop_commentStart _ state inMode]
  have skipped := splitLoop_commentText ('-' :: comment) ('\n' :: rest) dashed (by simp)
    { state with mode := .comment } rfl
  rw [List.cons_append] at skipped
  rw [skipped]
  obtain ⟨next, tail, rfl⟩ := List.exists_cons_of_ne_nil more
  have closed : splitStep '\n' (next :: tail) { state with mode := .comment } =
      ({ state with mode := .normal }, 0) := rfl
  rw [splitLoop_step, closed, ← inMode]

theorem splitLoop_lastComment (comment : List Char) (last : Char) (oneLine : '\n' ∉ comment)
    (state : Scan) (inMode : state.mode = .comment) :
    (splitLoop (comment ++ [last]) 0 state).queries = pushNonEmpty state.queries
      (trim (if last ≠ ';' then state.curQry ++ [last] else state.curQry)) := by
  rw [splitLoop_commentText comment [last] oneLine (by simp) state inMode, splitLoop_step]
  rfl

def isDash (piece : Piece) : Bool := piece = .plain '-'

theorem Statement.read_dash (statement : Statement)
    (noDash : statement.pieces.getLast? ≠ some (.plain '-')) (rest : List Char) (state : Scan)
    (inMode : state.mode = .normal) :
    splitLoop (statement.text ++ '-' :: rest) 0 state =
      splitLoop ('-' :: rest) 0 (state.append statement.text) := by
  have merged := splitLoop_pieces (mergeQuotes statement.pieces)
    (mergeQuotes_valid _ statement.valid)
    (mergeQuotes_separated _ statement.valid statement.noComment) '-' rest ?_ state inMode
  · rwa [mergeQuotes_text] at merged
  · intro piece isLast barrier
    have dash : piece = .plain '-' := by
      cases piece with
      | plain c =>
          by_cases same : c = '-'
          · rw [same]
          · simp [Piece.barrier, same] at barrier
      | literal contents => simp [Piece.barrier] at barrier
      | identifier contents => simp [Piece.barrier] at barrier
      | dollar tag body => simp [Piece.barrier] at barrier
    have sameLast := @mergeQuotes_last isDash (fun _ _ => rfl) (fun _ _ => rfl)
      statement.pieces
    rw [Option.mem_def.mp isLast, dash] at sameLast
    obtain ⟨found, isLast, isDash⟩ := (Option.any_eq_true _ _).mp sameLast.symm
    apply noDash
    rw [isLast]
    simpa [PqAsync.isDash] using isDash

theorem read_lines (lines : List CommentLine) (tail : List Char) (more : tail ≠ [])
    (state : Scan) (inMode : state.mode = .normal) :
    splitLoop (lines.flatMap CommentLine.text ++ tail) 0 state =
      splitLoop tail 0
        (state.append (piecesText (lines.flatMap fun line => line.statement.pieces))) := by
  induction lines generalizing state with
  | nil => simp
  | cons line lines ih =>
      have text : (line :: lines).flatMap CommentLine.text ++ tail = line.statement.text ++
          '-' :: ('-' :: (line.comment ++ '\n' :: (lines.flatMap CommentLine.text ++ tail))) := by
        simp [CommentLine.text]
      have further : lines.flatMap CommentLine.text ++ tail ≠ [] := by simp [more]
      rw [text, line.statement.read_dash line.noDash _ state inMode,
        splitLoop_comment _ _ line.oneLine further (state.append _) inMode,
        ih (state.append _) inMode, List.flatMap_cons, piecesText_append]
      simp [Statement.text]

theorem strip_eq (lines : List CommentLine) (last : Statement) :
    strip lines last = lines.flatMap (fun line => line.statement.pieces) ++ last.pieces := by
  induction lines with
  | nil => rfl
  | cons line lines ih => rw [strip, ih, List.flatMap_cons, List.append_assoc]

theorem Commented.stripped_text (statement : Commented) :
    statement.stripped.text =
      piecesText (statement.lines.flatMap fun line => line.statement.pieces) ++
        statement.last.text := by
  change piecesText (strip statement.lines statement.last) = _
  rw [strip_eq, piecesText_append]
  rfl

theorem Commented.read (statement : Commented) (rest : List Char) (state : Scan)
    (inMode : state.mode = .normal) :
    splitLoop (statement.text ++ ';' :: rest) 0 state =
      splitLoop (';' :: rest) 0 (state.append statement.stripped.text) := by
  rw [Commented.text, List.append_assoc, read_lines _ _ (by simp) state inMode,
    statement.last.read rest (state.append _) inMode, statement.stripped_text]
  simp

theorem Commented.read_semicolon (statement : Commented) (rest : List Char) :
    (splitLoop (statement.text ++ ';' :: rest) 0 ⟨[], .normal, []⟩).queries =
      [trim statement.stripped.text].filter (· ≠ []) ++
        (splitLoop rest 0 ⟨[], modeAfter (trim statement.stripped.text), []⟩).queries := by
  rw [statement.read rest _ rfl, splitLoop_semicolon rest _ rfl, splitLoop_queries,
    pushNonEmpty_eq]
  rfl

theorem trim_append_space (text : List Char) {c : Char} (blank : isSpace c = true) :
    trim (text ++ [c]) = trim text := by
  unfold trim
  rw [List.dropWhile_append]
  split
  next empty =>
    rw [List.isEmpty_iff.mp empty]
    simp [blank]
  next => simp [blank]

theorem Commented.read_last (statement : Commented) :
    (splitLoop statement.text 0 ⟨[], .normal, []⟩).queries =
      if statement.last.endsInDollar then []
      else [trim statement.stripped.text].filter (· ≠ []) := by
  rw [statement.stripped_text]
  obtain ⟨lines, last⟩ := statement
  by_cases nonempty : last.pieces = []
  · have noText : last.text = [] := by simp [Statement.text, nonempty]
    have notDollar : last.endsInDollar = false := by simp [Statement.endsInDollar, nonempty]
    rw [notDollar, Commented.text, noText]
    obtain rfl | ⟨before, line, rfl⟩ := lines.eq_nil_or_concat
    · rfl
    · have text : (before.concat line).flatMap CommentLine.text ++ [] =
          before.flatMap CommentLine.text ++ (line.statement.text ++
            '-' :: ('-' :: (line.comment ++ ['\n']))) := by
        simp [CommentLine.text]
      have dashed : '\n' ∉ '-' :: line.comment := by simpa using line.oneLine
      dsimp only
      rw [text, read_lines _ _ (by simp) _ rfl, line.statement.read_dash line.noDash _ _ rfl,
        splitLoop_commentStart _ _ rfl, ← List.cons_append,
        splitLoop_lastComment _ _ dashed _ rfl, pushNonEmpty_eq]
      simp only [Scan.append, List.nil_append, ne_eq, show ¬ '\n' = ';' by decide,
        not_false_eq_true, ↓reduceIte, trim_append_space _ (show isSpace '\n' = true from rfl)]
      simp [piecesText_append, Statement.text]
  · rw [Commented.text]
    obtain ⟨piece, rest, shape⟩ := List.exists_cons_of_ne_nil nonempty
    obtain ⟨tail, startsWith⟩ := piece.text_eq_first
    have more : last.text ≠ [] := by simp [Statement.text, shape, startsWith]
    rw [read_lines _ _ more _ rfl, last.read_last _ rfl (Or.inr nonempty), pushNonEmpty_eq]
    rfl

inductive CommentedBlock
  | closed (statement : Commented)
  | copy (statement : Commented) (data : List Char) (newline : Char)

inductive CommentedEnding
  | unclosed (statement : Commented)
  | comment (statement : Commented) (comment : List Char)
  | copy (statement : Commented) (data : List Char)

namespace CommentedBlock

def statement : CommentedBlock → Commented
  | .closed statement => statement
  | .copy statement _ _ => statement

def text : CommentedBlock → List Char
  | .closed statement => statement.text ++ [';']
  | .copy statement data newline =>
      statement.text ++ ';' :: (data ++ newline :: ['\\', '.'])

def spaced : CommentedBlock → Block
  | .closed statement => .closed statement.spaced
  | .copy statement data newline => .copy statement.spaced data newline

end CommentedBlock

namespace CommentedEnding

def terminated : CommentedEnding → List Commented
  | .copy statement _ => [statement]
  | _ => []

def text : CommentedEnding → List Char
  | .unclosed statement => statement.text
  | .comment statement rest => statement.text ++ '-' :: '-' :: rest
  | .copy statement data => statement.text ++ ';' :: data

/-- The comment at the end of the script is like one with a newline. -/
def Valid : CommentedEnding → Prop
  | .unclosed _ => True
  | .comment statement rest =>
      statement.last.pieces.getLast? ≠ some (.plain '-') ∧ '\n' ∉ rest
  | .copy statement data =>
      isCopyStdin (trim statement.spaced.text) = true ∧ CopyData data

def spacedText : CommentedEnding → List Char
  | .unclosed statement => statement.spaced.text
  | .comment statement _ => statement.spaced.text ++ ['\n']
  | .copy statement data => statement.spaced.text ++ ';' :: data

/-- The last character of the comment, which may be its second `-`. -/
def leaked (comment : List Char) : Char := comment.getLastD '-'

/-- A last statement that ends in a dollar block is lost, with comments or without; the last
character of a comment that ends the script is harmless if it is white space or a semicolon. -/
def Harmless (joins : Char → Char → Bool) : CommentedEnding → Prop
  | .unclosed statement => statement.last.endsInDollar = false → statement.KeepsApart joins
  | .comment statement rest =>
      statement.KeepsApart joins ∧ (isSpace (leaked rest) = true ∨ leaked rest = ';')
  | .copy statement _ => statement.KeepsApart joins

end CommentedEnding

structure CommentedScript where
  blocks : List CommentedBlock
  ending : CommentedEnding
  blocksValid : ∀ block ∈ blocks, block.spaced.Valid
  endingValid : ending.Valid

def CommentedScript.text (sql : CommentedScript) : List Char :=
  sql.blocks.flatMap CommentedBlock.text ++ sql.ending.text

def CommentedScript.spacedText (sql : CommentedScript) : List Char :=
  sql.blocks.flatMap (fun block => block.spaced.text) ++ sql.ending.spacedText

/-- The statement starts and ends a copy, or does not, without its comments as with them. -/
def Commented.Recognized (statement : Commented) : Prop :=
  isCopyStdin (trim statement.stripped.text) = isCopyStdin (trim statement.spaced.text)

def queryTokens (joins : Char → Char → Bool) (sql : List Char) (mode : Mode) :
    List (List (List Char)) :=
  (splitLoop sql 0 ⟨[], mode, []⟩).queries.map (tokensOf joins)

theorem map_tokensOf_entry {query : List Char} :
    ([query].filter (· ≠ [])).map (tokensOf joins) =
      if query = [] then [] else [tokensOf joins query] := by
  by_cases empty : query = [] <;> simp [empty]

theorem Commented.stripped_empty_iff (statement : Commented) :
    trim statement.stripped.text = [] ↔ trim statement.spaced.text = [] := by
  rw [trim_eq_nil_iff, trim_eq_nil_iff]
  change (piecesText (strip _ _)).filter visible = [] ↔
    (piecesText (space _ _)).filter visible = []
  rw [space_visible]

theorem Commented.entry_iff (statement : Commented) (more spacedMore : List (List (List Char))) :
    ([trim statement.stripped.text].filter (· ≠ [])).map (tokensOf joins) ++ more =
        ([trim statement.spaced.text].filter (· ≠ [])).map (tokensOf joins) ++ spacedMore ↔
      statement.KeepsApart joins ∧ more = spacedMore := by
  have same := @strip_tokens_iff joins statement.lines statement.last
  have tokens := @Commented.tokens_stripped joins statement
  have spacedTokens := @Commented.tokens_spaced joins statement
  rw [map_tokensOf_entry, map_tokensOf_entry, tokens, spacedTokens]
  by_cases empty : trim statement.stripped.text = []
  · have spacedEmpty := statement.stripped_empty_iff.mp empty
    rw [empty] at tokens
    rw [spacedEmpty] at spacedTokens
    have apart : statement.KeepsApart joins := same.mp (tokens.symm.trans spacedTokens)
    rw [if_pos empty, if_pos spacedEmpty]
    simp [apart]
  · have spacedFull : ¬ trim statement.spaced.text = [] :=
      fun spacedEmpty => empty (statement.stripped_empty_iff.mpr spacedEmpty)
    rw [if_neg empty, if_neg spacedFull, List.singleton_append, List.singleton_append,
      List.cons.injEq]
    exact and_congr same Iff.rfl

theorem Commented.semicolon_iff (statement : Commented) (rest spacedRest : List Char) :
    queryTokens joins (statement.text ++ ';' :: rest) .normal =
        queryTokens joins (statement.spaced.text ++ ';' :: spacedRest) .normal ↔
      statement.KeepsApart joins ∧
        queryTokens joins rest (modeAfter (trim statement.stripped.text)) =
          queryTokens joins spacedRest (modeAfter (trim statement.spaced.text)) := by
  have spacedRead := statement.spaced.read_semicolon spacedRest []
  rw [pushNonEmpty_eq, List.nil_append, splitLoop_queries spacedRest] at spacedRead
  simp only [queryTokens]
  rw [statement.read_semicolon, spacedRead, List.map_append, List.map_append]
  exact statement.entry_iff _ _

theorem queryTokens_copy (data : List Char) (newline : Char) (rest : List Char)
    (plain : CopyData data) (isNewline : newline = '\n' ∨ newline = '\r') :
    queryTokens joins (data ++ newline :: '\\' :: '.' :: rest) .copy =
      tokensOf joins (trim data) :: queryTokens joins rest .normal := by
  have outside : newline ≠ '\\' ∧ newline ≠ '.' := by
    rcases isNewline with rfl | rfl <;> decide
  simp only [queryTokens]
  rw [splitLoop_copyData data _ (by simp) (plain.append newline _ outside) _ rfl,
    splitLoop_terminator newline isNewline rest _ rfl, splitLoop_queries]
  rfl

theorem CommentedBlock.read_iff (block : CommentedBlock) (valid : block.spaced.Valid)
    (recognized : block.statement.KeepsApart joins → block.statement.Recognized)
    (rest spacedRest : List Char) :
    queryTokens joins (block.text ++ rest) .normal =
        queryTokens joins (block.spaced.text ++ spacedRest) .normal ↔
      block.statement.KeepsApart joins ∧
        queryTokens joins rest .normal = queryTokens joins spacedRest .normal := by
  cases block with
  | closed statement =>
      have noCopy : isCopyStdin (trim statement.spaced.text) = false := valid
      simp only [CommentedBlock.text, CommentedBlock.spaced, Block.text, List.append_assoc,
        List.singleton_append, CommentedBlock.statement]
      rw [statement.semicolon_iff]
      apply and_congr_right
      intro apart
      have same : isCopyStdin (trim statement.stripped.text) =
          isCopyStdin (trim statement.spaced.text) := recognized apart
      rw [modeAfter, modeAfter, same, noCopy]
      rfl
  | copy statement data newline =>
      obtain ⟨copying, plain, isNewline⟩ := valid
      simp only [CommentedBlock.text, CommentedBlock.spaced, Block.text, List.append_assoc,
        List.cons_append, List.nil_append, CommentedBlock.statement]
      rw [statement.semicolon_iff]
      apply and_congr_right
      intro apart
      have same : isCopyStdin (trim statement.stripped.text) =
          isCopyStdin (trim statement.spaced.text) := recognized apart
      rw [modeAfter, modeAfter, same, copying]
      simp only [↓reduceIte]
      rw [queryTokens_copy data newline rest plain isNewline,
        queryTokens_copy data newline spacedRest plain isNewline, List.cons.injEq]
      simp

theorem read_blocks_iff (blocks : List CommentedBlock)
    (valid : ∀ block ∈ blocks, block.spaced.Valid)
    (recognized : ∀ block ∈ blocks,
      block.statement.KeepsApart joins → block.statement.Recognized)
    (rest spacedRest : List Char) :
    queryTokens joins (blocks.flatMap CommentedBlock.text ++ rest) .normal =
        queryTokens joins (blocks.flatMap (fun block => block.spaced.text) ++ spacedRest)
          .normal ↔
      (∀ block ∈ blocks, block.statement.KeepsApart joins) ∧
        queryTokens joins rest .normal = queryTokens joins spacedRest .normal := by
  induction blocks with
  | nil => simp
  | cons block blocks ih =>
      have validParts := List.forall_mem_cons.mp valid
      have recognizedParts := List.forall_mem_cons.mp recognized
      rw [List.flatMap_cons, List.flatMap_cons, List.append_assoc, List.append_assoc,
        block.read_iff validParts.1 recognizedParts.1, ih validParts.2 recognizedParts.2,
        List.forall_mem_cons, and_assoc]

theorem space_endsInDollar (lines : List CommentLine) (last : Statement) :
    (space lines last).getLast?.any Piece.isDollar = last.endsInDollar := by
  induction lines with
  | nil => rfl
  | cons line lines ih =>
      rw [← ih, space, List.getLast?_append_of_ne_nil _ (by simp)]
      cases space lines last with
      | nil => rfl
      | cons piece pieces => rw [List.getLast?_cons_cons]

def Commented.spacedEnd (statement : Commented) : Statement where
  pieces := statement.spaced.pieces ++ [.plain '\n']
  valid := by
    intro piece member
    rcases List.mem_append.mp member with inside | isLast
    · exact statement.spaced.valid piece inside
    · obtain rfl := List.mem_singleton.mp isLast
      decide
  noComment := by
    refine List.isChain_append.mpr ⟨statement.spaced.noComment, List.IsChain.singleton _, ?_⟩
    rintro left _ right isLast ⟨_, rfl⟩
    cases isLast

theorem Commented.read_spacedEnd (statement : Commented) :
    (splitLoop (statement.spaced.text ++ ['\n']) 0 ⟨[], .normal, []⟩).queries =
      [trim statement.spaced.text].filter (· ≠ []) := by
  have text : statement.spaced.text ++ ['\n'] = statement.spacedEnd.text := by
    rw [Statement.text, Statement.text, Commented.spacedEnd, piecesText_append]
    rfl
  have notDollar : statement.spacedEnd.endsInDollar = false := by
    simp [Statement.endsInDollar, Commented.spacedEnd, Piece.isDollar]
  rw [text, statement.spacedEnd.read_last _ rfl (Or.inl rfl), notDollar, pushNonEmpty_eq, ← text]
  simp [trim_append_space _ (show isSpace '\n' = true from rfl)]

theorem Commented.read_spaced (statement : Commented) :
    (splitLoop statement.spaced.text 0 ⟨[], .normal, []⟩).queries =
      if statement.last.endsInDollar then []
      else [trim statement.spaced.text].filter (· ≠ []) := by
  have sameEnd : statement.spaced.endsInDollar = statement.last.endsInDollar :=
    space_endsInDollar statement.lines statement.last
  rw [statement.spaced.read_last _ rfl (Or.inl rfl), sameEnd, pushNonEmpty_eq]
  rfl

theorem Commented.read_comment (statement : Commented) (comment : List Char)
    (noDash : statement.last.pieces.getLast? ≠ some (.plain '-')) (oneLine : '\n' ∉ comment) :
    (splitLoop (statement.text ++ '-' :: '-' :: comment) 0 ⟨[], .normal, []⟩).queries =
      [trim (if CommentedEnding.leaked comment ≠ ';' then
          statement.stripped.text ++ [CommentedEnding.leaked comment]
        else statement.stripped.text)].filter (· ≠ []) := by
  obtain ⟨before, text, plain⟩ : ∃ before,
      '-' :: comment = before ++ [CommentedEnding.leaked comment] ∧ '\n' ∉ before := by
    obtain rfl | ⟨before, last, rfl⟩ := comment.eq_nil_or_concat
    · exact ⟨[], rfl, by simp⟩
    · refine ⟨'-' :: before, by simp [CommentedEnding.leaked], ?_⟩
      intro member
      apply oneLine
      simpa using Or.inl (by simpa using member)
  rw [Commented.text, List.append_assoc, read_lines _ _ (by simp) _ rfl,
    statement.last.read_dash noDash _ _ rfl, splitLoop_commentStart _ _ rfl, text,
    splitLoop_lastComment before _ plain _ rfl, pushNonEmpty_eq, statement.stripped_text]
  rfl

theorem entry_visible (text : List Char) :
    ((([trim text].filter (· ≠ [])).map (tokensOf joins)).flatten.flatten).filter visible =
      text.filter visible := by
  rw [map_tokensOf_entry]
  split
  next empty => rw [(trim_eq_nil_iff text).mp empty]; rfl
  next => rw [List.flatten_singleton, tokensOf_visible, trim_visible]

theorem Commented.comment_iff (statement : Commented) (last : Char) :
    ([trim (if last ≠ ';' then statement.stripped.text ++ [last]
        else statement.stripped.text)].filter (· ≠ [])).map (tokensOf joins) =
        ([trim statement.spaced.text].filter (· ≠ [])).map (tokensOf joins) ↔
      statement.KeepsApart joins ∧ (isSpace last = true ∨ last = ';') := by
  have entry := @Commented.entry_iff joins statement [] []
  rw [List.append_nil, List.append_nil] at entry
  by_cases semicolon : last = ';'
  · rw [if_neg (not_not.mpr semicolon), entry]
    simp [semicolon]
  · rw [if_pos semicolon]
    by_cases blank : isSpace last = true
    · rw [trim_append_space _ blank, entry]
      simp [blank]
    · refine iff_of_false ?_ (by simp [blank, semicolon])
      intro same
      have characters := congrArg (fun entries => entries.flatten.flatten.filter visible) same
      have shown : [last].filter visible = [last] := by simp [visible, blank]
      rw [entry_visible, entry_visible, List.filter_append, shown] at characters
      change (piecesText (strip _ _)).filter visible ++ [last] =
        (piecesText (space _ _)).filter visible at characters
      rw [space_visible] at characters
      have count := congrArg List.length characters
      simp at count

theorem CommentedEnding.read_iff (ending : CommentedEnding) (valid : ending.Valid)
    (recognized : ∀ statement ∈ ending.terminated,
      statement.KeepsApart joins → statement.Recognized) :
    queryTokens joins ending.text .normal = queryTokens joins ending.spacedText .normal ↔
      ending.Harmless joins := by
  cases ending with
  | unclosed statement =>
      have entry := @Commented.entry_iff joins statement [] []
      rw [List.append_nil, List.append_nil] at entry
      simp only [queryTokens, CommentedEnding.text, spacedText, Harmless]
      rw [statement.read_last, statement.read_spaced]
      cases statement.last.endsInDollar with
      | true => simp
      | false =>
          simp only [Bool.false_eq_true, ↓reduceIte, forall_const]
          rw [entry]
          simp
  | comment statement comment =>
      simp only [queryTokens, CommentedEnding.text, spacedText, Harmless]
      rw [statement.read_comment comment valid.1 valid.2, statement.read_spacedEnd]
      exact statement.comment_iff _
  | copy statement data =>
      simp only [CommentedEnding.text, spacedText, Harmless]
      rw [statement.semicolon_iff]
      refine and_iff_left_of_imp ?_
      intro apart
      have same : isCopyStdin (trim statement.stripped.text) =
          isCopyStdin (trim statement.spaced.text) :=
        recognized statement (List.mem_singleton_self _) apart
      rw [modeAfter, modeAfter, same]

def CommentedScript.terminated (sql : CommentedScript) : List Commented :=
  sql.blocks.map CommentedBlock.statement ++ sql.ending.terminated

def CommentedScript.Harmless (joins : Char → Char → Bool) (sql : CommentedScript) : Prop :=
  (∀ block ∈ sql.blocks, block.statement.KeepsApart joins) ∧ sql.ending.Harmless joins

/-- Comments act as white space when no token runs through a comment, the last character of
a comment at the end is harmless, and the copies are recognized without the comments; and
only then, unless some statement keeps its tokens apart and is not recognized. -/
theorem comments_as_space_iff (joins : Char → Char → Bool) (sql : CommentedScript) :
    let same := (splitQueries sql.text).map (tokensOf joins) =
      (splitQueries sql.spacedText).map (tokensOf joins)
    (sql.Harmless joins ∧ (∀ statement ∈ sql.terminated, statement.Recognized) → same) ∧
    ((∀ statement ∈ sql.terminated, statement.KeepsApart joins → statement.Recognized) →
      (same ↔ sql.Harmless joins)) := by
  have exact_ : (∀ statement ∈ sql.terminated,
        statement.KeepsApart joins → statement.Recognized) →
      ((splitQueries sql.text).map (tokensOf joins) =
          (splitQueries sql.spacedText).map (tokensOf joins) ↔ sql.Harmless joins) := by
    intro recognized
    have inBlocks : ∀ block ∈ sql.blocks,
        block.statement.KeepsApart joins → block.statement.Recognized := by
      intro block member
      exact recognized _ (List.mem_append_left _ (List.mem_map_of_mem member))
    have inEnding : ∀ statement ∈ sql.ending.terminated,
        statement.KeepsApart joins → statement.Recognized := by
      intro statement member
      exact recognized _ (List.mem_append_right _ member)
    have blocks := read_blocks_iff sql.blocks sql.blocksValid inBlocks sql.ending.text
      sql.ending.spacedText
    rw [sql.ending.read_iff sql.endingValid inEnding] at blocks
    exact blocks
  refine ⟨?_, exact_⟩
  rintro ⟨harmless, recognized⟩
  exact (exact_ fun statement member _ => recognized statement member).mpr harmless

def wordJoins (left right : Char) : Bool := left.isAlphanum && right.isAlphanum

def gluedScript : CommentedScript where
  blocks := [.closed
    { lines := [{ statement := { pieces := "select".toList.map Piece.plain
                                 valid := by decide
                                 noComment := by decide }
                  comment := ['c']
                  noDash := by decide
                  oneLine := by decide }]
      last := { pieces := [.plain '1'], valid := by decide, noComment := by decide } }]
  ending := .unclosed
    { lines := [], last := { pieces := [], valid := by decide, noComment := by decide } }
  blocksValid := by
    intro block member
    obtain rfl := List.mem_singleton.mp member
    change isCopyStdin _ = false
    decide
  endingValid := trivial

/-- The last character of the script is read although it is in a comment. -/
def leakingScript : CommentedScript where
  blocks := [.closed
    { lines := []
      last := { pieces := "select 1".toList.map Piece.plain
                valid := by decide
                noComment := by decide } }]
  ending := .comment
    { lines := []
      last := { pieces := [.plain ' '], valid := by decide, noComment := by decide } }
    " done".toList
  blocksValid := by
    intro block member
    obtain rfl := List.mem_singleton.mp member
    change isCopyStdin _ = false
    decide
  endingValid := ⟨by decide, by decide⟩

theorem comments_glue_and_leak :
    gluedScript.text = "select--c\n1;".toList ∧
    splitQueries gluedScript.text = ["select1".toList] ∧
    (splitQueries gluedScript.text).map (tokensOf wordJoins) ≠
      (splitQueries gluedScript.spacedText).map (tokensOf wordJoins) ∧
    leakingScript.text = "select 1; -- done".toList ∧
    splitQueries leakingScript.text = ["select 1".toList, "e".toList] ∧
    (splitQueries leakingScript.text).map (tokensOf wordJoins) ≠
      (splitQueries leakingScript.spacedText).map (tokensOf wordJoins) := by
  decide

end PqAsync
