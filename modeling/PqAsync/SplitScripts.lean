import PqAsync.SplitPieces
import Mathlib.Data.List.Chain

/-!
Well-formed scripts and what `split_queries` returns for them: the statements of a script
in order, and the one kind of script end at which the last statement is lost.
-/

namespace PqAsync

/-- A statement carries the proof that its text reads as its pieces: the pieces are valid
and no two adjacent plain `-` open a comment. -/
structure Statement where
  pieces : List Piece
  valid : ∀ piece ∈ pieces, piece.Valid
  noComment : pieces.IsChain fun left right => ¬ (left = .plain '-' ∧ right = .plain '-')

def Statement.text (statement : Statement) : List Char := piecesText statement.pieces

def Statement.endsInDollar (statement : Statement) : Bool :=
  statement.pieces.getLast?.any Piece.isDollar

def script (statements : List Statement) : List Char :=
  statements.flatMap fun statement => statement.text ++ [';']

/-- Two literals that touch are one literal with a doubled quote in it, and likewise for
identifiers. -/
def glue : Piece → List Piece → List Piece
  | .literal left, .literal right :: rest => .literal (left ++ '\'' :: right) :: rest
  | .identifier left, .identifier right :: rest => .identifier (left ++ '"' :: right) :: rest
  | piece, rest => piece :: rest

def mergeQuotes (pieces : List Piece) : List Piece := pieces.foldr glue []

theorem glue_cases (piece : Piece) (rest : List Piece) :
    (glue piece rest = piece :: rest ∧
      ∀ right tail, rest = right :: tail → piece.barrier = some right.first →
        right.Valid → piece = .plain '-' ∧ right = .plain '-') ∨
    (∃ left right tail, piece = .literal left ∧ rest = .literal right :: tail ∧
      glue piece rest = .literal (left ++ '\'' :: right) :: tail) ∨
    ∃ left right tail, piece = .identifier left ∧ rest = .identifier right :: tail ∧
      glue piece rest = .identifier (left ++ '"' :: right) :: tail := by
  cases rest with
  | nil => exact Or.inl ⟨by cases piece <;> rfl, fun _ _ impossible => by simp at impossible⟩
  | cons right tail =>
      cases piece with
      | plain c =>
          refine Or.inl ⟨rfl, ?_⟩
          rintro _ _ ⟨⟩ blocked valid
          by_cases dash : c = '-'
          · subst c
            have same : right.first = '-' := by simpa [Piece.barrier] using blocked.symm
            cases right <;> simp_all [Piece.first]
          · simp [Piece.barrier, dash] at blocked
      | literal left =>
          cases right with
          | literal right => exact Or.inr (Or.inl ⟨left, right, tail, rfl, rfl, rfl⟩)
          | plain c =>
              refine Or.inl ⟨rfl, ?_⟩
              rintro _ _ ⟨⟩ blocked valid
              exact absurd (by simpa [Piece.barrier, Piece.first] using blocked.symm) valid.1
          | identifier right =>
              refine Or.inl ⟨rfl, ?_⟩
              rintro _ _ ⟨⟩ blocked
              simp [Piece.barrier, Piece.first] at blocked
          | dollar tag body =>
              refine Or.inl ⟨rfl, ?_⟩
              rintro _ _ ⟨⟩ blocked
              simp [Piece.barrier, Piece.first] at blocked
      | identifier left =>
          cases right with
          | identifier right => exact Or.inr (Or.inr ⟨left, right, tail, rfl, rfl, rfl⟩)
          | plain c =>
              refine Or.inl ⟨rfl, ?_⟩
              rintro _ _ ⟨⟩ blocked valid
              exact absurd (by simpa [Piece.barrier, Piece.first] using blocked.symm) valid.2.1
          | literal right =>
              refine Or.inl ⟨rfl, ?_⟩
              rintro _ _ ⟨⟩ blocked
              simp [Piece.barrier, Piece.first] at blocked
          | dollar tag body =>
              refine Or.inl ⟨rfl, ?_⟩
              rintro _ _ ⟨⟩ blocked
              simp [Piece.barrier, Piece.first] at blocked
      | dollar tag body =>
          refine Or.inl ⟨rfl, ?_⟩
          rintro _ _ ⟨⟩ blocked
          simp [Piece.barrier] at blocked

theorem glue_text (piece : Piece) (rest : List Piece) :
    piecesText (glue piece rest) = piece.text ++ piecesText rest := by
  obtain ⟨kept, _⟩ | ⟨left, right, tail, rfl, rfl, joined⟩ | ⟨left, right, tail, rfl, rfl, joined⟩ :=
    glue_cases piece rest
  · rw [kept, piecesText_cons]
  · simp [joined, Piece.text, doubled_append, doubled_cons]
  · simp [joined, Piece.text, doubled_append, doubled_cons]

theorem glue_valid (piece : Piece) (rest : List Piece) (valid : piece.Valid)
    (restValid : ∀ other ∈ rest, other.Valid) : ∀ other ∈ glue piece rest, other.Valid := by
  obtain ⟨kept, _⟩ | ⟨left, right, tail, rfl, rfl, joined⟩ | ⟨left, right, tail, rfl, rfl, joined⟩ :=
    glue_cases piece rest
  · rw [kept]
    exact List.forall_mem_cons.mpr ⟨valid, restValid⟩
  · rw [joined]
    exact List.forall_mem_cons.mpr ⟨trivial, fun other member =>
      restValid other (List.mem_cons_of_mem _ member)⟩
  · rw [joined]
    exact List.forall_mem_cons.mpr ⟨trivial, fun other member =>
      restValid other (List.mem_cons_of_mem _ member)⟩

theorem glue_separated (piece : Piece) (rest : List Piece) (separated : Separated rest)
    (restValid : ∀ other ∈ rest, other.Valid)
    (noComment : ∀ right ∈ rest.head?, ¬ (piece = .plain '-' ∧ right = .plain '-')) :
    Separated (glue piece rest) := by
  obtain ⟨kept, blocked⟩ | ⟨left, right, tail, rfl, rfl, joined⟩ |
    ⟨left, right, tail, rfl, rfl, joined⟩ := glue_cases piece rest
  · rw [kept]
    cases rest with
    | nil => exact List.IsChain.singleton _
    | cons right tail =>
        refine List.isChain_cons_cons.mpr ⟨fun touching => ?_, separated⟩
        exact noComment right rfl
          (blocked right tail rfl touching (restValid right List.mem_cons_self))
  · rw [joined]
    cases tail with
    | nil => exact List.IsChain.singleton _
    | cons next tail =>
        have parts := List.isChain_cons_cons.mp separated
        exact List.isChain_cons_cons.mpr ⟨parts.1, parts.2⟩
  · rw [joined]
    cases tail with
    | nil => exact List.IsChain.singleton _
    | cons next tail =>
        have parts := List.isChain_cons_cons.mp separated
        exact List.isChain_cons_cons.mpr ⟨parts.1, parts.2⟩

theorem glue_head_plain (piece : Piece) (rest : List Piece) (c : Char)
    (head : (glue piece rest).head? = some (.plain c)) : piece = .plain c := by
  obtain ⟨kept, _⟩ | ⟨left, right, tail, rfl, rfl, joined⟩ | ⟨left, right, tail, rfl, rfl, joined⟩ :=
    glue_cases piece rest
  · simpa [kept] using head
  · simp [joined] at head
  · simp [joined] at head

theorem glue_last {test : Piece → Bool}
    (literals : ∀ left right, test (.literal left) = test (.literal right))
    (identifiers : ∀ left right, test (.identifier left) = test (.identifier right))
    (piece : Piece) (rest : List Piece) :
    (glue piece rest).getLast?.any test = (piece :: rest).getLast?.any test := by
  obtain ⟨kept, _⟩ | ⟨left, right, tail, rfl, rfl, joined⟩ | ⟨left, right, tail, rfl, rfl, joined⟩ :=
    glue_cases piece rest
  · rw [kept]
  · rw [joined]
    cases tail with
    | nil => exact literals _ _
    | cons next tail => simp [List.getLast?_cons_cons]
  · rw [joined]
    cases tail with
    | nil => exact identifiers _ _
    | cons next tail => simp [List.getLast?_cons_cons]

theorem mergeQuotes_text (pieces : List Piece) :
    piecesText (mergeQuotes pieces) = piecesText pieces := by
  induction pieces with
  | nil => rfl
  | cons piece pieces ih =>
      change piecesText (glue piece (mergeQuotes pieces)) = _
      rw [glue_text, ih, piecesText_cons]

theorem mergeQuotes_valid (pieces : List Piece) (valid : ∀ piece ∈ pieces, piece.Valid) :
    ∀ piece ∈ mergeQuotes pieces, piece.Valid := by
  induction pieces with
  | nil => simp [mergeQuotes]
  | cons piece pieces ih =>
      have parts := List.forall_mem_cons.mp valid
      exact glue_valid piece (mergeQuotes pieces) parts.1 (ih parts.2)

theorem mergeQuotes_separated (pieces : List Piece) (valid : ∀ piece ∈ pieces, piece.Valid)
    (noComment : pieces.IsChain fun left right => ¬ (left = .plain '-' ∧ right = .plain '-')) :
    Separated (mergeQuotes pieces) := by
  induction pieces with
  | nil => exact List.IsChain.nil
  | cons piece pieces ih =>
      have parts := List.forall_mem_cons.mp valid
      apply glue_separated piece (mergeQuotes pieces) (ih parts.2 noComment.tail)
      · exact mergeQuotes_valid pieces parts.2
      · rintro right head ⟨rfl, rfl⟩
        cases pieces with
        | nil => simp [mergeQuotes] at head
        | cons next pieces =>
            have same := glue_head_plain next (mergeQuotes pieces) '-' head
            exact (List.isChain_cons_cons.mp noComment).1 ⟨rfl, same⟩

theorem mergeQuotes_last {test : Piece → Bool}
    (literals : ∀ left right, test (.literal left) = test (.literal right))
    (identifiers : ∀ left right, test (.identifier left) = test (.identifier right))
    (pieces : List Piece) :
    (mergeQuotes pieces).getLast?.any test = pieces.getLast?.any test := by
  induction pieces with
  | nil => rfl
  | cons piece pieces ih =>
      change (glue piece (mergeQuotes pieces)).getLast?.any test = _
      rw [glue_last literals identifiers]
      cases pieces with
      | nil => rfl
      | cons next pieces =>
          obtain ⟨first, tail, shape⟩ : ∃ first tail, mergeQuotes (next :: pieces) = first :: tail := by
            change ∃ first tail, glue next (mergeQuotes pieces) = first :: tail
            obtain ⟨kept, _⟩ | ⟨_, _, _, _, _, joined⟩ | ⟨_, _, _, _, _, joined⟩ :=
              glue_cases next (mergeQuotes pieces)
            · exact ⟨_, _, kept⟩
            · exact ⟨_, _, joined⟩
            · exact ⟨_, _, joined⟩
          rw [shape] at ih ⊢
          simpa [List.getLast?_cons_cons] using ih

theorem mergeQuotes_endsInDollar (pieces : List Piece) :
    (mergeQuotes pieces).getLast?.any Piece.isDollar = pieces.getLast?.any Piece.isDollar :=
  mergeQuotes_last (fun _ _ => rfl) (fun _ _ => rfl) pieces

theorem splitLoop_pieces (pieces : List Piece) (valid : ∀ piece ∈ pieces, piece.Valid)
    (separated : Separated pieces) (next : Char) (rest : List Char)
    (follows : ∀ piece ∈ pieces.getLast?, piece.barrier ≠ some next)
    (state : Scan) (inMode : state.mode = .normal) :
    splitLoop (piecesText pieces ++ next :: rest) 0 state =
      splitLoop (next :: rest) 0 (state.append (piecesText pieces)) := by
  induction pieces generalizing state with
  | nil => simp
  | cons piece pieces ih =>
      have parts := List.forall_mem_cons.mp valid
      cases pieces with
      | nil => simpa using splitLoop_piece piece parts.1 next rest (follows piece rfl) state inMode
      | cons following pieces =>
          have apart := List.isChain_cons_cons.mp separated
          obtain ⟨text, startsWith⟩ := following.text_eq_first
          have read := splitLoop_piece piece parts.1 following.first
            (text ++ (piecesText pieces ++ next :: rest)) apart.1 state inMode
          have tailRead := ih parts.2 apart.2
            (fun last member => follows last (by simpa [List.getLast?_cons_cons] using member))
            (state.append piece.text) inMode
          rw [piecesText_cons following, startsWith] at tailRead
          rw [piecesText_cons piece, piecesText_cons following, startsWith]
          simp only [List.append_assoc, List.cons_append] at read tailRead ⊢
          rw [read, tailRead]
          simp

theorem barrier_ne_semicolon (piece : Piece) : piece.barrier ≠ some ';' := by
  cases piece with
  | plain c => by_cases dash : c = '-' <;> simp [Piece.barrier, dash]
  | literal _ => simp [Piece.barrier]
  | identifier _ => simp [Piece.barrier]
  | dollar _ _ => simp [Piece.barrier]

theorem Statement.read (statement : Statement) (rest : List Char) (state : Scan)
    (inMode : state.mode = .normal) :
    splitLoop (statement.text ++ ';' :: rest) 0 state =
      splitLoop (';' :: rest) 0 (state.append statement.text) := by
  have merged := splitLoop_pieces (mergeQuotes statement.pieces)
    (mergeQuotes_valid _ statement.valid)
    (mergeQuotes_separated _ statement.valid statement.noComment) ';' rest
    (fun piece _ => barrier_ne_semicolon piece) state inMode
  rwa [mergeQuotes_text] at merged

theorem Statement.read_last (statement : Statement) (state : Scan)
    (inMode : state.mode = .normal) (start : state.curQry = [] ∨ statement.pieces ≠ []) :
    (splitLoop statement.text 0 state).queries =
      if statement.endsInDollar then state.queries
      else pushNonEmpty state.queries (trim (state.curQry ++ statement.text)) := by
  have valid := mergeQuotes_valid _ statement.valid
  have separated := mergeQuotes_separated _ statement.valid statement.noComment
  have sameText := mergeQuotes_text statement.pieces
  rw [Statement.text, Statement.endsInDollar, ← sameText, ← mergeQuotes_endsInDollar]
  generalize mergeQuotes statement.pieces = pieces at valid separated sameText ⊢
  obtain rfl | ⟨before, last, rfl⟩ := pieces.eq_nil_or_concat
  · have fresh : state.curQry = [] := by
      rcases start with fresh | nonempty
      · exact fresh
      · obtain ⟨piece, rest, shape⟩ := List.exists_cons_of_ne_nil nonempty
        obtain ⟨text, startsWith⟩ := piece.text_eq_first
        rw [shape, piecesText_cons, startsWith] at sameText
        simp at sameText
    simp [fresh, splitLoop, trim, pushNonEmpty]
  · simp only [List.concat_eq_append] at valid separated ⊢
    have text : piecesText (before ++ [last]) = piecesText before ++ last.text := by
      simp [piecesText]
    obtain ⟨tail, startsWith⟩ := last.text_eq_first
    have apart := List.isChain_append.mp separated
    have read := splitLoop_pieces before
      (fun piece member => valid piece (List.mem_append_left _ member)) apart.1
      last.first tail (fun piece member => apart.2.2 piece member last rfl) state inMode
    have finish := splitLoop_lastPiece last (valid last (by simp))
      (state.append (piecesText before)) inMode
    rw [startsWith] at finish
    rw [text, startsWith, read, finish, ← startsWith]
    simp

def modeAfter (query : List Char) : Mode := if isCopyStdin query then .copy else .normal

theorem pushNonEmpty_eq (queries : List (List Char)) (text : List Char) :
    pushNonEmpty queries text = queries ++ [text].filter (· ≠ []) := by
  cases text <;> simp [pushNonEmpty]

theorem splitLoop_semicolon (rest : List Char) (state : Scan) (inMode : state.mode = .normal) :
    (splitLoop (';' :: rest) 0 state).queries =
      (splitLoop rest 0 ⟨[], modeAfter (trim state.curQry),
        pushNonEmpty state.queries (trim state.curQry)⟩).queries := by
  cases rest with
  | nil => rfl
  | cons next rest =>
      have mode : (if (trim state.curQry).length > 0 ∧ isCopyStdin (trim state.curQry)
          then Mode.copy else .normal) = modeAfter (trim state.curQry) := by
        cases trim state.curQry with
        | nil => rfl
        | cons c text => simp [modeAfter]
      rw [splitLoop_step, normal_mode_step inMode]
      simp only [stepNormal, show ¬ (';' = '-') by decide, show ¬ (';' = '$') by decide,
        show ¬ (';' = '\'') by decide, show ¬ (';' = '"') by decide, false_and, if_false,
        if_true, mode]

theorem Statement.read_semicolon (statement : Statement) (rest : List Char)
    (queries : List (List Char)) :
    (splitLoop (statement.text ++ ';' :: rest) 0 ⟨[], .normal, queries⟩).queries =
      (splitLoop rest 0 ⟨[], modeAfter (trim statement.text),
        pushNonEmpty queries (trim statement.text)⟩).queries := by
  rw [statement.read rest _ rfl, splitLoop_semicolon rest _ rfl]
  rfl

def Scan.after (queries : List (List Char)) (state : Scan) : Scan :=
  { state with queries := queries ++ state.queries }

theorem pushNonEmpty_append (before queries : List (List Char)) (text : List Char) :
    pushNonEmpty (before ++ queries) text = before ++ pushNonEmpty queries text := by
  unfold pushNonEmpty
  split
  · exact List.append_assoc before queries [text]
  · rfl

theorem stepQuoted_after (quote c next : Char) (before : List (List Char)) (state : Scan) :
    stepQuoted quote c next (state.after before) =
      ((stepQuoted quote c next state).1.after before, (stepQuoted quote c next state).2) := by
  unfold stepQuoted
  split
  · rfl
  · split <;> rfl

theorem stepDollarQuoted_after (delimiter : List Char) (c : Char) (rest : List Char)
    (before : List (List Char)) (state : Scan) :
    stepDollarQuoted delimiter c rest (state.after before) =
      ((stepDollarQuoted delimiter c rest state).1.after before,
        (stepDollarQuoted delimiter c rest state).2) := by
  unfold stepDollarQuoted
  split <;> rfl

theorem stepCopy_after (c next : Char) (rest : List Char) (before : List (List Char))
    (state : Scan) :
    stepCopy c next rest (state.after before) =
      ((stepCopy c next rest state).1.after before, (stepCopy c next rest state).2) := by
  unfold stepCopy
  split
  · simp [Scan.after]
  · rfl

theorem stepNormal_after (c next : Char) (rest : List Char) (before : List (List Char))
    (state : Scan) :
    stepNormal c next rest (state.after before) =
      ((stepNormal c next rest state).1.after before, (stepNormal c next rest state).2) := by
  unfold stepNormal
  split
  · rfl
  split
  · rfl
  split
  · rfl
  split
  · rfl
  split
  · simp [Scan.after, pushNonEmpty_append]
  · rfl

theorem splitStep_after (c : Char) (rest : List Char) (before : List (List Char))
    (state : Scan) :
    splitStep c rest (state.after before) =
      ((splitStep c rest state).1.after before, (splitStep c rest state).2) := by
  cases rest with
  | nil => simp [splitStep, Scan.after, pushNonEmpty_append]
  | cons next rest =>
      obtain ⟨curQry, mode, queries⟩ := state
      cases mode with
      | comment =>
          by_cases newline : c = '\n'
          · simp [splitStep, Scan.after, newline]
          · simp [splitStep, Scan.after, newline]
      | singleQuote => exact stepQuoted_after _ c _ before _
      | doubleQuote => exact stepQuoted_after _ c _ before _
      | dollarQuote delimiter => exact stepDollarQuoted_after delimiter c _ before _
      | copy => exact stepCopy_after c _ _ before _
      | normal => exact stepNormal_after c _ _ before _

theorem splitLoop_after (text : List Char) (skip : Nat) (before : List (List Char))
    (state : Scan) :
    splitLoop text skip (state.after before) = (splitLoop text skip state).after before := by
  induction text generalizing skip state with
  | nil => rfl
  | cons c rest ih =>
      cases skip with
      | zero => rw [splitLoop_step, splitLoop_step, splitStep_after, ih]
      | succ skip => exact ih skip state

theorem splitLoop_queries (text : List Char) (mode : Mode) (queries : List (List Char)) :
    (splitLoop text 0 ⟨[], mode, queries⟩).queries =
      queries ++ (splitLoop text 0 ⟨[], mode, []⟩).queries := by
  have start : (⟨[], mode, queries⟩ : Scan) = (⟨[], mode, []⟩ : Scan).after queries := by
    simp [Scan.after]
  rw [start, splitLoop_after]
  rfl

theorem splitLoop_script (statements : List Statement) (rest : List Char)
    (noCopy : ∀ statement ∈ statements, isCopyStdin (trim statement.text) = false)
    (queries : List (List Char)) :
    (splitLoop (script statements ++ rest) 0 ⟨[], .normal, queries⟩).queries =
      (splitLoop rest 0 ⟨[], .normal, queries ++
        (statements.map fun statement => trim statement.text).filter (· ≠ [])⟩).queries := by
  induction statements generalizing queries with
  | nil => simp [script]
  | cons statement statements ih =>
      have parts := List.forall_mem_cons.mp noCopy
      have unfolded : script (statement :: statements) ++ rest =
          statement.text ++ ';' :: (script statements ++ rest) := by simp [script]
      rw [unfolded, statement.read_semicolon, modeAfter, parts.1]
      simp only [Bool.false_eq_true, if_false]
      rw [ih parts.2, pushNonEmpty_eq]
      simp only [List.map_cons, List.append_assoc, ← List.filter_append, List.cons_append,
        List.nil_append]

/-- `split_queries` returns the trimmed non-empty statements of a script, in order. -/
theorem splitQueries_script (statements : List Statement)
    (noCopy : ∀ statement ∈ statements, isCopyStdin (trim statement.text) = false) :
    splitQueries (script statements) =
      (statements.map fun statement => trim statement.text).filter (· ≠ []) := by
  have read := splitLoop_script statements [] noCopy []
  rw [List.append_nil] at read
  exact read

theorem splitQueries_script_function :
    let body : Statement :=
      { pieces := "do ".toList.map Piece.plain ++ [.dollar ['f'] "x := ';'; -- \"".toList]
        valid := by decide
        noComment := by decide }
    let query : Statement :=
      { pieces := "select ".toList.map Piece.plain ++ [.literal "it's".toList]
        valid := by decide
        noComment := by decide }
    let blank : Statement :=
      { pieces := [.plain '\n']
        valid := by decide
        noComment := by decide }
    splitQueries (script [query, blank, body]) = [query.text, body.text] :=
  splitQueries_script [_, _, _] (by decide)

end PqAsync
