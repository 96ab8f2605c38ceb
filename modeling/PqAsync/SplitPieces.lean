import PqAsync.SplitCore
import Mathlib.Tactic.Common

/-!
The pieces a well-formed statement is written with, and what the splitter does on the
text of each of them.
-/

namespace PqAsync

/-- A piece of a statement: one plain character, a `'...'` literal or a `"..."` identifier
(given by its contents, before the quotes in it are doubled), or a `$tag$ body $tag$`
block. -/
inductive Piece
  | plain (c : Char)
  | literal (contents : List Char)
  | identifier (contents : List Char)
  | dollar (tag body : List Char)
  deriving DecidableEq, Repr

def doubled (quote : Char) (contents : List Char) : List Char :=
  contents.flatMap fun c => if c = quote then [quote, quote] else [c]

def dollarDelimiter (tag : List Char) : List Char := '$' :: (tag ++ ['$'])

def Piece.text : Piece → List Char
  | .plain c => [c]
  | .literal contents => '\'' :: (doubled '\'' contents ++ ['\''])
  | .identifier contents => '"' :: (doubled '"' contents ++ ['"'])
  | .dollar tag body => dollarDelimiter tag ++ (body ++ dollarDelimiter tag)

/-- In `body` followed by the closing delimiter, the first occurrence of the delimiter is
the closing one. -/
def FirstAtEnd (delimiter body : List Char) : Prop :=
  ∀ start < body.length, ¬ delimiter <+: (body ++ delimiter).drop start

def Piece.Valid : Piece → Prop
  | .plain c => c ≠ '\'' ∧ c ≠ '"' ∧ c ≠ '$' ∧ c ≠ ';'
  | .literal _ => True
  | .identifier _ => True
  | .dollar tag body => '$' ∉ tag ∧ FirstAtEnd (dollarDelimiter tag) body

instance (delimiter body : List Char) : Decidable (FirstAtEnd delimiter body) :=
  inferInstanceAs (Decidable (∀ start < body.length, _))

instance : DecidablePred Piece.Valid := fun piece =>
  match piece with
  | .plain _ => inferInstanceAs (Decidable (_ ∧ _))
  | .literal _ => isTrue trivial
  | .identifier _ => isTrue trivial
  | .dollar _ _ => inferInstanceAs (Decidable (_ ∧ _))

def piecesText (pieces : List Piece) : List Char := pieces.flatMap Piece.text

/-- The character that must not follow the piece: a second `-` would open a comment, and a
second quote would double the closing one. -/
def Piece.barrier : Piece → Option Char
  | .plain c => if c = '-' then some '-' else none
  | .literal _ => some '\''
  | .identifier _ => some '"'
  | .dollar _ _ => none

def Piece.first : Piece → Char
  | .plain c => c
  | .literal _ => '\''
  | .identifier _ => '"'
  | .dollar _ _ => '$'

def Piece.isDollar : Piece → Bool
  | .dollar _ _ => true
  | _ => false

def Separated (pieces : List Piece) : Prop :=
  pieces.IsChain fun left right => left.barrier ≠ some right.first

@[simp] theorem piecesText_nil : piecesText [] = [] := rfl

@[simp] theorem piecesText_cons (piece : Piece) (pieces : List Piece) :
    piecesText (piece :: pieces) = piece.text ++ piecesText pieces := rfl

@[simp] theorem doubled_nil (quote : Char) : doubled quote [] = [] := rfl

theorem doubled_cons (quote c : Char) (contents : List Char) :
    doubled quote (c :: contents) =
      (if c = quote then [quote, quote] else [c]) ++ doubled quote contents := rfl

theorem doubled_append (quote : Char) (left right : List Char) :
    doubled quote (left ++ right) = doubled quote left ++ doubled quote right := by
  simp [doubled]

theorem Piece.text_eq_first (piece : Piece) : ∃ rest, piece.text = piece.first :: rest := by
  cases piece <;> exact ⟨_, rfl⟩

@[simp] theorem Scan.append_mode (state : Scan) (text : List Char) :
    (state.append text).mode = state.mode := rfl

@[simp] theorem Scan.append_queries (state : Scan) (text : List Char) :
    (state.append text).queries = state.queries := rfl

@[simp] theorem Scan.append_curQry (state : Scan) (text : List Char) :
    (state.append text).curQry = state.curQry ++ text := rfl

@[simp] theorem Scan.append_nil (state : Scan) : state.append [] = state := by
  simp [Scan.append]

@[simp] theorem Scan.append_append (state : Scan) (left right : List Char) :
    (state.append left).append right = state.append (left ++ right) := by
  simp [Scan.append]

theorem splitLoop_skip (jumped rest : List Char) (state : Scan) :
    splitLoop (jumped ++ rest) jumped.length state = splitLoop rest 0 state := by
  induction jumped with
  | nil => simp
  | cons c jumped ih => simpa [splitLoop] using ih

theorem splitLoop_step (c : Char) (rest : List Char) (state : Scan) :
    splitLoop (c :: rest) 0 state =
      splitLoop rest (splitStep c rest state).2 (splitStep c rest state).1 := rfl

theorem splitStep_last (c : Char) (state : Scan) :
    (splitStep c [] state).1.queries = pushNonEmpty state.queries
      (trim (if c ≠ ';' then state.curQry ++ [c] else state.curQry)) := rfl

theorem normal_mode_step {state : Scan} (inMode : state.mode = .normal) (c next : Char)
    (rest : List Char) :
    splitStep c (next :: rest) state = stepNormal c next (next :: rest) state := by
  simp [splitStep, inMode]

inductive QuoteMode : Char → Mode → Prop
  | single : QuoteMode '\'' .singleQuote
  | double : QuoteMode '"' .doubleQuote

theorem QuoteMode.ne_semicolon {quote : Char} {mode : Mode} (quoting : QuoteMode quote mode) :
    quote ≠ ';' := by
  cases quoting <;> decide

theorem QuoteMode.step {quote : Char} {mode : Mode} (quoting : QuoteMode quote mode)
    {state : Scan} (inMode : state.mode = mode) (c next : Char) (rest : List Char) :
    splitStep c (next :: rest) state = stepQuoted quote c next state := by
  cases quoting <;> simp [splitStep, inMode]

theorem QuoteMode.open {quote : Char} {mode : Mode} (quoting : QuoteMode quote mode)
    (next : Char) (rest : List Char) (state : Scan) :
    stepNormal quote next (next :: rest) state =
      ({ state.append [quote] with mode := mode }, 0) := by
  cases quoting <;> simp [stepNormal]

theorem splitLoop_contents {quote : Char} {mode : Mode} (quoting : QuoteMode quote mode)
    (contents rest : List Char) (state : Scan) (inMode : state.mode = mode) :
    splitLoop (doubled quote contents ++ quote :: rest) 0 state =
      splitLoop (quote :: rest) 0 (state.append (doubled quote contents)) := by
  induction contents generalizing state with
  | nil => simp
  | cons c contents ih =>
      rw [doubled_cons]
      by_cases same : c = quote
      · subst c
        simp only [if_true, List.cons_append, List.nil_append]
        rw [splitLoop_step, quoting.step inMode]
        simp only [stepQuoted, ne_eq, not_true_eq_false, and_false, and_self, if_true, if_false]
        rw [show splitLoop (quote :: (doubled quote contents ++ quote :: rest)) 1 =
          splitLoop (doubled quote contents ++ quote :: rest) 0 from rfl]
        rw [ih (state.append [quote, quote]) inMode]
        simp
      · simp only [same, if_false, List.cons_append, List.nil_append]
        obtain ⟨second, tail, split⟩ :
            ∃ second tail, doubled quote contents ++ quote :: rest = second :: tail := by
          cases doubled quote contents <;> simp
        rw [splitLoop_step, split, quoting.step inMode, ← split]
        simp only [stepQuoted, same, false_and, if_false]
        rw [ih (state.append [c]) inMode]
        simp

theorem splitLoop_opened {quote : Char} {mode : Mode} (quoting : QuoteMode quote mode)
    (contents rest : List Char) (state : Scan) (inMode : state.mode = .normal) :
    splitLoop (quote :: (doubled quote contents ++ quote :: rest)) 0 state =
      splitLoop (quote :: rest) 0
        { state.append (quote :: doubled quote contents) with mode := mode } := by
  obtain ⟨second, tail, split⟩ :
      ∃ second tail, doubled quote contents ++ quote :: rest = second :: tail := by
    cases doubled quote contents <;> simp
  rw [splitLoop_step, split, normal_mode_step inMode, quoting.open, ← split]
  rw [splitLoop_contents quoting contents rest _ rfl]
  simp [Scan.append]

theorem splitLoop_quoted {quote : Char} {mode : Mode} (quoting : QuoteMode quote mode)
    (contents : List Char) (next : Char) (rest : List Char) (different : next ≠ quote)
    (state : Scan) (inMode : state.mode = .normal) :
    splitLoop (quote :: (doubled quote contents ++ quote :: next :: rest)) 0 state =
      splitLoop (next :: rest) 0
        (state.append (quote :: (doubled quote contents ++ [quote]))) := by
  rw [splitLoop_opened quoting contents _ state inMode, splitLoop_step, quoting.step rfl]
  simp [stepQuoted, different, Scan.append, inMode]

theorem splitLoop_quoted_last {quote : Char} {mode : Mode} (quoting : QuoteMode quote mode)
    (contents : List Char) (state : Scan) (inMode : state.mode = .normal) :
    (splitLoop (quote :: (doubled quote contents ++ [quote])) 0 state).queries =
      pushNonEmpty state.queries
        (trim (state.curQry ++ quote :: (doubled quote contents ++ [quote]))) := by
  rw [splitLoop_opened quoting contents [] state inMode, splitLoop_step]
  simp [splitLoop, splitStep_last, quoting.ne_semicolon]

theorem dollarTag_append (tag rest : List Char) (plain : '$' ∉ tag) :
    dollarTag (tag ++ '$' :: rest) = tag ++ ['$'] := by
  induction tag with
  | nil => simp [dollarTag]
  | cons c tag ih =>
      have different : c ≠ '$' := fun same => plain (by simp [same])
      have tailPlain : '$' ∉ tag := fun member => plain (List.mem_cons_of_mem _ member)
      simp [dollarTag, different, ih tailPlain]

theorem FirstAtEnd.tail {delimiter body : List Char} {c : Char}
    (first : FirstAtEnd delimiter (c :: body)) : FirstAtEnd delimiter body := by
  intro start bound
  have shifted := first (start + 1) (by simpa using bound)
  simpa using shifted

theorem dollar_mode_step {delimiter : List Char} {state : Scan}
    (inMode : state.mode = .dollarQuote delimiter) (c next : Char) (rest : List Char) :
    splitStep c (next :: rest) state = stepDollarQuoted delimiter c (next :: rest) state := by
  simp [splitStep, inMode]

theorem splitLoop_dollarBody (tag body rest : List Char)
    (first : FirstAtEnd (dollarDelimiter tag) body) (state : Scan)
    (inMode : state.mode = .dollarQuote (dollarDelimiter tag)) :
    splitLoop (body ++ (dollarDelimiter tag ++ rest)) 0 state =
      splitLoop rest 0
        { state.append (body ++ dollarDelimiter tag) with mode := .normal } := by
  induction body generalizing state with
  | nil =>
      obtain ⟨second, tail, split⟩ :
          ∃ second tail, tag ++ '$' :: rest = second :: tail := by
        cases tag <;> simp
      have jump : (dollarDelimiter tag).length - 1 = (tag ++ ['$']).length := by
        simp [dollarDelimiter]
      have matched : dollarDelimiter tag =
          ('$' :: (tag ++ '$' :: rest)).take (dollarDelimiter tag).length := by
        rw [show '$' :: (tag ++ '$' :: rest) = dollarDelimiter tag ++ rest by
          simp [dollarDelimiter], List.take_left']
        rfl
      have unfolded : dollarDelimiter tag ++ rest = '$' :: (tag ++ '$' :: rest) := by
        simp [dollarDelimiter]
      rw [List.nil_append, unfolded, splitLoop_step, split, dollar_mode_step inMode, ← split]
      simp only [stepDollarQuoted, true_and]
      rw [if_pos matched, jump]
      simpa using splitLoop_skip (tag ++ ['$']) rest
        { state.append (dollarDelimiter tag) with mode := .normal }
  | cons c body ih =>
      obtain ⟨second, tail, split⟩ :
          ∃ second tail, body ++ (dollarDelimiter tag ++ rest) = second :: tail := by
        cases body <;> simp [dollarDelimiter]
      have unmatched : ¬ dollarDelimiter tag =
          (c :: (body ++ (dollarDelimiter tag ++ rest))).take (dollarDelimiter tag).length := by
        intro matched
        have here := first 0 (by simp)
        apply here
        rw [List.drop_zero, List.prefix_iff_eq_take]
        have fits : (dollarDelimiter tag).length ≤ (c :: body ++ dollarDelimiter tag).length := by
          simp only [List.length_append]
          omega
        have cut : (c :: body ++ dollarDelimiter tag ++ rest).take (dollarDelimiter tag).length =
            (c :: body ++ dollarDelimiter tag).take (dollarDelimiter tag).length :=
          List.take_append_of_le_length fits
        rw [← cut]
        simpa using matched
      rw [List.cons_append, splitLoop_step, split, dollar_mode_step inMode, ← split]
      simp only [stepDollarQuoted]
      rw [if_neg (fun both => unmatched both.2), ih first.tail (state.append [c]) inMode]
      simp

theorem splitLoop_dollar (tag body rest : List Char)
    (valid : (Piece.dollar tag body).Valid) (state : Scan) (inMode : state.mode = .normal) :
    splitLoop ((Piece.dollar tag body).text ++ rest) 0 state =
      splitLoop rest 0 (state.append (Piece.dollar tag body).text) := by
  obtain ⟨plain, first⟩ := valid
  have unfolded : (Piece.dollar tag body).text ++ rest =
      '$' :: ((tag ++ ['$']) ++ (body ++ (dollarDelimiter tag ++ rest))) := by
    simp [Piece.text, dollarDelimiter]
  have opening : dollarTag ((tag ++ ['$']) ++ (body ++ (dollarDelimiter tag ++ rest))) =
      tag ++ ['$'] := by
    simpa using dollarTag_append tag (body ++ (dollarDelimiter tag ++ rest)) plain
  obtain ⟨second, tail, split⟩ : ∃ second tail,
      (tag ++ ['$']) ++ (body ++ (dollarDelimiter tag ++ rest)) = second :: tail := by
    cases tag <;> simp
  rw [unfolded, splitLoop_step, split, normal_mode_step inMode, ← split]
  simp only [stepNormal, show ¬ ('$' = '-') by decide, false_and, if_false, if_true, opening]
  rw [splitLoop_skip]
  change splitLoop _ 0 { state.append (dollarDelimiter tag) with
    mode := .dollarQuote (dollarDelimiter tag) } = _
  rw [splitLoop_dollarBody tag body rest first _ rfl]
  simp [Piece.text, Scan.append, inMode]

theorem splitLoop_piece (piece : Piece) (valid : piece.Valid) (next : Char) (rest : List Char)
    (open_ : piece.barrier ≠ some next) (state : Scan) (inMode : state.mode = .normal) :
    splitLoop (piece.text ++ next :: rest) 0 state =
      splitLoop (next :: rest) 0 (state.append piece.text) := by
  cases piece with
  | plain c =>
      obtain ⟨notSingle, notDouble, notDollar, notEnd⟩ := valid
      have notComment : ¬ (c = '-' ∧ next = '-') := by
        rintro ⟨rfl, rfl⟩
        exact open_ rfl
      change splitLoop (c :: next :: rest) 0 state = _
      rw [splitLoop_step, normal_mode_step inMode]
      simp only [stepNormal, notComment, notDollar, notSingle, notDouble, notEnd, if_false]
      rfl
  | literal contents =>
      have different : next ≠ '\'' := fun same => open_ (by simp [Piece.barrier, same])
      simpa [Piece.text] using splitLoop_quoted .single contents next rest different state inMode
  | identifier contents =>
      have different : next ≠ '"' := fun same => open_ (by simp [Piece.barrier, same])
      simpa [Piece.text] using splitLoop_quoted .double contents next rest different state inMode
  | dollar tag body => exact splitLoop_dollar tag body (next :: rest) valid state inMode

theorem splitLoop_lastPiece (piece : Piece) (valid : piece.Valid) (state : Scan)
    (inMode : state.mode = .normal) :
    (splitLoop piece.text 0 state).queries =
      if piece.isDollar then state.queries
      else pushNonEmpty state.queries (trim (state.curQry ++ piece.text)) := by
  cases piece with
  | plain c =>
      change (splitLoop [c] 0 state).queries = _
      rw [splitLoop_step]
      simp [splitLoop, splitStep_last, valid.2.2.2, Piece.isDollar, Piece.text]
  | literal contents => exact splitLoop_quoted_last .single contents state inMode
  | identifier contents => exact splitLoop_quoted_last .double contents state inMode
  | dollar tag body =>
      have read := splitLoop_dollar tag body [] valid state inMode
      rw [List.append_nil] at read
      rw [read]
      rfl

end PqAsync
