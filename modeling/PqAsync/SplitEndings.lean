import PqAsync.SplitScripts

/-!
How a script may end. A script here may also hold `COPY ... FROM STDIN` statements with
their data, and its last statement has no semicolon.
-/

namespace PqAsync

/-- The text starts with a line that is `\.` up to its third character. -/
def startsTerminator (text : List Char) : Bool :=
  match text with
  | newline :: '\\' :: '.' :: _ => newline == '\n' || newline == '\r'
  | _ => false

/-- The data of a `COPY`: the line that ends it is not in it. -/
def CopyData (data : List Char) : Prop :=
  ∀ start < data.length, startsTerminator (data.drop start) = false

instance (data : List Char) : Decidable (CopyData data) :=
  inferInstanceAs (Decidable (∀ start < data.length, _))

inductive Block
  | closed (statement : Statement)
  | copy (statement : Statement) (data : List Char) (newline : Char)

def Block.text : Block → List Char
  | .closed statement => statement.text ++ [';']
  | .copy statement data newline =>
      statement.text ++ ';' :: (data ++ newline :: ['\\', '.'])

def Block.Valid : Block → Prop
  | .closed statement => isCopyStdin (trim statement.text) = false
  | .copy statement data newline =>
      isCopyStdin (trim statement.text) = true ∧ CopyData data ∧
        (newline = '\n' ∨ newline = '\r')

/-- What follows the last complete block: a statement without its semicolon, possibly an
empty one, or the data of a last `COPY`. -/
inductive Ending
  | unclosed (statement : Statement)
  | copy (statement : Statement) (data : List Char)

def Ending.text : Ending → List Char
  | .unclosed statement => statement.text
  | .copy statement data => statement.text ++ ';' :: data

def Ending.Valid : Ending → Prop
  | .unclosed _ => True
  | .copy statement data => isCopyStdin (trim statement.text) = true ∧ CopyData data

def Ending.endsInDollar : Ending → Bool
  | .unclosed statement => statement.endsInDollar
  | .copy _ _ => false

structure OpenScript where
  blocks : List Block
  ending : Ending
  blocksValid : ∀ block ∈ blocks, block.Valid
  endingValid : ending.Valid

def OpenScript.text (sql : OpenScript) : List Char :=
  sql.blocks.flatMap Block.text ++ sql.ending.text

theorem startsTerminator_append (text : List Char) (nonempty : text ≠ []) (next : Char)
    (rest : List Char) (outside : next ≠ '\\' ∧ next ≠ '.') :
    startsTerminator (text ++ next :: rest) = startsTerminator text := by
  match text with
  | [c] => simp [startsTerminator, outside.1]
  | [c, second] =>
      by_cases backslash : second = '\\'
      · subst second
        simp [startsTerminator, outside.2]
      · simp [startsTerminator, backslash]
  | c :: second :: third :: tail =>
      by_cases shape : second = '\\' ∧ third = '.'
      · obtain ⟨rfl, rfl⟩ := shape
        rfl
      · unfold startsTerminator
        split <;> split <;> simp_all

theorem CopyData.append {data : List Char} (plain : CopyData data) (next : Char)
    (rest : List Char) (outside : next ≠ '\\' ∧ next ≠ '.') :
    ∀ start < data.length, startsTerminator ((data ++ next :: rest).drop start) = false := by
  intro start bound
  have nonempty : data.drop start ≠ [] := by simpa using bound
  rw [List.drop_append_of_le_length (by omega), startsTerminator_append _ nonempty _ _ outside]
  exact plain start bound

theorem copy_mode_step {state : Scan} (inMode : state.mode = .copy) (c next : Char)
    (rest : List Char) :
    splitStep c (next :: rest) state = stepCopy c next (next :: rest) state := by
  simp [splitStep, inMode]

theorem splitLoop_copyData (data rest : List Char) (more : rest ≠ [])
    (plain : ∀ start < data.length, startsTerminator ((data ++ rest).drop start) = false)
    (state : Scan) (inMode : state.mode = .copy) :
    splitLoop (data ++ rest) 0 state = splitLoop rest 0 (state.append data) := by
  induction data generalizing state with
  | nil => simp
  | cons c data ih =>
      have here : startsTerminator (c :: (data ++ rest)) = false := by simpa using plain 0 (by simp)
      have tailPlain : ∀ start < data.length,
          startsTerminator ((data ++ rest).drop start) = false := by
        intro start bound
        have shifted := plain (start + 1) (by simpa using bound)
        simpa using shifted
      obtain ⟨second, tail, split⟩ : ∃ second tail, data ++ rest = second :: tail :=
        List.exists_cons_of_ne_nil (by simp [more])
      have unmatched : ¬ ((c = '\n' ∨ c = '\r') ∧ second = '\\' ∧
          (second :: tail).tail.headD '\x00' = '.') := by
        rintro ⟨newline, rfl, third⟩
        rw [split] at here
        cases tail with
        | nil => simp at third
        | cons last tail =>
            simp only [List.tail_cons, List.headD_cons] at third
            subst last
            rcases newline with rfl | rfl <;> simp [startsTerminator] at here
      rw [List.cons_append, splitLoop_step, split, copy_mode_step inMode]
      simp only [stepCopy, unmatched, if_false]
      rw [← split, ih tailPlain (state.append [c]) inMode]
      simp

theorem splitLoop_terminator (newline : Char) (isNewline : newline = '\n' ∨ newline = '\r')
    (rest : List Char) (state : Scan) (inMode : state.mode = .copy) :
    splitLoop (newline :: '\\' :: '.' :: rest) 0 state =
      splitLoop rest 0 ⟨[], .normal, state.queries ++ [trim state.curQry]⟩ := by
  rw [splitLoop_step, copy_mode_step inMode]
  simp only [stepCopy, isNewline, List.tail_cons, List.headD_cons, and_self, if_true]
  rfl

/-- The data of a `COPY` that the script does not terminate, with or without a semicolon
after it: both are read through the test for the last character. -/
theorem splitLoop_openData (data : List Char) (plain : CopyData data)
    (queries : List (List Char)) (ends : data.getLast? ≠ some ';') :
    (splitLoop data 0 ⟨[], .copy, queries⟩).queries = pushNonEmpty queries (trim data) ∧
    (splitLoop (data ++ [';']) 0 ⟨[], .copy, queries⟩).queries =
      pushNonEmpty queries (trim data) := by
  constructor
  · obtain rfl | ⟨before, last, rfl⟩ := data.eq_nil_or_concat
    · rfl
    · simp only [List.concat_eq_append] at plain ends ⊢
      have inside : ∀ start < before.length,
          startsTerminator ((before ++ [last]).drop start) = false :=
        fun start bound => plain start (by simp only [List.length_append]; omega)
      have different : last ≠ ';' := by simpa using ends
      rw [splitLoop_copyData before [last] (by simp) inside _ rfl, splitLoop_step]
      simp [splitLoop, splitStep_last, different]
  · rw [splitLoop_copyData data [';'] (by simp) (plain.append ';' [] (by decide)) _ rfl]
    rfl

/-- The queries of the blocks; none of a copy's data is skipped, even when it is empty. -/
def Block.queries : Block → List (List Char)
  | .closed statement => [trim statement.text].filter (· ≠ [])
  | .copy statement data _ => [trim statement.text, trim data]

def Ending.queries : Ending → List (List Char)
  | .unclosed statement => [trim statement.text].filter (· ≠ [])
  | .copy statement data => [trim statement.text] ++ [trim data].filter (· ≠ [])

theorem isCopyStdin_ne_nil {text : List Char} (copying : isCopyStdin text = true) :
    text ≠ [] := by
  rintro rfl
  revert copying
  decide

theorem Statement.read_copy (statement : Statement)
    (copying : isCopyStdin (trim statement.text) = true) (rest : List Char)
    (queries : List (List Char)) :
    (splitLoop (statement.text ++ ';' :: rest) 0 ⟨[], .normal, queries⟩).queries =
      (splitLoop rest 0 ⟨[], .copy, queries ++ [trim statement.text]⟩).queries := by
  rw [statement.read_semicolon, modeAfter, copying, pushNonEmpty_eq]
  simp [isCopyStdin_ne_nil copying]

theorem Block.read (block : Block) (valid : block.Valid) (rest : List Char)
    (queries : List (List Char)) :
    (splitLoop (block.text ++ rest) 0 ⟨[], .normal, queries⟩).queries =
      (splitLoop rest 0 ⟨[], .normal, queries ++ block.queries⟩).queries := by
  cases block with
  | closed statement =>
      have plain : isCopyStdin (trim statement.text) = false := valid
      rw [Block.text, List.append_assoc, List.singleton_append, statement.read_semicolon,
        modeAfter, plain, pushNonEmpty_eq]
      rfl
  | copy statement data newline =>
      obtain ⟨copying, plain, isNewline⟩ := valid
      have outside : newline ≠ '\\' ∧ newline ≠ '.' := by
        rcases isNewline with rfl | rfl <;> decide
      rw [Block.text, List.append_assoc, List.cons_append, statement.read_copy copying,
        List.append_assoc, List.cons_append,
        splitLoop_copyData data _ (by simp) (plain.append newline _ outside) _ rfl]
      simp only [List.cons_append, List.nil_append]
      rw [splitLoop_terminator newline isNewline rest _ rfl]
      simp [Block.queries]

theorem splitLoop_blocks (blocks : List Block) (valid : ∀ block ∈ blocks, block.Valid)
    (rest : List Char) (queries : List (List Char)) :
    (splitLoop (blocks.flatMap Block.text ++ rest) 0 ⟨[], .normal, queries⟩).queries =
      (splitLoop rest 0 ⟨[], .normal, queries ++ blocks.flatMap Block.queries⟩).queries := by
  induction blocks generalizing queries with
  | nil => simp
  | cons block blocks ih =>
      have parts := List.forall_mem_cons.mp valid
      rw [List.flatMap_cons, List.append_assoc, block.read parts.1, ih parts.2]
      simp

theorem Ending.last_of_copy {statement : Statement} {data : List Char}
    (ends : (Ending.copy statement data).text.getLast? ≠ some ';') :
    data.getLast? ≠ some ';' ∧ data ≠ [] := by
  cases data with
  | nil => simp [Ending.text] at ends
  | cons c data => simpa [Ending.text, List.getLast?_cons_cons] using ends

theorem Ending.read_semicolon (ending : Ending) (valid : ending.Valid)
    (queries : List (List Char)) (ends : ending.text.getLast? ≠ some ';') :
    (splitLoop (ending.text ++ [';']) 0 ⟨[], .normal, queries⟩).queries =
      queries ++ ending.queries := by
  cases ending with
  | unclosed statement =>
      rw [Ending.text, statement.read_semicolon, pushNonEmpty_eq]
      rfl
  | copy statement data =>
      rw [Ending.text, List.append_assoc, List.cons_append, statement.read_copy valid.1,
        (splitLoop_openData data valid.2 _ (Ending.last_of_copy ends).1).2, pushNonEmpty_eq]
      simp [Ending.queries]

theorem Ending.read_last (ending : Ending) (valid : ending.Valid)
    (queries : List (List Char)) (ends : ending.text.getLast? ≠ some ';') :
    (splitLoop ending.text 0 ⟨[], .normal, queries⟩).queries =
      if ending.endsInDollar then queries else queries ++ ending.queries := by
  cases ending with
  | unclosed statement =>
      rw [Ending.text, statement.read_last _ rfl (Or.inl rfl), pushNonEmpty_eq]
      rfl
  | copy statement data =>
      rw [Ending.text, statement.read_copy valid.1,
        (splitLoop_openData data valid.2 _ (Ending.last_of_copy ends).1).1, pushNonEmpty_eq]
      simp [Ending.queries, Ending.endsInDollar]

theorem dropWhile_isSpace_ne_nil {text : List Char} {c : Char} (member : c ∈ text)
    (visible : isSpace c = false) : c ∈ text.dropWhile isSpace := by
  rw [← List.takeWhile_append_dropWhile (p := isSpace) (l := text)] at member
  rcases List.mem_append.mp member with inSpaces | inRest
  · have space := List.all_eq_true.mp List.all_takeWhile c inSpaces
    simp [visible] at space
  · exact inRest

theorem trim_ne_nil {text : List Char} {c : Char} (member : c ∈ text)
    (visible : isSpace c = false) : trim text ≠ [] := by
  have kept : c ∈ trim text := by
    have left := dropWhile_isSpace_ne_nil member visible
    have right := dropWhile_isSpace_ne_nil (List.mem_reverse.mpr left) visible
    exact List.mem_reverse.mpr right
  exact List.ne_nil_of_mem kept

theorem Ending.queries_ne_nil_of_dollar {ending : Ending} (dollar : ending.endsInDollar = true) :
    ending.queries ≠ [] := by
  cases ending with
  | copy statement data => simp [Ending.endsInDollar] at dollar
  | unclosed statement =>
      obtain ⟨piece, member, isDollar⟩ : ∃ piece ∈ statement.pieces, piece.isDollar = true := by
        obtain ⟨piece, last, isDollar⟩ := (Option.any_eq_true _ _).mp dollar
        exact ⟨piece, List.mem_of_getLast? last, isDollar⟩
      have inText : '$' ∈ statement.text := by
        refine List.mem_flatMap.mpr ⟨piece, member, ?_⟩
        cases piece with
        | dollar tag body => simp [Piece.text, dollarDelimiter]
        | _ => simp [Piece.isDollar] at isDollar
      simp [Ending.queries, trim_ne_nil inText (by decide)]

def OpenScript.queries (sql : OpenScript) : List (List Char) :=
  sql.blocks.flatMap Block.queries ++ sql.ending.queries

/-- A script without a final semicolon is split as with it, and every statement of it is
returned, exactly when it does not end in a dollar block. -/
theorem splitQueries_final_semicolon (sql : OpenScript) (ends : sql.text.getLast? ≠ some ';') :
    (splitQueries sql.text = splitQueries (sql.text ++ [';']) ∧
      splitQueries sql.text = sql.queries) ↔
    sql.ending.endsInDollar = false := by
  have endingEnds : sql.ending.text.getLast? ≠ some ';' := by
    intro last
    apply ends
    simp [OpenScript.text, List.getLast?_append, last]
  have withSemicolon : splitQueries (sql.text ++ [';']) = sql.queries := by
    rw [OpenScript.text, List.append_assoc, splitQueries,
      splitLoop_blocks _ sql.blocksValid, sql.ending.read_semicolon sql.endingValid _ endingEnds]
    rfl
  have without : splitQueries sql.text =
      if sql.ending.endsInDollar then sql.blocks.flatMap Block.queries else sql.queries := by
    rw [OpenScript.text, splitQueries, splitLoop_blocks _ sql.blocksValid,
      sql.ending.read_last sql.endingValid _ endingEnds]
    rfl
  rw [withSemicolon, without]
  cases dollar : sql.ending.endsInDollar with
  | false => simp
  | true =>
      have lost := Ending.queries_ne_nil_of_dollar dollar
      simp [OpenScript.queries, lost]

theorem splitQueries_final_semicolon_select :
    let sql : OpenScript :=
      { blocks := [.copy { pieces := "copy t from stdin".toList.map Piece.plain
                           valid := by decide
                           noComment := by decide } "1;".toList '\n']
        ending := .unclosed { pieces := "select ".toList.map Piece.plain ++ [.literal ";".toList]
                              valid := by decide
                              noComment := by decide }
        blocksValid := by simp only [List.mem_singleton, forall_eq]; exact ⟨by decide, by decide⟩
        endingValid := trivial }
    splitQueries sql.text = splitQueries (sql.text ++ [';']) ∧ splitQueries sql.text = sql.queries :=
  (splitQueries_final_semicolon _ (by decide)).mpr (by decide)

def functionScript : OpenScript where
  blocks := []
  ending := .unclosed
    { pieces := "do ".toList.map Piece.plain ++ [.dollar [] "begin; end".toList]
      valid := by decide
      noComment := by decide }
  blocksValid := by simp
  endingValid := trivial

theorem splitQueries_function_lost :
    functionScript.text = "do $$begin; end$$".toList ∧
    functionScript.text.getLast? ≠ some ';' ∧
    splitQueries functionScript.text = [] ∧
    splitQueries functionScript.text ≠ splitQueries (functionScript.text ++ [';']) := by
  decide

end PqAsync
