import PqAsync.SplitEndings
import PqAsync.ExecQueries
import Mathlib.Data.Nat.Find

/-!
Scripts that hold `COPY ... FROM stdin` blocks: which data reaches the list of queries, and
`PQputCopyData`, as it stands in the script.
-/

namespace PqAsync

/-- A statement with its semicolon, or a copy statement with the line of its semicolon, its
data, and the line that ends the data. -/
inductive Part
  | closed (statement : Statement)
  | copy (statement : Statement) (data : List Char)

def Part.text : Part → List Char
  | .closed statement => statement.text ++ [';']
  | .copy statement data => statement.text ++ (";\n".toList ++ (data ++ "\n\\.".toList))

def Part.Valid : Part → Prop
  | .closed statement => isCopyStdin (trim statement.text) = false
  | .copy statement data =>
      isCopyStdin (trim statement.text) = true ∧ ¬ "\n\\.".toList <:+: data

/-- What `exec_queries` has to do with one entry of the list of queries. -/
structure Entry where
  asData : Bool
  text : List Char
  deriving DecidableEq, Repr

def Part.entries : Part → List Entry
  | .closed statement =>
      if trim statement.text = [] then [] else [{ asData := false, text := trim statement.text }]
  | .copy statement data =>
      [{ asData := false, text := trim statement.text }, { asData := true, text := data }]

/-- The data starts and ends with a character that is not white space, if with any, and
there is no line break in it, and none before it, after which the splitter ends it. -/
def Verbatim (data : List Char) : Prop :=
  trim data = data ∧ ¬ "\\.".toList <+: data ∧ ¬ "\r\\.".toList <:+: data

def Part.Verbatim : Part → Prop
  | .closed _ => True
  | .copy _ data => PqAsync.Verbatim data

structure CopyScript where
  parts : List Part
  valid : ∀ part ∈ parts, part.Valid

def CopyScript.text (sql : CopyScript) : List Char := sql.parts.flatMap Part.text

def CopyScript.entries (sql : CopyScript) : List Entry := sql.parts.flatMap Part.entries

instance (data : List Char) : Decidable (Verbatim data) := inferInstanceAs (Decidable (_ ∧ _))

theorem trim_cons_space {c : Char} (space : isSpace c = true) (text : List Char) :
    trim (c :: text) = trim text := by
  simp [trim, space]

theorem length_trim_le (text : List Char) : (trim text).length ≤ text.length := by
  have left := (List.dropWhile_suffix (l := text) isSpace).length_le
  have right := (List.dropWhile_suffix (l := (text.dropWhile isSpace).reverse) isSpace).length_le
  simp only [trim, List.length_reverse] at right ⊢
  omega

theorem startsTerminator_iff (text : List Char) :
    startsTerminator text = true ↔ "\n\\.".toList <+: text ∨ "\r\\.".toList <+: text := by
  unfold startsTerminator
  split
  · simp [List.cons_prefix_cons, eq_comm (a := '\n'), eq_comm (a := '\r')]
  · rename_i other
    refine iff_of_false (by simp) ?_
    rintro (⟨rest, rfl⟩ | ⟨rest, rfl⟩)
    · exact other '\n' rest rfl
    · exact other '\r' rest rfl

theorem endsEarly_iff (data after : List Char) (valid : ¬ "\n\\.".toList <:+: data) :
    (∃ start < data.length + 1,
      startsTerminator (('\n' :: data ++ '\n' :: after).drop start) = true) ↔
      "\\.".toList <+: data ∨ "\r\\.".toList <:+: data := by
  constructor
  · rintro ⟨start, bound, terminator⟩
    cases start with
    | zero =>
        left
        match data with
        | [] => simp [startsTerminator] at terminator
        | [c] => simp [startsTerminator] at terminator
        | c :: second :: rest =>
            rw [List.drop_zero, startsTerminator_iff] at terminator
            simpa [List.cons_prefix_cons] using terminator
    | succ start =>
        right
        have inside : start < data.length := by omega
        have nonempty : data.drop start ≠ [] := by simpa using inside
        rw [List.cons_append, List.drop_succ_cons,
          List.drop_append_of_le_length (by omega),
          startsTerminator_append _ nonempty _ _ (by decide), startsTerminator_iff] at terminator
        rcases terminator with line | line
        · exact absurd (line.isInfix.trans (List.drop_suffix start data).isInfix) valid
        · exact line.isInfix.trans (List.drop_suffix start data).isInfix
  · rintro (⟨rest, rfl⟩ | ⟨before, rest, rfl⟩)
    · exact ⟨0, by simp, rfl⟩
    · refine ⟨before.length + 1, by simp, ?_⟩
      simp [startsTerminator]

theorem splitLoop_data (data after : List Char) (queries : List (List Char))
    (plain : ∀ start < data.length + 1,
      startsTerminator (('\n' :: data ++ '\n' :: '\\' :: '.' :: after).drop start) = false) :
    (splitLoop ('\n' :: data ++ '\n' :: '\\' :: '.' :: after) 0 ⟨[], .copy, queries⟩).queries =
      queries ++ [trim data] ++ splitQueries after := by
  rw [splitLoop_copyData ('\n' :: data) _ (by simp) (by simpa using plain) _ rfl,
    splitLoop_terminator '\n' (Or.inl rfl) after _ rfl, splitLoop_queries]
  have trimmed : trim ('\n' :: data) = trim data := trim_cons_space (by decide) data
  simp only [Scan.append, List.nil_append, trimmed]
  rfl

theorem splitLoop_data_early (data after : List Char) (queries : List (List Char))
    (early : ∃ start < data.length + 1,
      startsTerminator (('\n' :: data ++ '\n' :: '\\' :: '.' :: after).drop start) = true)
    (visible : "\\.".toList <+: data ∨ data ≠ []) :
    ∃ entry more,
      (splitLoop ('\n' :: data ++ '\n' :: '\\' :: '.' :: after) 0 ⟨[], .copy, queries⟩).queries =
        queries ++ entry :: more ∧ entry.length < data.length := by
  have nonempty : 0 < data.length := by
    rcases visible with ⟨rest, rfl⟩ | nonempty
    · simp
    · exact List.length_pos_of_ne_nil nonempty
  obtain ⟨bound, terminator⟩ := Nat.find_spec early
  have minimal : ∀ start < Nat.find early,
      startsTerminator (('\n' :: data ++ '\n' :: '\\' :: '.' :: after).drop start) = false := by
    intro start before
    have no := Nat.find_min early before
    rw [not_and, Bool.not_eq_true] at no
    exact no (by omega)
  generalize Nat.find early = first at bound terminator minimal
  have short : (trim (('\n' :: data ++ '\n' :: '\\' :: '.' :: after).take first)).length <
      data.length := by
    cases first with
    | zero => exact nonempty
    | succ first =>
        rw [List.cons_append, List.take_succ_cons, trim_cons_space (by decide)]
        have le := length_trim_le ((data ++ '\n' :: '\\' :: '.' :: after).take first)
        have taken := List.length_take_le first (data ++ '\n' :: '\\' :: '.' :: after)
        omega
  generalize '\n' :: data ++ '\n' :: '\\' :: '.' :: after = text at terminator minimal short ⊢
  have parts := List.take_append_drop first text
  obtain ⟨newline, rest, isNewline, shape⟩ : ∃ newline rest,
      (newline = '\n' ∨ newline = '\r') ∧ text.drop first = newline :: '\\' :: '.' :: rest := by
    rcases (startsTerminator_iff _).mp terminator with ⟨rest, line⟩ | ⟨rest, line⟩
    · exact ⟨'\n', rest, Or.inl rfl, line.symm⟩
    · exact ⟨'\r', rest, Or.inr rfl, line.symm⟩
  have plain : ∀ start < (text.take first).length,
      startsTerminator ((text.take first ++ newline :: '\\' :: '.' :: rest).drop start) =
        false := by
    intro start inside
    rw [← shape, parts]
    exact minimal start (Nat.lt_of_lt_of_le inside (List.length_take_le first text))
  refine ⟨trim (text.take first), splitQueries rest, ?_, short⟩
  rw [← parts, shape, splitLoop_copyData _ _ (by simp) plain _ rfl,
    splitLoop_terminator newline isNewline rest _ rfl, splitLoop_queries]
  have same : ((text.take first ++ newline :: '\\' :: '.' :: rest).take first) =
      text.take first := by
    rw [← shape, parts]
  simp [Scan.append, splitQueries, same]

theorem splitLoop_part_closed (statement : Statement)
    (noCopy : isCopyStdin (trim statement.text) = false) (rest : List Char)
    (queries : List (List Char)) :
    (splitLoop ((Part.closed statement).text ++ rest) 0 ⟨[], .normal, queries⟩).queries =
      (splitLoop rest 0 ⟨[], .normal,
        queries ++ (Part.closed statement).entries.map Entry.text⟩).queries := by
  rw [Part.text, List.append_assoc, List.singleton_append, statement.read_semicolon, modeAfter,
    noCopy, pushNonEmpty_eq]
  by_cases empty : trim statement.text = [] <;> simp [Part.entries, empty]

theorem splitLoop_part_copy_iff (statement : Statement) (data : List Char)
    (valid : (Part.copy statement data).Valid) (rest : List Char)
    (queries expected : List (List Char)) :
    (splitLoop ((Part.copy statement data).text ++ rest) 0 ⟨[], .normal, queries⟩).queries =
        queries ++ (Part.copy statement data).entries.map Entry.text ++ expected ↔
      Verbatim data ∧ splitQueries rest = expected := by
  obtain ⟨copying, noLine⟩ := valid
  have text : (Part.copy statement data).text ++ rest =
      statement.text ++ ';' :: ('\n' :: data ++ '\n' :: '\\' :: '.' :: rest) := by
    simp [Part.text]
  have entries : queries ++ (Part.copy statement data).entries.map Entry.text ++ expected =
      queries ++ [trim statement.text] ++ data :: expected := by
    simp [Part.entries]
  rw [text, statement.read_copy copying, entries]
  have early := endsEarly_iff data ('\\' :: '.' :: rest) noLine
  by_cases line : "\\.".toList <+: data ∨ "\r\\.".toList <:+: data
  · have visible : "\\.".toList <+: data ∨ data ≠ [] := by
      rcases line with start | inside
      · exact Or.inl start
      · right
        rintro rfl
        simp at inside
    obtain ⟨entry, more, read, short⟩ := splitLoop_data_early data rest
      (queries ++ [trim statement.text]) (early.mpr line) visible
    rw [read]
    refine iff_of_false ?_ ?_
    · intro same
      have first := List.append_cancel_left same
      simp only [List.cons.injEq] at first
      rw [first.1] at short
      exact Nat.lt_irrefl _ short
    · rintro ⟨⟨_, noStart, noInside⟩, _⟩
      rcases line with start | inside
      · exact noStart start
      · exact noInside inside
  · have plain : ∀ start < data.length + 1,
        startsTerminator (('\n' :: data ++ '\n' :: '\\' :: '.' :: rest).drop start) = false := by
      intro start bound
      by_contra terminator
      exact line (early.mp ⟨start, bound, by simpa using terminator⟩)
    rw [splitLoop_data data rest _ plain, List.append_assoc, List.append_cancel_left_eq]
    rw [not_or] at line
    simp only [List.cons_append, List.nil_append, List.cons.injEq, Verbatim]
    tauto

theorem splitLoop_parts_iff (parts : List Part) (valid : ∀ part ∈ parts, part.Valid)
    (tail : List Char) (queries : List (List Char)) :
    (splitLoop (parts.flatMap Part.text ++ tail) 0 ⟨[], .normal, queries⟩).queries =
        queries ++ (parts.flatMap Part.entries).map Entry.text ++ splitQueries tail ↔
      ∀ part ∈ parts, part.Verbatim := by
  induction parts generalizing queries with
  | nil =>
      rw [splitLoop_queries]
      simp [splitQueries]
  | cons part parts ih =>
      have both := List.forall_mem_cons.mp valid
      rw [List.flatMap_cons, List.flatMap_cons, List.append_assoc, List.map_append,
        List.forall_mem_cons]
      cases part with
      | closed statement =>
          rw [splitLoop_part_closed statement both.1, ← List.append_assoc queries, ih both.2]
          simp [Part.Verbatim]
      | copy statement data =>
          rw [← List.append_assoc queries, List.append_assoc (queries ++ _),
            splitLoop_part_copy_iff statement data both.1]
          have rest := ih both.2 []
          rw [List.nil_append] at rest
          exact and_congr Iff.rfl rest

/-- The server takes the entry: a copy statement starts its copy, a data block and any other
statement get a result that is fine. -/
def Served (entry : Entry) (reply : Reply) : Prop :=
  if entry.asData then reply.TookData
  else if isCopyStdin entry.text then reply.status = .copyIn
  else reply.status.accepted = true

def Serves (entries : List Entry) (replies : Nat → Reply) : Prop :=
  ∀ i entry, entries[i]? = some entry → Served entry (replies i)

def Execution.entry (round : Execution) : Entry := { asData := round.asData, text := round.qry }

theorem Serves.append {left right : List Entry} {replies : Nat → Reply}
    (serves : Serves (left ++ right) replies) :
    Serves left replies ∧ Serves right fun i => replies (i + left.length) := by
  constructor
  · intro i entry found
    have bound := (List.getElem?_eq_some_iff.mp found).1
    exact serves i entry (by rwa [List.getElem?_append_left bound])
  · intro i entry found
    apply serves (i + left.length) entry
    rwa [List.getElem?_append_right (by omega), Nat.add_sub_cancel]

theorem execLoop_statement {qry : List Char} {replies : Nat → Reply} {queries : List (List Char)}
    (served : Served { asData := false, text := qry } (replies 0)) :
    (execLoop (qry :: queries) replies false).1.map Execution.entry =
      { asData := false, text := qry } :: (execLoop queries (fun i => replies (i + 1))
        (isCopyStdin qry)).1.map Execution.entry := by
  obtain ⟨round, goesOn⟩ := execQuery_statement qry (replies 0)
  have enters : entersCopyMode qry (replies 0).status = isCopyStdin qry := by
    rw [Bool.eq_iff_iff, entersCopyMode_iff]
    cases copying : isCopyStdin qry with
    | false => simp
    | true =>
        have copyIn : (replies 0).status = .copyIn := by simpa [Served, copying] using served
        simp [copyIn]
  have ends : (execQuery false qry (replies 0)).2 = none := by
    rw [goesOn, enters]
    cases copying : isCopyStdin qry with
    | false => exact Or.inr (by simpa [Served, copying] using served)
    | true => exact Or.inl rfl
  rw [execLoop_cons, ends, round, enters]
  rfl

theorem execLoop_block {qry : List Char} {replies : Nat → Reply} {queries : List (List Char)}
    (served : Served { asData := true, text := qry } (replies 0)) :
    (execLoop (qry :: queries) replies true).1.map Execution.entry =
      { asData := true, text := qry } :: (execLoop queries (fun i => replies (i + 1))
        false).1.map Execution.entry := by
  obtain ⟨round, goesOn⟩ := execQuery_data qry (replies 0)
  rw [execLoop_cons, goesOn.mpr (by simpa [Served] using served), round]
  rfl

theorem execLoop_part (part : Part) (valid : part.Valid) (replies : Nat → Reply)
    (serves : Serves part.entries replies) (queries : List (List Char)) :
    (execLoop (part.entries.map Entry.text ++ queries) replies false).1.map Execution.entry =
      part.entries ++ (execLoop queries (fun i => replies (i + part.entries.length))
        false).1.map Execution.entry := by
  cases part with
  | closed statement =>
      have plain : isCopyStdin (trim statement.text) = false := valid
      by_cases empty : trim statement.text = []
      · simp [Part.entries, empty]
      · have entries : (Part.closed statement).entries =
            [{ asData := false, text := trim statement.text }] := if_neg empty
        rw [entries] at serves ⊢
        rw [List.map_singleton, List.singleton_append, execLoop_statement (serves 0 _ rfl), plain]
        rfl
  | copy statement data =>
      have copying : isCopyStdin (trim statement.text) = true := valid.1
      simp only [Part.entries, List.map_cons, List.map_nil, List.cons_append, List.nil_append]
      rw [execLoop_statement (serves 0 _ rfl), copying, execLoop_block (serves 1 _ rfl)]
      rfl

theorem execLoop_parts (parts : List Part) (valid : ∀ part ∈ parts, part.Valid)
    (replies : Nat → Reply) (serves : Serves (parts.flatMap Part.entries) replies)
    (queries : List (List Char)) :
    parts.flatMap Part.entries <+:
      (execLoop ((parts.flatMap Part.entries).map Entry.text ++ queries) replies
        false).1.map Execution.entry := by
  induction parts generalizing replies with
  | nil => exact List.nil_prefix
  | cons part parts ih =>
      have both := List.forall_mem_cons.mp valid
      rw [List.flatMap_cons] at serves ⊢
      obtain ⟨first, rest⟩ := serves.append
      rw [List.map_append, List.append_assoc, execLoop_part part both.1 replies first,
        List.prefix_append_right_inj]
      exact ih both.2 _ rest

/-- The data of the copy blocks goes through verbatim, and the rest of the script is split as
if it stood alone, exactly when all data is such that neither trimming nor an early
terminator changes it; `exec_queries` then puts these data and executes the statements. -/
theorem copies_verbatim_iff (sql : CopyScript) (tail : List Char) :
    (splitQueries (sql.text ++ tail) = sql.entries.map Entry.text ++ splitQueries tail ∧
      ∀ (db : Database) (answers : ExecAnswers) (result : ExecResult),
        db.execQueries answers (sql.text ++ tail) = some result → db.Begins answers →
        Serves sql.entries answers.replies →
        sql.entries <+: result.rounds.map Execution.entry) ↔
      ∀ part ∈ sql.parts, part.Verbatim := by
  have split := splitLoop_parts_iff sql.parts sql.valid tail []
  rw [List.nil_append] at split
  constructor
  · rintro ⟨same, _⟩
    exact split.mp same
  · intro verbatim
    have same : splitQueries (sql.text ++ tail) =
        sql.entries.map Entry.text ++ splitQueries tail := split.mpr verbatim
    refine ⟨same, ?_⟩
    intro db answers result ran begins serves
    rw [(Database.error_none_iff ran begins).1, same]
    exact execLoop_parts sql.parts sql.valid answers.replies serves _

/-- A row whose first column is empty loses the tab that says so. -/
def tabScript : CopyScript where
  parts := [.copy { pieces := "copy t from stdin".toList.map Piece.plain
                    valid := by decide
                    noComment := by decide } "\t1".toList]
  valid := by
    intro part member
    obtain rfl := List.mem_singleton.mp member
    exact ⟨by decide, by decide⟩

theorem splitQueries_tab_trimmed :
    tabScript.text = "copy t from stdin;\n\t1\n\\.".toList ∧
    splitQueries tabScript.text = ["copy t from stdin".toList, "1".toList] ∧
    splitQueries (tabScript.text ++ []) ≠
      tabScript.entries.map Entry.text ++ splitQueries [] := by
  decide

end PqAsync
