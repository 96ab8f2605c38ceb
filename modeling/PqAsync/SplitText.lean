import PqAsync.SplitCopies
import Mathlib.Data.List.DropRight

/-!
What the splitter does with the text of any script, however its quotes, comments and copies end:
what is sent is the script, in its order, without separators, unless the script ends in the middle
of what the splitter reads at once.
-/

namespace PqAsync

/-- The second text is the first one without some of its separators: blanks, semicolons, comments
and what terminates the data of a copy. -/
inductive Sheds : List Char → List Char → Prop
  | nil : Sheds [] []
  | keep {text kept : List Char} (c : Char) (more : Sheds text kept) : Sheds (c :: text) (c :: kept)
  | blank {text kept : List Char} {c : Char} (space : isSpace c = true) (more : Sheds text kept) :
      Sheds (c :: text) kept
  | semicolon {text kept : List Char} (more : Sheds text kept) : Sheds (';' :: text) kept
  | comment {text kept comment : List Char} (oneLine : '\n' ∉ comment)
      (second : (comment ++ text).head? = some '-') (more : Sheds text kept) :
      Sheds ('-' :: (comment ++ text)) kept
  | terminator {text kept : List Char} {newline : Char} (ends : newline = '\n' ∨ newline = '\r')
      (more : Sheds text kept) : Sheds (newline :: '\\' :: '.' :: text) kept

/-- A text that may end in a place where the splitter reads several characters at once: behind a
doubled quote, or behind a `$` with what it takes for its tag. -/
def EndsInJump (text : List Char) : Prop :=
  text = [] ∨ '$' ∈ text ∨ ['\'', '\''] <:+ text ∨ ['"', '"'] <:+ text

def EmptyAfterCopy (queries : List (List Char)) : Prop :=
  ∀ before after : List (List Char), queries = before ++ [] :: after →
    ∃ copy, before.getLast? = some copy ∧ isCopyStdin copy = true

structure QueriesKept (sql : List Char) (queries : List (List Char)) : Prop where
  sheds : ∃ unfinished, EndsInJump unfinished ∧ Sheds sql (queries.flatten ++ unfinished)
  trimmed : ∀ query ∈ queries, trim query = query
  empty : EmptyAfterCopy queries

namespace Sheds

variable {text kept more also : List Char}

theorem refl (text : List Char) : Sheds text text := by
  induction text with
  | nil => exact nil
  | cons c text ih => exact ih.keep c

theorem append (first : Sheds text kept) (second : Sheds more also) :
    Sheds (text ++ more) (kept ++ also) := by
  induction first with
  | nil => exact second
  | keep c _ ih => exact ih.keep c
  | blank space _ ih => exact ih.blank space
  | semicolon _ ih => exact ih.semicolon
  | @comment text _ comment oneLine dash _ ih =>
      rw [List.cons_append, List.append_assoc]
      refine ih.comment oneLine ?_
      rw [← List.append_assoc, List.head?_append, dash]
      rfl
  | terminator ends _ ih => exact ih.terminator ends

theorem unspaced {before after : List Char} {c : Char} (sheds : Sheds text (before ++ c :: after))
    (space : isSpace c = true) : Sheds text (before ++ after) := by
  generalize all : before ++ c :: after = kept at sheds
  induction sheds generalizing before with
  | nil => simp at all
  | keep first more ih =>
      cases before with
      | nil =>
          obtain ⟨rfl, rfl⟩ := List.cons.inj all
          exact more.blank space
      | cons first before =>
          obtain ⟨rfl, rest⟩ := List.cons.inj all
          exact (ih rest).keep first
  | blank other _ ih => exact (ih all).blank other
  | semicolon _ ih => exact (ih all).semicolon
  | comment oneLine dash _ ih => exact (ih all).comment oneLine dash
  | terminator ends _ ih => exact (ih all).terminator ends

theorem unblank {before after : List Char} (blanks : List Char)
    (sheds : Sheds text (before ++ (blanks ++ after))) (spaces : ∀ c ∈ blanks, isSpace c = true) :
    Sheds text (before ++ after) := by
  induction blanks with
  | nil => exact sheds
  | cons c blanks ih =>
      exact ih (sheds.unspaced (spaces c List.mem_cons_self)) fun other listed =>
        spaces other (List.mem_cons_of_mem c listed)

end Sheds

theorem trim_eq (text : List Char) :
    trim text = (text.dropWhile isSpace).rdropWhile isSpace := rfl

theorem Sheds.trim {text before last : List Char} (sheds : Sheds text (before ++ last)) :
    Sheds text (before ++ PqAsync.trim last) := by
  have front : Sheds text (before ++ last.dropWhile isSpace) := by
    refine unblank (last.takeWhile isSpace) ?_ fun c listed => List.mem_takeWhile_imp listed
    rwa [List.takeWhile_append_dropWhile]
  rw [trim_eq, ← List.append_nil (before ++ _)]
  refine unblank ((last.dropWhile isSpace).rtakeWhile isSpace) ?_ fun c listed =>
    List.mem_rtakeWhile_imp listed
  rwa [List.append_nil, List.append_assoc, List.rdropWhile_append_rtakeWhile]

theorem trim_trim (text : List Char) : trim (trim text) = trim text := by
  have front : (trim text).dropWhile isSpace = trim text := by
    rw [trim_eq, List.dropWhile_eq_self_iff]
    intro some
    have begins := List.rdropWhile_prefix isSpace (text.dropWhile isSpace)
    rw [begins.getElem some]
    exact List.dropWhile_eq_self_iff.mp (List.dropWhile_idempotent isSpace text) _
  rw [trim_eq (trim text), front, trim_eq, List.rdropWhile_idempotent]

theorem dollarTag_starts (text : List Char) : dollarTag text <+: text := by
  induction text with
  | nil => exact List.prefix_rfl
  | cons c text ih =>
      rw [dollarTag]
      split
      · exact ⟨text, rfl⟩
      · exact List.cons_prefix_cons.mpr ⟨rfl, ih⟩

/-- The characters that were read and those that are not, and what the scan has made of them. -/
structure Scan.Kept (read rest : List Char) (state : Scan) : Prop where
  sheds : state.mode ≠ .comment → Sheds read (state.queries.flatten ++ state.curQry)
  comment : state.mode = .comment → ∃ before comment, read = before ++ '-' :: comment ∧
    '\n' ∉ comment ∧ (comment ++ rest).head? = some '-' ∧
      Sheds before (state.queries.flatten ++ state.curQry)
  tag : ∀ dollarQuoteString, state.mode = .dollarQuote dollarQuoteString → dollarQuoteString ≠ []
  trimmed : ∀ query ∈ state.queries, trim query = query
  empty : EmptyAfterCopy state.queries
  copying : state.mode = .copy →
    ∃ copy, state.queries.getLast? = some copy ∧ isCopyStdin copy = true

section

variable {read more : List Char} {queries : List (List Char)} {text : List Char}

theorem EmptyAfterCopy.append (kept : EmptyAfterCopy queries)
    (copied : text = [] → ∃ copy, queries.getLast? = some copy ∧ isCopyStdin copy = true) :
    EmptyAfterCopy (queries ++ [text]) := by
  intro before after split
  rcases List.eq_nil_or_concat after with rfl | ⟨middle, last, rfl⟩
  · obtain ⟨rfl, own⟩ := List.append_inj' split rfl
    exact copied (List.singleton_inj.mp own)
  · rw [List.concat_eq_append, ← List.cons_append, ← List.append_assoc] at split
    exact kept before middle (List.append_inj' split rfl).1

theorem trimmed_append (trimmed : ∀ query ∈ queries, trim query = query) :
    ∀ query ∈ queries ++ [trim text], trim query = query := by
  intro query listed
  rcases List.mem_append.mp listed with old | new
  · exact trimmed query old
  · rw [List.mem_singleton.mp new, trim_trim]

theorem pushNonEmpty_trimmed (trimmed : ∀ query ∈ queries, trim query = query) :
    ∀ query ∈ pushNonEmpty queries (trim text), trim query = query := by
  unfold pushNonEmpty
  split
  · exact trimmed_append trimmed
  · exact trimmed

theorem pushNonEmpty_empty (kept : EmptyAfterCopy queries) :
    EmptyAfterCopy (pushNonEmpty queries text) := by
  unfold pushNonEmpty
  split
  · next some =>
      refine kept.append fun none => ?_
      rw [none] at some
      contradiction
  · exact kept

theorem pushNonEmpty_flatten : (pushNonEmpty queries text).flatten = queries.flatten ++ text := by
  unfold pushNonEmpty
  split
  · rw [List.flatten_append, List.flatten_singleton]
  · next none => rw [List.eq_nil_of_length_eq_zero (Nat.eq_zero_of_not_pos none), List.append_nil]

namespace Scan.Kept

variable {state : Scan} {rest left : List Char}

theorem append (kept : state.Kept read rest) (outside : state.mode ≠ .comment)
    (part : Sheds more text) {mode : Mode} (plain : mode ≠ .comment)
    (copying : mode = .copy → state.mode = .copy)
    (tag : ∀ dollarQuoteString, mode = .dollarQuote dollarQuoteString → dollarQuoteString ≠ []) :
    { state.append text with mode }.Kept (read ++ more) left where
  sheds _ := by
    have appended := (kept.sheds outside).append part
    rwa [List.append_assoc] at appended
  comment inComment := absurd inComment plain
  tag := tag
  trimmed := kept.trimmed
  empty := kept.empty
  copying inCopy := kept.copying (copying inCopy)

theorem stay (kept : state.Kept read rest) (outside : state.mode ≠ .comment)
    (part : Sheds more text) : (state.append text).Kept (read ++ more) left :=
  @append _ _ _ _ _ left kept outside part state.mode outside id kept.tag

theorem next {mode : Mode} (sheds : Sheds (read ++ more) queries.flatten) (plain : mode ≠ .comment)
    (tag : ∀ dollarQuoteString, mode = .dollarQuote dollarQuoteString → dollarQuoteString ≠ [])
    (trimmed : ∀ query ∈ queries, trim query = query) (empty : EmptyAfterCopy queries)
    (copying : mode = .copy → ∃ copy, queries.getLast? = some copy ∧ isCopyStdin copy = true) :
    Scan.Kept (read ++ more) left { curQry := [], mode, queries } where
  sheds _ := by rwa [List.append_nil]
  comment inComment := absurd inComment plain
  tag := tag
  trimmed := trimmed
  empty := empty
  copying := copying

theorem followed (kept : state.Kept read rest) (last : Sheds rest text) :
    Sheds (read ++ rest) (state.queries.flatten ++ state.curQry ++ text) := by
  by_cases inComment : state.mode = .comment
  · obtain ⟨before, comment, rfl, oneLine, second, sheds⟩ := kept.comment inComment
    rw [List.append_assoc, List.cons_append]
    exact sheds.append (last.comment oneLine second)
  · exact (kept.sheds inComment).append last

theorem head {c : Char} (kept : state.Kept read (c :: rest)) : state.Kept read [c] where
  sheds := kept.sheds
  comment inComment := by
    obtain ⟨before, comment, read, oneLine, second, sheds⟩ := kept.comment inComment
    refine ⟨before, comment, read, oneLine, ?_, sheds⟩
    cases comment with
    | nil => exact second
    | cons first comment => exact second
  tag := kept.tag
  trimmed := kept.trimmed
  empty := kept.empty
  copying := kept.copying

end Scan.Kept

section Steps

variable {state : Scan} {c next : Char} {rest : List Char}

theorem stepQuoted_kept (kept : state.Kept read (c :: next :: rest))
    (outside : state.mode ≠ .comment) (quote : Char) :
    (stepQuoted quote c next state).1.Kept
      (read ++ c :: (next :: rest).take (stepQuoted quote c next state).2)
      ((next :: rest).drop (stepQuoted quote c next state).2) := by
  rw [stepQuoted]
  split
  · exact kept.append outside (.refl _) Mode.noConfusion Mode.noConfusion
        fun _ => Mode.noConfusion
  · split
    · exact kept.stay outside (.refl _)
    · exact kept.stay outside (.refl _)

theorem stepDollarQuoted_kept (kept : state.Kept read (c :: rest)) {delimiter : List Char}
    (inMode : state.mode = .dollarQuote delimiter) :
    (stepDollarQuoted delimiter c rest state).1.Kept
      (read ++ c :: rest.take (stepDollarQuoted delimiter c rest state).2)
      (rest.drop (stepDollarQuoted delimiter c rest state).2) := by
  have outside : state.mode ≠ .comment := by
    rw [inMode]
    exact Mode.noConfusion
  rw [stepDollarQuoted]
  split
  · next closes =>
      obtain ⟨first, tag, rfl⟩ := List.exists_cons_of_ne_nil (kept.tag delimiter inMode)
      rw [List.length_cons, List.take_succ_cons] at closes
      rw [List.length_cons, Nat.add_sub_cancel, ← closes.2]
      exact kept.append outside (.refl _) Mode.noConfusion Mode.noConfusion
        fun _ => Mode.noConfusion
  · exact kept.stay outside (.refl _)

theorem stepCopy_kept (kept : state.Kept read (c :: next :: rest)) (inMode : state.mode = .copy) :
    (stepCopy c next (next :: rest) state).1.Kept
      (read ++ c :: (next :: rest).take (stepCopy c next (next :: rest) state).2)
      ((next :: rest).drop (stepCopy c next (next :: rest) state).2) := by
  have outside : state.mode ≠ .comment := by
    rw [inMode]
    exact Mode.noConfusion
  rw [stepCopy]
  split
  · next ends =>
      obtain ⟨newline, rfl, dot⟩ := ends
      cases rest with
      | nil => cases dot
      | cons third rest =>
          obtain rfl : third = '.' := dot
          refine Scan.Kept.next ?_ Mode.noConfusion (fun _ => Mode.noConfusion)
            (trimmed_append kept.trimmed) (kept.empty.append fun _ => kept.copying inMode)
            Mode.noConfusion
          have shed := (kept.sheds outside).trim.append (Sheds.nil.terminator newline)
          rw [List.append_nil] at shed
          rw [List.flatten_append, List.flatten_singleton]
          exact shed
  · exact kept.stay outside (.refl _)

theorem stepNormal_kept (kept : state.Kept read (c :: next :: rest))
    (inMode : state.mode = .normal) : (stepNormal c next (next :: rest) state).1.Kept
      (read ++ c :: (next :: rest).take (stepNormal c next (next :: rest) state).2)
      ((next :: rest).drop (stepNormal c next (next :: rest) state).2) := by
  have outside : state.mode ≠ .comment := by
    rw [inMode]
    exact Mode.noConfusion
  rw [stepNormal]
  split
  · next dashes =>
      obtain ⟨rfl, rfl⟩ := dashes
      exact ⟨fun other => absurd rfl other,
        fun _ => ⟨read, [], rfl, by simp, rfl, kept.sheds outside⟩, fun _ => Mode.noConfusion,
        kept.trimmed, kept.empty, Mode.noConfusion⟩
  split
  · next dollar =>
      rw [← List.prefix_iff_eq_take.mp (dollarTag_starts (next :: rest))]
      refine kept.append outside (.refl _) Mode.noConfusion Mode.noConfusion fun tag same => ?_
      cases same
      exact List.cons_ne_nil _ _
  split
  · exact kept.append outside (.refl _) Mode.noConfusion Mode.noConfusion
        fun _ => Mode.noConfusion
  split
  · exact kept.append outside (.refl _) Mode.noConfusion Mode.noConfusion
        fun _ => Mode.noConfusion
  split
  · next semicolon =>
      subst semicolon
      refine Scan.Kept.next ?_ ?_ ?_ (pushNonEmpty_trimmed kept.trimmed)
        (pushNonEmpty_empty kept.empty) ?_
      · rw [pushNonEmpty_flatten]
        have shed := (kept.sheds outside).trim.append Sheds.nil.semicolon
        rwa [List.append_nil] at shed
      · split <;> exact Mode.noConfusion
      · split <;> exact fun _ => Mode.noConfusion
      · intro inCopy
        have copies : (trim state.curQry).length > 0 ∧ isCopyStdin (trim state.curQry) = true := by
          by_contra other
          rw [if_neg other] at inCopy
          cases inCopy
        refine ⟨trim state.curQry, ?_, copies.2⟩
        rw [pushNonEmpty, if_pos copies.1, List.getLast?_concat]
  · exact kept.stay outside (.refl _)

theorem splitStep_kept (kept : state.Kept read (c :: rest)) (more : rest ≠ []) :
    (splitStep c rest state).1.Kept (read ++ c :: rest.take (splitStep c rest state).2)
      (rest.drop (splitStep c rest state).2) := by
  obtain ⟨next, rest, rfl⟩ := List.exists_cons_of_ne_nil more
  rw [splitStep, if_neg more]
  have outside {mode : Mode} (inMode : state.mode = mode) (other : mode ≠ .comment) :
      state.mode ≠ .comment := inMode ▸ other
  cases mode : state.mode with
  | normal => exact stepNormal_kept kept mode
  | comment =>
      dsimp only
      split
      · next newline =>
          subst newline
          refine ⟨fun _ => ?_, Mode.noConfusion, fun _ => Mode.noConfusion, kept.trimmed,
            kept.empty, Mode.noConfusion⟩
          have shed := kept.head.followed (Sheds.nil.blank rfl)
          rwa [List.append_nil] at shed
      · next other =>
          refine ⟨fun outside => absurd mode outside, fun _ => ?_, kept.tag, kept.trimmed,
            kept.empty, kept.copying⟩
          obtain ⟨before, comment, rfl, oneLine, second, sheds⟩ := kept.comment mode
          refine ⟨before, comment ++ [c], by simp, ?_, by simpa using second, sheds⟩
          simpa [oneLine] using Ne.symm other
  | singleQuote => exact stepQuoted_kept kept (outside mode Mode.noConfusion) '\''
  | doubleQuote => exact stepQuoted_kept kept (outside mode Mode.noConfusion) '"'
  | dollarQuote delimiter => exact stepDollarQuoted_kept kept mode
  | copy => exact stepCopy_kept kept mode

theorem stepQuoted_jumps {quote : Char} (isQuote : quote = '\'' ∨ quote = '"') :
    (stepQuoted quote c next state).2 = 0 ∨
      EndsInJump (stepQuoted quote c next state).1.curQry := by
  rw [stepQuoted]
  split
  · exact Or.inl rfl
  · split
    · next doubled =>
        obtain ⟨rfl, rfl⟩ := doubled
        have ends := List.suffix_append state.curQry [next, next]
        obtain rfl | rfl := isQuote
        · exact Or.inr (Or.inr (Or.inr (Or.inl ends)))
        · exact Or.inr (Or.inr (Or.inr (Or.inr ends)))
    · exact Or.inl rfl

theorem stepDollarQuoted_jumps (delimiter : List Char) :
    (stepDollarQuoted delimiter c rest state).2 = 0 ∨
      EndsInJump (stepDollarQuoted delimiter c rest state).1.curQry := by
  rw [stepDollarQuoted]
  split
  · next closes =>
      obtain ⟨rfl, tag⟩ := closes
      cases delimiter with
      | nil => exact Or.inl rfl
      | cons first delimiter =>
          obtain ⟨rfl, _⟩ := List.cons.inj tag
          exact Or.inr (Or.inr (Or.inl (by simp [Scan.append])))
  · exact Or.inl rfl

theorem stepCopy_jumps :
    (stepCopy c next rest state).2 = 0 ∨ EndsInJump (stepCopy c next rest state).1.curQry := by
  rw [stepCopy]
  split
  · exact Or.inr (Or.inl rfl)
  · exact Or.inl rfl

theorem stepNormal_jumps :
    (stepNormal c next rest state).2 = 0 ∨ EndsInJump (stepNormal c next rest state).1.curQry := by
  rw [stepNormal]
  split
  · exact Or.inl rfl
  split
  · next dollar =>
      subst dollar
      exact Or.inr (Or.inr (Or.inl (by simp [Scan.append])))
  split
  · exact Or.inl rfl
  split
  · exact Or.inl rfl
  split
  · exact Or.inl rfl
  · exact Or.inl rfl

theorem splitStep_jumps (more : rest ≠ []) :
    (splitStep c rest state).2 = 0 ∨ EndsInJump (splitStep c rest state).1.curQry := by
  rw [splitStep, if_neg more]
  cases state.mode with
  | normal => exact stepNormal_jumps
  | comment =>
      dsimp only
      split <;> exact Or.inl rfl
  | singleQuote => exact stepQuoted_jumps (Or.inl rfl)
  | doubleQuote => exact stepQuoted_jumps (Or.inr rfl)
  | dollarQuote delimiter => exact stepDollarQuoted_jumps delimiter
  | copy => exact stepCopy_jumps

end Steps

theorem splitLoop_kept {skip : Nat} {state : Scan}
    (kept : state.Kept (read ++ text.take skip) (text.drop skip))
    (jumps : text.length ≤ skip → EndsInJump state.curQry) :
    QueriesKept (read ++ text) (splitLoop text skip state).queries := by
  induction text generalizing skip state read with
  | nil =>
      rw [List.take_nil, List.drop_nil] at kept
      refine ⟨⟨state.curQry, jumps (Nat.zero_le skip), ?_⟩, kept.trimmed, kept.empty⟩
      have all := kept.followed .nil
      rwa [List.append_nil, List.append_nil (_ ++ _)] at all
  | cons c rest ih =>
      rw [List.append_cons]
      cases skip with
      | succ skip =>
          rw [List.take_succ_cons, List.append_cons] at kept
          exact ih kept fun short => jumps (Nat.succ_le_succ short)
      | zero =>
          rw [List.take_zero, List.append_nil] at kept
          rw [splitLoop_step]
          by_cases last : rest = []
          · subst last
            change QueriesKept _ (splitStep c [] state).1.queries
            rw [splitStep_last, List.append_nil]
            refine ⟨⟨[], Or.inl rfl, ?_⟩, pushNonEmpty_trimmed kept.trimmed,
              pushNonEmpty_empty kept.empty⟩
            rw [List.append_nil, pushNonEmpty_flatten]
            apply Sheds.trim
            split
            · rw [← List.append_assoc]
              exact kept.followed (.refl [c])
            · next semicolon =>
                obtain rfl := not_not.mp semicolon
                have shed := kept.followed Sheds.nil.semicolon
                rwa [List.append_nil] at shed
          · have stepped := splitStep_kept kept last
            rw [List.append_cons] at stepped
            refine ih stepped fun short => ?_
            obtain stays | ends := @splitStep_jumps state c rest last
            · rw [stays, Nat.le_zero, List.length_eq_zero_iff] at short
              exact absurd short last
            · exact ends

end

end PqAsync
