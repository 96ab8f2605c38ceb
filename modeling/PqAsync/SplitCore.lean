import Mathlib.Data.List.Basic

/-!
Executable model of `database_t::split_queries`. A `std::string` is the list of its
characters, and the index `i` of the source is the suffix of the script it points at. The
functions of md and boost on strings that it calls are assumed to do what their names say.
-/

namespace PqAsync

/-- `std::isspace` in the "C" locale, which is what `md::trim` strips. -/
def isSpace (c : Char) : Bool :=
  c == ' ' || c == '\t' || c == '\n' || c == '\x0b' || c == '\x0c' || c == '\r'

def trim (text : List Char) : List Char :=
  ((text.dropWhile isSpace).reverse.dropWhile isSpace).reverse

def istartsWith (text start : List Char) : Bool :=
  (start.map Char.toUpper).isPrefixOf (text.map Char.toUpper)

def iendsWith (text finish : List Char) : Bool :=
  (finish.map Char.toUpper).isSuffixOf (text.map Char.toUpper)

/-- `md::replace_substring_copy(qry, "\n", " ")`. -/
def newlinesToSpaces (text : List Char) : List Char :=
  text.map fun c => if c = '\n' then ' ' else c

/-- The test that switches the splitter, and the executing loop, to copy mode. -/
def isCopyStdin (curQry : List Char) : Bool :=
  let cpQry := newlinesToSpaces curQry
  istartsWith cpQry "copy ".toList && iendsWith cpQry " stdin".toList

/-- The flags `in_comment`, `in_single_quote`, `in_double_quote`, `in_dollar_quote` (with
its `dollar_quote_string`) and `in_copy_mode`. No statement of the loop sets a flag while
another one is set, so the flags are one value. -/
inductive Mode
  | normal
  | comment
  | singleQuote
  | doubleQuote
  | dollarQuote (dollarQuoteString : List Char)
  | copy
  deriving DecidableEq, Repr

structure Scan where
  curQry : List Char
  mode : Mode
  queries : List (List Char)
  deriving DecidableEq, Repr

def Scan.append (state : Scan) (text : List Char) : Scan :=
  { state with curQry := state.curQry ++ text }

/-- `queries.push_back(text)` unless the text is empty. -/
def pushNonEmpty (queries : List (List Char)) (text : List Char) : List (List Char) :=
  if text.length > 0 then queries ++ [text] else queries

/-- The characters after the opening `$` up to and including the next one, or up to the
end of the script when there is none. -/
def dollarTag : List Char → List Char
  | [] => []
  | c :: rest => if c = '$' then [c] else c :: dollarTag rest

/-- Inside `'...'` or `"..."`: a doubled quote stays inside, a single one closes. -/
def stepQuoted (quote : Char) (curChar nextChar : Char) (state : Scan) : Scan × Nat :=
  if curChar = quote ∧ nextChar ≠ quote then
    ({ state.append [curChar] with mode := .normal }, 0)
  else if curChar = quote ∧ nextChar = quote then
    (state.append [curChar, nextChar], 1)
  else
    (state.append [curChar], 0)

def stepDollarQuoted (dollarQuoteString : List Char) (curChar : Char) (rest : List Char)
    (state : Scan) : Scan × Nat :=
  if curChar = '$' ∧
      dollarQuoteString = (curChar :: rest).take dollarQuoteString.length then
    ({ state.append dollarQuoteString with mode := .normal }, dollarQuoteString.length - 1)
  else
    (state.append [curChar], 0)

def stepCopy (curChar nextChar : Char) (rest : List Char) (state : Scan) : Scan × Nat :=
  if (curChar = '\n' ∨ curChar = '\r') ∧ nextChar = '\\' ∧
      rest.tail.headD '\x00' = '.' then
    ({ curQry := [], mode := .normal, queries := state.queries ++ [trim state.curQry] }, 2)
  else
    (state.append [curChar], 0)

def stepNormal (curChar nextChar : Char) (rest : List Char) (state : Scan) : Scan × Nat :=
  if curChar = '-' ∧ nextChar = '-' then
    ({ state with mode := .comment }, 0)
  else if curChar = '$' then
    let dollarQuoteString := curChar :: dollarTag rest
    ({ state.append dollarQuoteString with mode := .dollarQuote dollarQuoteString },
      (dollarTag rest).length)
  else if curChar = '\'' then
    ({ state.append [curChar] with mode := .singleQuote }, 0)
  else if curChar = '"' then
    ({ state.append [curChar] with mode := .doubleQuote }, 0)
  else if curChar = ';' then
    let curQry := trim state.curQry
    let mode := if curQry.length > 0 ∧ isCopyStdin curQry then .copy else .normal
    ({ curQry := [], mode, queries := pushNonEmpty state.queries curQry }, 0)
  else
    (state.append [curChar], 0)

/-- The body of the loop at the character `curChar`, with the text after it. The second
result is what the body adds to `i` itself, before the loop's own `++i`. -/
def splitStep (curChar : Char) (rest : List Char) (state : Scan) : Scan × Nat :=
  let nextChar := rest.headD '\x00'
  if rest = [] then
    -- the last character of the script, tested before every mode
    let curQry := trim (if curChar ≠ ';' then state.curQry ++ [curChar] else state.curQry)
    ({ state with curQry, queries := pushNonEmpty state.queries curQry }, 0)
  else
    match state.mode with
    | .comment =>
        if curChar = '\n' then ({ state with mode := .normal }, 0) else (state, 0)
    | .singleQuote => stepQuoted '\'' curChar nextChar state
    | .doubleQuote => stepQuoted '"' curChar nextChar state
    | .dollarQuote dollarQuoteString => stepDollarQuoted dollarQuoteString curChar rest state
    | .copy => stepCopy curChar nextChar rest state
    | .normal => stepNormal curChar nextChar rest state

/-- The `for` loop; `skip` counts the characters that an iteration has jumped over. -/
def splitLoop : List Char → Nat → Scan → Scan
  | [], _, state => state
  | _ :: rest, skip + 1, state => splitLoop rest skip state
  | curChar :: rest, 0, state =>
      let (next, skip) := splitStep curChar rest state
      splitLoop rest skip next

def splitQueries (sql : List Char) : List (List Char) :=
  (splitLoop sql 0 { curQry := [], mode := .normal, queries := [] }).queries

end PqAsync
