import PqAsync.SplitEndings
import PqAsync.ExecReports

/-!
What `exec_queries` makes of a script: the statements and the data of its copies, each sent once
and in order, as a statement or as data.
-/

namespace PqAsync

inductive ScriptCommand
  | statement (text : List Char)
  | copyData (data : List Char)
  deriving DecidableEq, Repr

def ScriptCommand.text : ScriptCommand → List Char
  | .statement text => text
  | .copyData data => data

def Block.commands : Block → List ScriptCommand
  | .closed statement => ([trim statement.text].filter (· ≠ [])).map .statement
  | .copy statement data _ => [.statement (trim statement.text), .copyData (trim data)]

def Ending.commands : Ending → List ScriptCommand
  | .unclosed statement => ([trim statement.text].filter (· ≠ [])).map .statement
  | .copy statement data =>
      .statement (trim statement.text) :: ([trim data].filter (· ≠ [])).map .copyData

/-- What a script says, white space around the data of a copy apart. -/
def OpenScript.commands (sql : OpenScript) : List ScriptCommand :=
  sql.blocks.flatMap Block.commands ++ sql.ending.commands

def Execution.command (round : Execution) : ScriptCommand :=
  if round.asData then .copyData round.qry else .statement round.qry

/-- The server has done a `COPY ... FROM stdin` before it was given any data. -/
def Execution.Finished (round : Execution) : Prop :=
  round.asData = false ∧ isCopyStdin round.qry = true ∧
    (round.reply.status = .commandOk ∨ round.reply.status = .tuplesOk ∨
      round.reply.status = .emptyQuery)

def Aligned : List ScriptCommand → Bool → Prop
  | [], _ => True
  | .statement text :: commands, false => Aligned commands (isCopyStdin text)
  | .copyData _ :: commands, true => Aligned commands false
  | .statement _ :: _, true => False
  | .copyData _ :: _, false => False

theorem aligned_blocks (blocks : List Block) (valid : ∀ block ∈ blocks, block.Valid)
    (rest : List ScriptCommand) (aligned : Aligned rest false) :
    Aligned (blocks.flatMap Block.commands ++ rest) false := by
  induction blocks with
  | nil => exact aligned
  | cons block blocks ih =>
      obtain ⟨first, others⟩ := List.forall_mem_cons.mp valid
      have later := ih others
      rw [List.flatMap_cons, List.append_assoc]
      cases block with
      | closed statement =>
          by_cases empty : trim statement.text = []
          · simpa [Block.commands, empty] using later
          · simp only [Block.commands, ne_eq, empty, not_false_eq_true, decide_true,
              List.filter_cons_of_pos, List.filter_nil, List.map_cons, List.map_nil,
              List.cons_append, List.nil_append, Aligned]
            rw [first]
            exact later
      | copy statement data newline =>
          simp only [Block.commands, List.cons_append, List.nil_append, Aligned]
          rw [first.1]
          exact later

theorem aligned_ending (ending : Ending) (valid : ending.Valid) :
    Aligned ending.commands false := by
  cases ending with
  | unclosed statement =>
      by_cases empty : trim statement.text = []
      · simp [Ending.commands, empty, Aligned]
      · simp [Ending.commands, empty, Aligned]
  | copy statement data =>
      by_cases empty : trim data = []
      · simp [Ending.commands, empty, Aligned]
      · simp [Ending.commands, empty, Aligned, valid.1]

theorem OpenScript.aligned (sql : OpenScript) : Aligned sql.commands false :=
  aligned_blocks sql.blocks sql.blocksValid _ (aligned_ending sql.ending sql.endingValid)

theorem Block.commands_text (block : Block) :
    block.commands.map ScriptCommand.text = block.queries := by
  cases block with
  | closed statement => simp [commands, queries, ScriptCommand.text, Function.comp_def]
  | copy statement data newline => rfl

theorem Ending.commands_text (ending : Ending) :
    ending.commands.map ScriptCommand.text = ending.queries := by
  cases ending with
  | unclosed statement => simp [commands, queries, ScriptCommand.text, Function.comp_def]
  | copy statement data => simp [commands, queries, ScriptCommand.text, Function.comp_def]

theorem OpenScript.commands_text (sql : OpenScript) :
    sql.commands.map ScriptCommand.text = sql.queries := by
  simp only [commands, queries, List.map_append, List.map_flatMap, Ending.commands_text]
  congr 2
  funext block
  exact block.commands_text

/-- The script with its final semicolon, or without it: then the splitter loses a last statement
that ends in a dollar block. -/
def OpenScript.Reads (sql : OpenScript) (text : List Char) : Prop :=
  text = sql.text ++ [';'] ∨ (text = sql.text ∧ sql.ending.endsInDollar = false)

theorem OpenScript.splitQueries_text {sql : OpenScript} (ends : sql.text.getLast? ≠ some ';')
    {text : List Char} (reads : sql.Reads text) : splitQueries text = sql.queries := by
  have endingEnds : sql.ending.text.getLast? ≠ some ';' := by
    intro last
    apply ends
    simp [OpenScript.text, List.getLast?_append, last]
  rcases reads with rfl | ⟨rfl, whole⟩
  · rw [OpenScript.text, List.append_assoc, splitQueries, splitLoop_blocks _ sql.blocksValid,
      sql.ending.read_semicolon sql.endingValid _ endingEnds]
    rfl
  · rw [OpenScript.text, splitQueries, splitLoop_blocks _ sql.blocksValid,
      sql.ending.read_last sql.endingValid _ endingEnds, whole]
    rfl

theorem entersCopyMode_of_unfinished {qry : List Char} {reply : Reply}
    (copying : isCopyStdin qry = true) (accepted : reply.status.accepted = true)
    (unfinished : ¬ (reply.status = .commandOk ∨ reply.status = .tuplesOk ∨
      reply.status = .emptyQuery)) : entersCopyMode qry reply.status = true := by
  refine (entersCopyMode_iff qry reply.status).mpr ⟨copying, ?_⟩
  cases status : reply.status <;> simp_all [ExecStatus.accepted]

/-- The rounds send what the script says up to the first error, and all of it if there is none. -/
def SendsScript (commands : List ScriptCommand) (result : List Execution × Option String) : Prop :=
  result.1.map Execution.command <+: commands ∧
    (result.2 = none → result.1.map Execution.command = commands)

def CopiesTaken (rounds : List Execution) : Prop := ∀ round ∈ rounds.dropLast, ¬ round.Finished

theorem execLoop_first (command : ScriptCommand) (commands : List ScriptCommand)
    (replies : Nat → Reply) (inCopyMode : Bool) :
    ∃ rest, (execLoop ((command :: commands).map ScriptCommand.text) replies inCopyMode).1 =
      (execQuery inCopyMode command.text (replies 0)).1 :: rest := by
  rw [List.map_cons, execLoop_cons]
  cases (execQuery inCopyMode command.text (replies 0)).2 <;> exact ⟨_, rfl⟩

theorem sends_cons {command : ScriptCommand} {commands : List ScriptCommand} {round : Execution}
    (sent : round.command = command) (rest : List Execution × Option String) :
    SendsScript (command :: commands) (round :: rest.1, rest.2) ↔ SendsScript commands rest := by
  unfold SendsScript
  simp [sent]

theorem copiesTaken_cons {round : Execution} {rounds : List Execution} (some_ : rounds ≠ []) :
    CopiesTaken (round :: rounds) ↔ ¬ round.Finished ∧ CopiesTaken rounds := by
  unfold CopiesTaken
  rw [List.dropLast_cons_of_ne_nil some_, List.forall_mem_cons]

theorem execQuery_command {command : ScriptCommand} {commands : List ScriptCommand}
    {inCopyMode : Bool} (aligned : Aligned (command :: commands) inCopyMode) (reply : Reply) :
    (execQuery inCopyMode command.text reply).1.command = command := by
  cases command with
  | statement text =>
      cases inCopyMode with
      | true => cases aligned
      | false =>
          rw [(execQuery_statement _ _).1]
          rfl
  | copyData data =>
      cases inCopyMode with
      | true =>
          rw [(execQuery_data _ _).1]
          rfl
      | false => cases aligned

theorem execQuery_aligned {command : ScriptCommand} {commands : List ScriptCommand}
    {inCopyMode : Bool} (aligned : Aligned (command :: commands) inCopyMode) {reply : Reply}
    (goesOn : (execQuery inCopyMode command.text reply).2 = none)
    (unfinished : ¬ (execQuery inCopyMode command.text reply).1.Finished) :
    Aligned commands (execQuery inCopyMode command.text reply).1.entersCopy := by
  cases command with
  | statement text =>
      cases inCopyMode with
      | true => cases aligned
      | false =>
          obtain ⟨round, goes⟩ := execQuery_statement text reply
          rw [ScriptCommand.text, round] at unfinished ⊢
          have same : entersCopyMode text reply.status = isCopyStdin text := by
            cases copying : isCopyStdin text with
            | false => simp [entersCopyMode, copying]
            | true =>
                rcases goes.mp goesOn with enters | accepted
                · exact enters
                · exact entersCopyMode_of_unfinished copying accepted
                    fun done => unfinished ⟨rfl, copying, done⟩
          rw [same]
          exact aligned
  | copyData data =>
      cases inCopyMode with
      | true =>
          rw [(execQuery_data _ _).1]
          exact aligned
      | false => cases aligned

theorem execQuery_finished {qry : List Char} {reply : Reply} {inCopyMode : Bool}
    (finished : (execQuery inCopyMode qry reply).1.Finished) :
    inCopyMode = false ∧ isCopyStdin qry = true ∧
      (execQuery inCopyMode qry reply).1.entersCopy = false := by
  cases inCopyMode with
  | true =>
      rw [(execQuery_data _ _).1] at finished
      cases finished.1
  | false =>
      rw [(execQuery_statement _ _).1] at finished ⊢
      obtain ⟨_, copying, status⟩ := finished
      refine ⟨rfl, copying, ?_⟩
      rcases status with status | status | status <;>
        simp_all [entersCopyMode, ExecStatus.value]

theorem execLoop_sends_iff (commands : List ScriptCommand) (replies : Nat → Reply)
    (inCopyMode : Bool) (aligned : Aligned commands inCopyMode) :
    SendsScript commands (execLoop (commands.map ScriptCommand.text) replies inCopyMode) ↔
      CopiesTaken (execLoop (commands.map ScriptCommand.text) replies inCopyMode).1 := by
  induction commands generalizing replies inCopyMode with
  | nil => simp [execLoop, SendsScript, CopiesTaken]
  | cons command commands ih =>
      have sent := execQuery_command aligned (replies 0)
      have mode := @execQuery_aligned _ _ _ aligned (replies 0)
      have done := @execQuery_finished command.text (replies 0) inCopyMode
      rw [List.map_cons, execLoop_cons]
      generalize execQuery inCopyMode command.text (replies 0) = executed at sent mode done ⊢
      obtain ⟨round, error⟩ := executed
      cases error with
      | some message => simp [SendsScript, CopiesTaken, sent]
      | none =>
          dsimp only
          rw [sends_cons sent]
          cases commands with
          | nil => simp [execLoop, SendsScript, CopiesTaken]
          | cons next commands =>
              obtain ⟨rest, first⟩ := execLoop_first next commands (fun i => replies (i + 1))
                round.entersCopy
              rw [copiesTaken_cons (by rw [first]; exact List.cons_ne_nil _ _)]
              by_cases finished : round.Finished
              · obtain ⟨rfl, copying, left⟩ := done finished
                refine iff_of_false (fun sends => ?_) (fun taken => taken.1 finished)
                rw [left] at first sends
                have head := sends.1
                rw [first, List.map_cons, (execQuery_statement next.text _).1] at head
                have isStatement := (List.cons_prefix_cons.mp head).1
                cases command with
                | copyData data => cases aligned
                | statement text =>
                    rw [Aligned, show isCopyStdin text = true from copying] at aligned
                    cases next with
                    | statement text => cases aligned
                    | copyData data => cases isStatement
              · rw [ih _ _ (mode rfl finished)]
                exact (and_iff_right finished).symm

theorem execLoop_sends_all {commands : List ScriptCommand} {replies : Nat → Reply}
    {inCopyMode : Bool}
    (ended : (execLoop (commands.map ScriptCommand.text) replies inCopyMode).2 = none)
    (error : Option String) :
    SendsScript commands ((execLoop (commands.map ScriptCommand.text) replies inCopyMode).1, error) ↔
      SendsScript commands (execLoop (commands.map ScriptCommand.text) replies inCopyMode) := by
  have length := congrArg List.length (execLoop_qry _ _ _ ended)
  generalize execLoop (commands.map ScriptCommand.text) replies inCopyMode = loop at ended length ⊢
  have equal (sent : loop.1.map Execution.command <+: commands) :
      loop.1.map Execution.command = commands :=
    sent.eq_of_length (by simpa using length)
  exact ⟨fun sends => ⟨sends.1, fun _ => equal sends.1⟩, fun sends => ⟨sends.1, fun _ => equal sends.1⟩⟩

namespace Database

end Database

def copyScript : OpenScript where
  blocks := [.copy { pieces := "copy u from stdin".toList.map Piece.plain
                     valid := by decide
                     noComment := by decide } "\n1;\n2".toList '\n']
  ending := .unclosed { pieces := "select 2".toList.map Piece.plain
                        valid := by decide
                        noComment := by decide }
  blocksValid := by simp only [List.mem_singleton, forall_eq]; exact ⟨by decide, by decide⟩
  endingValid := trivial

end PqAsync
