import PqAsync.SplitCore
import PqAsync.TransactionCore

/-!
Executable model of `database_t::exec_queries`: the transaction it opens, and the loop over
the queries of the script.
-/

namespace PqAsync

/-- libpq's `ExecStatusType`, in the order of its values. -/
inductive ExecStatus
  | emptyQuery
  | commandOk
  | tuplesOk
  | copyOut
  | copyIn
  | badResponse
  | nonfatalError
  | fatalError
  | copyBoth
  | singleTuple
  | pipelineSync
  | pipelineAborted
  deriving DecidableEq, Repr

def ExecStatus.value : ExecStatus → Nat
  | .emptyQuery => 0
  | .commandOk => 1
  | .tuplesOk => 2
  | .copyOut => 3
  | .copyIn => 4
  | .badResponse => 5
  | .nonfatalError => 6
  | .fatalError => 7
  | .copyBoth => 8
  | .singleTuple => 9
  | .pipelineSync => 10
  | .pipelineAborted => 11

/-- `PQresStatus` -/
def ExecStatus.name : ExecStatus → String
  | .emptyQuery => "PGRES_EMPTY_QUERY"
  | .commandOk => "PGRES_COMMAND_OK"
  | .tuplesOk => "PGRES_TUPLES_OK"
  | .copyOut => "PGRES_COPY_OUT"
  | .copyIn => "PGRES_COPY_IN"
  | .badResponse => "PGRES_BAD_RESPONSE"
  | .nonfatalError => "PGRES_NONFATAL_ERROR"
  | .fatalError => "PGRES_FATAL_ERROR"
  | .copyBoth => "PGRES_COPY_BOTH"
  | .singleTuple => "PGRES_SINGLE_TUPLE"
  | .pipelineSync => "PGRES_PIPELINE_SYNC"
  | .pipelineAborted => "PGRES_PIPELINE_ABORTED"

def ExecStatus.accepted (status : ExecStatus) : Bool :=
  status = .commandOk || status = .tuplesOk || status = .emptyQuery || status = .nonfatalError

/-- What libpq answers in one round of the loop: the status of the result of `PQexec`, or of
`PQgetResult` after the data, whether `PQputCopyData` and `PQputCopyEnd` return something
other than -1, and `PQerrorMessage`. -/
structure Reply where
  status : ExecStatus
  putCopyData : Bool
  putCopyEnd : Bool
  errorMessage : String
  deriving DecidableEq, Repr

/-- One round of the loop: the entry of the list, whether it was put as copy data or given
to `PQexec`, what was answered, and whether the loop is in copy mode after it. -/
structure Execution where
  qry : List Char
  asData : Bool
  reply : Reply
  entersCopy : Bool
  deriving DecidableEq, Repr

/-- `(result_status & PGRES_COPY_IN) == PGRES_COPY_IN`, and the test of the text. -/
def entersCopyMode (qry : List Char) (status : ExecStatus) : Bool :=
  status.value &&& ExecStatus.copyIn.value = ExecStatus.copyIn.value && isCopyStdin qry

def checkStatus (reply : Reply) : Option String :=
  if reply.status.accepted then none else some (reply.status.name ++ ": " ++ reply.errorMessage)

def execQuery (inCopyMode : Bool) (qry : List Char) (reply : Reply) :
    Execution × Option String :=
  if inCopyMode then
    let round := { qry, asData := true, reply, entersCopy := false }
    if !reply.putCopyData then (round, some ("PQputCopyData failed!\n" ++ reply.errorMessage))
    else if !reply.putCopyEnd then (round, some ("PQputCopyEnd failed!\n" ++ reply.errorMessage))
    else (round, checkStatus reply)
  else
    let entersCopy := entersCopyMode qry reply.status
    let round := { qry, asData := false, reply, entersCopy }
    if entersCopy then (round, none) else (round, checkStatus reply)

def execLoop : List (List Char) → (Nat → Reply) → Bool → List Execution × Option String
  | [], _, _ => ([], none)
  | qry :: queries, replies, inCopyMode =>
      match execQuery inCopyMode qry (replies 0) with
      | (round, some message) => ([round], some message)
      | (round, none) =>
          let (rounds, error) := execLoop queries (fun i => replies (i + 1)) round.entersCopy
          (round :: rounds, error)

structure ExecAnswers where
  begin : BeginAnswers
  replies : Nat → Reply
  /-- the error of the reply to `COMMIT` -/
  commit : Option String

structure ExecResult where
  db : Database
  rounds : List Execution
  error : Option String

namespace Database

/-- `exec_queries`. It reads `_conn` first: a null one ends the program, and there is no
result. -/
def execQueries (db : Database) (answers : ExecAnswers) (sql : List Char) : Option ExecResult :=
  if !db.conn then none
  else if db.inTransaction then
    let (rounds, error) := execLoop (splitQueries sql) answers.replies false
    some { db, rounds, error }
  else
    match db.beginSync answers.begin with
    | (db, some message) => some { db, rounds := [], error := some message }
    | (db, none) =>
        match execLoop (splitQueries sql) answers.replies false with
        | (rounds, some message) => some { db, rounds, error := some message }
        | (rounds, none) =>
            let (db, error) := db.endSync answers.commit
            some { db, rounds, error }

end Database

end PqAsync
