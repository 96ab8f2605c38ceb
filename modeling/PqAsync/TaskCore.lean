import PqAsync.StrandCore

/-!
Executable model of `connection_task_t` as a state machine, and of the strand that runs such
tasks. What libpq answers during one run of a task is an input of the run.
-/

namespace PqAsync

inductive CommandType
  | none
  | connect
  | query
  | prepare
  | queryPrepared
  | cancel
  | sent
  deriving DecidableEq, Repr

/-- `md::event_requeue_pos`. -/
inductive RequeuePos
  | none
  | front
  deriving DecidableEq, Repr

structure ConnectionTask where
  cmdType : CommandType
  completed : Bool
  /-- `_cb` or `_lock_cb` is set -/
  hasCallback : Bool
  sends : Nat
  /-- the calls of the callback: an error, or a result (a lock for `connect`) -/
  calls : List (Option String)
  deriving DecidableEq, Repr

/-- What `PQconsumeInput`, `PQisBusy` and `PQgetResult` answer; for each result, what the
callback throws when it is given the result. -/
inductive Receiving
  | failed
  | busy
  | ready (results : List (Option String))
  deriving DecidableEq, Repr

structure TaskAnswers where
  connecting : Connecting
  /-- what `_lock_cb` throws when it is given the lock -/
  lockThrows : Option String
  /-- the message of the connection when the command is not taken -/
  sendError : Option String
  cancelError : Option String
  receiving : Receiving
  deriving DecidableEq, Repr

namespace ConnectionTask

def call (task : ConnectionTask) (error : Option String) : ConnectionTask :=
  { task with calls := task.calls ++ [error] }

/-- The callback is called with the exception that `run_task` catches. -/
def caught (task : ConnectionTask) : Option String → ConnectionTask
  | Option.none => task
  | some message => task.call (some message)

/-- `_send_query`, `_send_prepare` and `_send_query_prepared`, which differ in the function
of libpq that they call. -/
def send (task : ConnectionTask) (error : Option String) : ConnectionTask :=
  let task := { task with sends := task.sends + 1 }
  match error with
  | Option.none => { task with cmdType := .sent }
  | some message => task.caught (some message)

def connect (task : ConnectionTask) (answers : TaskAnswers) : ConnectionTask :=
  match answers.connecting with
  | .ready => ({ task with completed := true }.call none).caught answers.lockThrows
  | .unassigned => task
  | .failed message => { task with completed := true }.call (some message)

def cancelCommand (task : ConnectionTask) (error : Option String) : ConnectionTask :=
  match error with
  | Option.none => { task with cmdType := .sent }
  | some message => task.caught (some message)

/-- `while(PGresult* r = PQgetResult(conn())) _cb(nullptr, r);` -/
def giveResults (task : ConnectionTask) : List (Option String) → ConnectionTask
  | [] => task
  | Option.none :: results => (task.call none).giveResults results
  | some thrown :: _ => (task.call none).caught (some thrown)

def consumeData (task : ConnectionTask) : Receiving → ConnectionTask
  | .failed => task.caught (some "Unable to consume input data")
  | .busy => task
  | .ready results => { task with completed := true }.giveResults results

def runTask (task : ConnectionTask) (answers : TaskAnswers) : ConnectionTask :=
  if task.hasCallback then
    match task.cmdType with
    | .none => task
    | .connect => task.connect answers
    | .query => task.send answers.sendError
    | .prepare => task.send answers.sendError
    | .queryPrepared => task.send answers.sendError
    | .cancel => task.cancelCommand answers.cancelError
    | .sent => task.consumeData answers.receiving
  else task

def requeue (task : ConnectionTask) : RequeuePos :=
  if task.completed then .none else .front

/-- `cancel()`, which throws when no command is in progress. -/
def cancel (task : ConnectionTask) : ConnectionTask :=
  if task.cmdType ≠ .sent ∨ task.completed then task else { task with cmdType := .cancel }

end ConnectionTask

inductive Request
  | connect
  | query
  | prepare
  | queryPrepared
  deriving DecidableEq, Repr

def Request.cmdType : Request → CommandType
  | .connect => .connect
  | .query => .query
  | .prepare => .prepare
  | .queryPrepared => .queryPrepared

def Request.task (request : Request) (hasCallback : Bool) : ConnectionTask :=
  { cmdType := request.cmdType, completed := false, hasCallback, sends := 0, calls := [] }

structure TaskStrand where
  queue : List ConnectionTask
  finished : List ConnectionTask
  deriving DecidableEq, Repr

inductive TaskEvent
  | pushBack (request : Request) (hasCallback : Bool)
  | pushFront (request : Request) (hasCallback : Bool)
  | cancel (position : Nat)
  | run (answers : TaskAnswers)
  deriving DecidableEq, Repr

namespace TaskStrand

def initial : TaskStrand := { queue := [], finished := [] }

def runFront (strand : TaskStrand) (answers : TaskAnswers) : TaskStrand :=
  match strand.queue with
  | [] => strand
  | task :: rest =>
      let task := task.runTask answers
      match task.requeue with
      | .none => { queue := rest, finished := strand.finished ++ [task] }
      | .front => { strand with queue := task :: rest }

def apply (strand : TaskStrand) : TaskEvent → TaskStrand
  | .pushBack request hasCallback =>
      { strand with queue := strand.queue ++ [request.task hasCallback] }
  | .pushFront request hasCallback =>
      { strand with queue := request.task hasCallback :: strand.queue }
  | .cancel position => { strand with queue := strand.queue.modify position (·.cancel) }
  | .run answers => strand.runFront answers

end TaskStrand

end PqAsync
