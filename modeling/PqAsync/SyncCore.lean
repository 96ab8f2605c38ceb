import PqAsync.PoolCore

/-!
Executable model of the synchronous calls that use the connection of a `database_t`
directly. Each waits in `wait_for_sync()` first, while the callbacks of the strand do what
they like: use any database of the pool, and make such calls themselves.
-/

namespace PqAsync

namespace Connection

/-- `set_savepoint` and `release_savepoint`, which differ in the command only. -/
def savepoint (conn : Connection) (now : Int) (reply : Bool) : Connection × Bool :=
  (conn.touch now, conn.isInTransaction && reply)

def rollbackSavepoint (conn : Connection) (now : Int) : Connection × Bool :=
  (conn.touch now, conn.isInTransaction)

end Connection

inductive SyncCall
  | commit
  | rollback
  | setSavepoint
  | releaseSavepoint
  | rollbackSavepoint
  | execQueries
  deriving DecidableEq, Repr

/-- The `wait_for_sync()` in which a call is: the one at its start, or the ones in the
`begin()` and the `commit()` that `exec_queries` calls. -/
inductive SyncStage
  | start (call : SyncCall)
  | execBegin
  | execCommit
  deriving DecidableEq, Repr

/-- How a call ends; a null `_conn` that is dereferenced ends the program. -/
inductive CallEnding
  | returned
  | threw
  | nullConn
  deriving DecidableEq, Repr

inductive Progress
  | ended (ending : CallEnding)
  | waits (stage : SyncStage)
  deriving DecidableEq, Repr

/-- What a call meets when its wait is over: the reply to its command, and whether each
statement of the script is accepted. -/
structure SyncAnswers where
  now : Int
  dial : Dial
  reply : Bool
  statements : List Bool
  deriving DecidableEq, Repr

namespace Pool

def working (pool : Pool) (db : Nat) : Bool :=
  match (pool.dbs db).conn with
  | none => false
  | some conn => (pool.mem conn).running != 0

/-- A call of a member function of `_conn`, which returns or throws. -/
def onConn (pool : Pool) (db : Nat) (change : Connection → Connection × Bool) : Pool × CallEnding :=
  match (pool.dbs db).conn with
  | none => (pool, .nullConn)
  | some conn =>
      (pool.modify conn fun conn => (change conn).1,
        if (change (pool.mem conn)).2 then .returned else .threw)

/-- `commit()` and `rollback()` -/
def endTransactionSync (pool : Pool) (db : Nat) (now : Int) (reply : Bool) : Pool × CallEnding :=
  match pool.onConn db (·.endTransaction now reply) with
  | (pool, .returned) => (pool.setLock db none now, .returned)
  | (pool, ending) => (pool, ending)

/-- `begin()` -/
def beginSync (pool : Pool) (db : Nat) (now : Int) (dial : Dial) (reply : Bool) :
    Pool × CallEnding :=
  match pool.openConnection db now dial with
  | (pool, none) => (pool, .threw)
  | (pool, some lock) =>
      (pool.setLock db (some lock) now).onConn db (·.beginTransaction now dial reply)

/-- The loop of `exec_queries`: each round uses `_conn->conn()`. -/
def execStatements (pool : Pool) (db : Nat) : List Bool → CallEnding
  | [] => .returned
  | accepted :: statements =>
      match (pool.dbs db).conn with
      | none => .nullConn
      | some _ => if accepted then pool.execStatements db statements else .threw

/-- What a call does from the end of a `wait_for_sync()` to the next one, or to its end. -/
def advance (pool : Pool) (db : Nat) (answers : SyncAnswers) : SyncStage → Pool × Progress
  | .start .commit => (pool.endTransactionSync db answers.now answers.reply).map id .ended
  | .start .rollback => (pool.endTransactionSync db answers.now answers.reply).map id .ended
  | .start .setSavepoint => (pool.onConn db (·.savepoint answers.now answers.reply)).map id .ended
  | .start .releaseSavepoint =>
      (pool.onConn db (·.savepoint answers.now answers.reply)).map id .ended
  | .start .rollbackSavepoint =>
      (pool.onConn db (·.rollbackSavepoint answers.now)).map id .ended
  | .start .execQueries =>
      match (pool.dbs db).conn with
      | none => (pool, .ended .nullConn)
      | some conn =>
          if (pool.mem conn).isInTransaction then
            (pool, .ended (pool.execStatements db answers.statements))
          else (pool, .waits .execBegin)
  | .execBegin =>
      match pool.beginSync db answers.now answers.dial answers.reply with
      | (pool, .returned) =>
          match pool.execStatements db answers.statements with
          | .returned => (pool, .waits .execCommit)
          | ending => (pool, .ended ending)
      | (pool, ending) => (pool, .ended ending)
  | .execCommit => (pool.endTransactionSync db answers.now answers.reply).map id .ended

end Pool

structure Frame where
  db : Nat
  stage : SyncStage
  /-- the loop of its wait is in `run_n()`, which runs callbacks -/
  running : Bool
  deriving DecidableEq, Repr

structure SyncState where
  pool : Pool
  frames : List Frame
  endings : List CallEnding

inductive SyncEvent
  /-- something else is done with a database of the pool, by a callback if a call waits -/
  | event (event : PoolEvent)
  | call (db : Nat) (call : SyncCall)
  /-- the innermost call tests the condition of its loop -/
  | test (strandEmpty : Bool) (answers : SyncAnswers)
  deriving DecidableEq, Repr

namespace SyncState

def initial (maxConn : Nat) : SyncState :=
  { pool := .initial maxConn, frames := [], endings := [] }

def callable (state : SyncState) : Bool :=
  .nullConn ∉ state.endings && state.frames.head?.all (·.running)

/-- `while(working() && strand.size() > 0)` of the innermost call. -/
def test (state : SyncState) (strandEmpty : Bool) (answers : SyncAnswers) : SyncState :=
  match state.frames with
  | [] => state
  | frame :: frames =>
      if state.pool.working frame.db && !strandEmpty then
        { state with frames := { frame with running := true } :: frames }
      else
        match state.pool.advance frame.db answers frame.stage with
        | (pool, .ended ending) => { pool, frames, endings := state.endings ++ [ending] }
        | (pool, .waits stage) =>
            { state with pool, frames := { frame with stage, running := false } :: frames }

def apply (state : SyncState) : SyncEvent → SyncState
  | .event event =>
      if state.callable then { state with pool := state.pool.apply event } else state
  | .call db call =>
      if state.callable then
        { state with frames := { db, stage := .start call, running := false } :: state.frames }
      else state
  | .test strandEmpty answers =>
      if .nullConn ∉ state.endings then state.test strandEmpty answers else state

end SyncState

end PqAsync
