import PqAsync.StrandCore
import Mathlib.Logic.Function.Basic

/-!
Executable model of a `database_t` with the locks of its connection: which tasks hold them,
what their destructor does, and how `wait_for_sync()` decides that a synchronous call may go
on. The answers of libpq, of the server and of the pool are inputs.

A callback of the user runs until it returns, and may call the database meanwhile; the
callbacks that run and the synchronous calls that wait are a stack. The event strand is
library code: it takes its front task out before it runs it, and puts it back in front if
`requeue()` asks for that. Callbacks do not throw.
-/

namespace PqAsync

/-- A `connection_lock_t`, and the connection that it marks as running. -/
structure ConnectionLock where
  id : Nat
  conn : Nat
  deriving DecidableEq, Repr

/-- The lambdas given to `open_connection(cb)`: the ones of statements, the one of
`query_reader(cb)`, and a caller's own. -/
inductive LockCallback
  | statement (continuation : Continuation)
  | reader (call : Nat) (sql : String)
  /-- of `deallocate_prepared(cb)`, with the command that it executes -/
  | deallocate (call : Nat) (sql : String)
  | caller (call : Nat)
  deriving DecidableEq, Repr

def LockCallback.call : LockCallback → Nat
  | .statement continuation => continuation.call
  | .reader call _ => call
  | .deallocate call _ => call
  | .caller call => call

inductive LockedTask
  | connect (callback : LockCallback)
  | bound (callback : LockCallback) (lock : ConnectionLock)
  | query (query : Query) (sent : Bool) (lock : ConnectionLock)
  /-- a `reader_connection_task` -/
  | reader (call : Nat) (sql : String) (sent : Bool) (lock : ConnectionLock)
  | refused (call : Nat) (message : String)
  deriving DecidableEq, Repr

def LockedTask.lock : LockedTask → Option ConnectionLock
  | .connect _ => none
  | .bound _ lock => some lock
  | .query _ _ lock => some lock
  | .reader _ _ _ lock => some lock
  | .refused _ _ => none

structure Command where
  call : Option Nat
  sql : String
  deriving DecidableEq, Repr

/-- What happens to the locks of a database: `reserve()` of its connection, the destructor of
a lock, and the loss of the connection. -/
inductive LockNote
  | reserved (conn : Nat)
  | stopped (conn : Nat)
  | lost
  deriving DecidableEq, Repr

/-- `_conn`, and `_running` of all connections. -/
structure Link where
  conn : Option Nat
  running : Nat → Nat
  notes : List LockNote

inductive AsyncCall
  | begin
  /-- `commit(cb)` and `rollback(cb)` -/
  | endTransaction (sql : String)
  /-- `set_savepoint(cb)`, `release_savepoint(cb)` and `rollback_savepoint(cb)` -/
  | savepoint (sql : String)
  /-- `execute(cb)`, `query(cb)` and its kin, and `prepare(cb)`, which goes to the back -/
  | execute (overload : Overload) (sql : String)
  | queryReader (sql : String)
  /-- with the name as `PQescapeIdentifier` returns it -/
  | deallocatePrepared (name : String)
  | openConnection
  deriving DecidableEq, Repr

/-- The command of a call; `open_connection(cb)` has none. -/
def AsyncCall.command : AsyncCall → Option String
  | .begin => some "BEGIN"
  | .endTransaction sql => some sql
  | .savepoint sql => some sql
  | .execute _ sql => some sql
  | .queryReader sql => some sql
  | .deallocatePrepared name => some ("DEALLOCATE PREPARE " ++ name)
  | .openConnection => none

inductive SyncCommand
  /-- `execute` and `query` and its kin -/
  | execute (sql : String)
  | begin
  /-- `commit` and `rollback` -/
  | endTransaction (sql : String)
  deriving DecidableEq, Repr

structure SyncWait where
  command : SyncCommand
  /-- how many asynchronous calls were made before it -/
  before : Nat
  /-- the loop of its wait is in `run_n()`, which runs callbacks -/
  running : Bool
  deriving DecidableEq, Repr

inductive Resume
  | leaves
  /-- the task is not completed, and goes back to the front -/
  | requeues (task : LockedTask)
  /-- the lambda of `query_reader(cb)` pushes its task to the back -/
  | queues (task : LockedTask)
  | results (query : Query) (lock : ConnectionLock)
  deriving DecidableEq, Repr

structure CallbackFrame where
  lock : Option ConnectionLock
  /-- the lambda of `commit(cb)` and `rollback(cb)` resets `_lock` behind the callback -/
  resets : Bool := false
  resume : Resume
  deriving DecidableEq, Repr

inductive Activation
  | wait (wait : SyncWait)
  | callback (frame : CallbackFrame)
  deriving DecidableEq, Repr

def Activation.lock : Activation → Option ConnectionLock
  | .wait _ => none
  | .callback frame => frame.lock

/-- How `_connect` ends: with `connection_pool_assign_exception`, with a time-out or another
exception before the connection is reserved, or with an exception of its `open_connection()`
or without one. `conn` is the connection that `get_connection` returns if it is called, and
`reopened` tells whether the `PGconn` was broken. -/
inductive Reserving
  | unassigned
  | failed (message : String)
  | notOpened (conn : Nat) (reopened : Bool) (message : String)
  | ready (conn : Nat) (reopened : Bool)
  deriving DecidableEq, Repr

structure TaskOutcome where
  reserving : Reserving
  sendError : Option String
  consuming : Consuming
  /-- `PQgetResult` returns null to a reader -/
  exhausted : Bool
  deriving DecidableEq, Repr

/-- The answers to the calls that a synchronous call may make when its wait is over. -/
structure SyncOutcome where
  /-- what `get_connection` returns; it throws otherwise -/
  conn : Option Nat
  reopened : Bool
  opens : Bool
  /-- of the `open_connection()` in `begin_transaction()` -/
  beginReopened : Bool
  beginOpens : Bool
  accepted : Bool
  /-- the reply to `BEGIN`, `COMMIT` or `ROLLBACK` is OK -/
  reply : Bool
  deriving DecidableEq, Repr

structure LockedDatabase where
  link : Link
  /-- `_lock` -/
  lock : Option ConnectionLock
  isInTransaction : Nat → Bool
  strand : List LockedTask
  /-- the callbacks that run and the synchronous calls that wait, the innermost first -/
  stack : List Activation
  kept : List ConnectionLock
  nextLock : Nat
  sent : List Command
  callbacks : List Callback
  /-- the commands of the asynchronous calls, by their number -/
  calls : List (Option String)

namespace Link

def reserve (link : Link) (conn : Nat) : Link :=
  { conn := some conn, running := Function.update link.running conn 2,
    notes := .reserved conn :: link.notes }

def startWork (link : Link) (conn : Nat) : Link :=
  { link with running := Function.update link.running conn 1 }

def stopWork (link : Link) (conn : Nat) : Link :=
  { link with
    running := Function.update link.running conn 0
    notes := .stopped conn :: link.notes }

def lose (link : Link) : Link := { link with conn := none, notes := .lost :: link.notes }

def working (link : Link) : Bool :=
  match link.conn with
  | none => false
  | some conn => link.running conn != 0

end Link

namespace LockedDatabase

def initial : LockedDatabase :=
  { link := { conn := none, running := fun _ => 0, notes := [] }, lock := none,
    isInTransaction := fun _ => false, strand := [], stack := [], kept := [], nextLock := 0,
    sent := [], callbacks := [], calls := [] }

def working (db : LockedDatabase) : Bool := db.link.working

def inTransaction (db : LockedDatabase) : Bool :=
  match db.link.conn with
  | none => false
  | some conn => db.isInTransaction conn

def setInTransaction (db : LockedDatabase) (value : Bool) : LockedDatabase :=
  match db.link.conn with
  | none => db
  | some conn => { db with isInTransaction := Function.update db.isInTransaction conn value }

def holders (db : LockedDatabase) : List ConnectionLock :=
  db.lock.toList ++ db.strand.filterMap LockedTask.lock ++
    db.stack.filterMap Activation.lock ++ db.kept

def dropLock (db : LockedDatabase) (lock : ConnectionLock) : LockedDatabase :=
  if lock ∈ db.holders then db else { db with link := db.link.stopWork lock.conn }

/-- `_lock = lock` -/
def setLock (db : LockedDatabase) (lock : Option ConnectionLock) : LockedDatabase :=
  match db.lock with
  | none => { db with lock }
  | some old => { db with lock }.dropLock old

def keepLock (db : LockedDatabase) (keeps : Bool) (lock : Option ConnectionLock) :
    LockedDatabase :=
  if keeps then { db with kept := lock.toList ++ db.kept } else db

/-- `new connection_lock_t(_conn)`, after the connection was reserved. -/
def newLock (db : LockedDatabase) (conn : Nat) : LockedDatabase × ConnectionLock :=
  ({ db with link := db.link.startWork conn, nextLock := db.nextLock + 1 },
    { id := db.nextLock, conn })

/-- `if(_conn == NULL) _conn = get_connection(...)` and `_conn->reserve()`. -/
def reserve (db : LockedDatabase) (conn : Nat) : LockedDatabase × Nat :=
  let conn := db.link.conn.getD conn
  ({ db with link := db.link.reserve conn }, conn)

/-- `connection::open_connection()` closes a `PGconn` that is broken. -/
def reopen (db : LockedDatabase) (reopened : Bool) : LockedDatabase :=
  if reopened then db.setInTransaction false else db

def freeLock (db : LockedDatabase) (lock : ConnectionLock) : LockedDatabase :=
  if lock ∈ db.kept then { db with kept := db.kept.erase lock }.dropLock lock else db

def pushBack (db : LockedDatabase) (task : LockedTask) : LockedDatabase :=
  { db with strand := db.strand ++ [task] }

def pushFront (db : LockedDatabase) (task : LockedTask) : LockedDatabase :=
  { db with strand := task :: db.strand }

def callback (db : LockedDatabase) (call : Nat) (error : Option String) : LockedDatabase :=
  { db with callbacks := db.callbacks ++ [{ call, error }] }

def openConnection (db : LockedDatabase) (callback : LockCallback) : LockedDatabase :=
  match db.lock with
  | some lock => db.pushBack (.bound callback lock)
  | none => db.pushBack (.connect callback)

def enter (db : LockedDatabase) (frame : CallbackFrame) : LockedDatabase :=
  { db with stack := .callback frame :: db.stack }

def complete (db : LockedDatabase) (query : Query) (error : Option String) : LockedDatabase :=
  match query.completion, error with
  | .user, error => db.callback query.call error
  | .began, some message => (db.setLock none).callback query.call (some message)
  | .began, none => (db.setInTransaction true).callback query.call none
  | .ended, some message => (db.setLock none).callback query.call (some message)
  | .ended, none => (db.setInTransaction false).callback query.call none

def giveResult (db : LockedDatabase) (query : Query) (lock : ConnectionLock)
    (error : Option String) : LockedDatabase :=
  let resets := query.completion == .ended && error.isNone
  (db.enter { lock := some lock, resets, resume := .results query lock }).complete query error

/-- The lambda of `open_connection(cb)` called with an error. -/
def failCallback (db : LockedDatabase) (message : String) (callback : LockCallback) :
    LockedDatabase :=
  let db := db.enter { lock := none, resume := .leaves }
  match callback with
  | .statement (.sendQuery _ query) => db.complete query (some message)
  | callback => db.callback callback.call (some message)

/-- The lambda of `open_connection(cb)` called with a lock. -/
def runCallback (db : LockedDatabase) (lock : ConnectionLock) : LockCallback → LockedDatabase
  | .statement (.sendQuery .variadic query) =>
      (db.pushFront (.query query false lock)).dropLock lock
  | .statement (.sendQuery .parameters query) =>
      (db.pushBack (.query query false lock)).dropLock lock
  | .statement (.begin call) =>
      let begins := Continuation.sendQuery .variadic { call, sql := "BEGIN", completion := .began }
      ((db.setLock (some lock)).openConnection (.statement begins)).dropLock lock
  | .deallocate call sql =>
      let executes := Continuation.sendQuery .variadic { call, sql, completion := .user }
      (db.openConnection (.statement executes)).dropLock lock
  | .reader call sql =>
      let resume := Resume.queues (.reader call sql false lock)
      (db.enter { lock := some lock, resume }).callback call none
  | .caller call => (db.enter { lock := some lock, resume := .leaves }).callback call none

/-- `connection_task_t::_connect` of the front task. -/
def connect (db : LockedDatabase) (rest : List LockedTask) (callback : LockCallback)
    (outcome : TaskOutcome) : LockedDatabase :=
  match outcome.reserving with
  | .unassigned => db
  | .failed message => { db with strand := rest }.failCallback message callback
  | .notOpened conn reopened message =>
      let (db, _) := { db with strand := rest }.reserve conn
      (db.reopen reopened).failCallback message callback
  | .ready conn reopened =>
      let (db, conn) := { db with strand := rest }.reserve conn
      let (db, lock) := (db.reopen reopened).newLock conn
      db.runCallback lock callback

def runFront (db : LockedDatabase) (outcome : TaskOutcome) : LockedDatabase :=
  match db.strand with
  | [] => db
  | .connect callback :: rest => db.connect rest callback outcome
  | .bound callback lock :: rest => { db with strand := rest }.runCallback lock callback
  | .refused call message :: rest =>
      let db := { db with strand := rest }.enter { lock := none, resume := .leaves }
      db.callback call (some message)
  | .query query false lock :: rest =>
      match outcome.sendError with
      | none =>
          { db with
            strand := .query query true lock :: rest
            sent := db.sent ++ [{ call := some query.call, sql := query.sql }] }
      | some message =>
          let resume := Resume.requeues (.query query false lock)
          let db := { db with strand := rest }.enter { lock := some lock, resume }
          db.complete query (some message)
  | .query query true lock :: rest =>
      match outcome.consuming with
      | .busy => db
      | .failed message =>
          let resume := Resume.requeues (.query query true lock)
          let db := { db with strand := rest }.enter { lock := some lock, resume }
          db.complete query (some message)
      | .ready error => { db with strand := rest }.giveResult query lock error
  | .reader call sql false lock :: rest =>
      match outcome.sendError with
      | none =>
          { db with
            strand := .reader call sql true lock :: rest
            sent := db.sent ++ [{ call := some call, sql }] }
      | some _ =>
          let resume := Resume.requeues (.reader call sql false lock)
          { db with strand := rest }.enter { lock := some lock, resume }
  | .reader call sql true lock :: rest =>
      -- the rows go to the callbacks that the reader is given
      let requeues := Resume.requeues (.reader call sql true lock)
      match outcome.consuming with
      | .busy => db
      | .failed _ => { db with strand := rest }.enter { lock := some lock, resume := requeues }
      | .ready _ =>
          let resume := if outcome.exhausted then .leaves else requeues
          { db with strand := rest }.enter { lock := some lock, resume }

/-- The rest of the run of a task. It lets go of its lock at the end; a task that is queued
again has the lock too. -/
def resume (db : LockedDatabase) (frame : CallbackFrame) (next : Option (Option String)) :
    LockedDatabase :=
  let db := match frame.resume, next with
    | .leaves, _ => db
    | .requeues task, _ => db.pushFront task
    | .queues task, _ => db.pushBack task
    | .results query lock, some error => db.giveResult query lock error
    | .results _ _, none => db
  frame.lock.elim db db.dropLock

/-- The innermost callback returns. It may keep the lock that it was given, itself or in a
prepared statement or a reader; `next` is the next result of a query, if there is one. -/
def returns (db : LockedDatabase) (keeps : Bool) (next : Option (Option String)) :
    LockedDatabase :=
  match db.stack with
  | .callback frame :: stack =>
      -- the task and its lock are still there when `_lock` is reset
      let db := (if frame.resets then db.setLock none else db).keepLock keeps frame.lock
      { db with stack }.resume frame next
  | _ => db

/-- An asynchronous call; calls are numbered as they are made. -/
def call (db : LockedDatabase) (call : AsyncCall) : LockedDatabase :=
  let number := db.calls.length
  let db := { db with calls := db.calls ++ [call.command] }
  let execute (overload : Overload) (sql : String) (completion : Completion) :=
    db.openConnection (.statement (.sendQuery overload { call := number, sql, completion }))
  let refuse (message : String) := db.pushBack (.refused number message)
  match call with
  | .begin =>
      if db.inTransaction then refuse "Already in a transaction!"
      else db.openConnection (.statement (.begin number))
  | .endTransaction sql =>
      if db.inTransaction then execute .variadic sql .ended
      else refuse "Not in a transaction!"
  | .savepoint sql =>
      if db.inTransaction then execute .variadic sql .user
      else refuse "Not in a transaction!"
  | .execute overload sql => execute overload sql .user
  | .queryReader sql => db.openConnection (.reader number sql)
  | .deallocatePrepared name =>
      db.openConnection (.deallocate number ("DEALLOCATE PREPARE " ++ name))
  | .openConnection => db.openConnection (.caller number)

/-- `open_connection()`; the caller has the lock. -/
def openConnectionSync (db : LockedDatabase) (outcome : SyncOutcome) :
    LockedDatabase × Option ConnectionLock :=
  match db.lock with
  | some lock => (db, some lock)
  | none =>
      match db.link.conn.or outcome.conn with
      | none => (db, none)
      | some conn =>
          let (db, conn) := db.reserve conn
          let (db, lock) := db.newLock conn
          let db := db.reopen outcome.reopened
          if outcome.opens then (db, some lock) else (db.dropLock lock, none)

def sendSync (db : LockedDatabase) (sql : String) : LockedDatabase :=
  { db with sent := db.sent ++ [{ call := none, sql }] }

def finish (db : LockedDatabase) (outcome : SyncOutcome) :
    SyncCommand → LockedDatabase × Bool
  | .execute sql =>
      match db.openConnectionSync outcome with
      | (db, none) => (db, false)
      | (db, some lock) =>
          if outcome.accepted then ((db.sendSync sql).dropLock lock, true)
          else (db.dropLock lock, false)
  | .begin =>
      match db.openConnectionSync outcome with
      | (db, none) => (db, false)
      | (db, some lock) =>
          let db := db.setLock (some lock)
          if db.link.conn = none ∨ db.inTransaction = true then (db, false)
          else
            let db := db.reopen outcome.beginReopened
            if outcome.beginOpens && outcome.accepted then
              ((db.sendSync "BEGIN").setInTransaction outcome.reply, true)
            else (db, false)
  | .endTransaction sql =>
      if db.inTransaction && outcome.accepted then
        let db := db.sendSync sql
        if outcome.reply then ((db.setInTransaction false).setLock none, true) else (db, true)
      else (db, false)

/-- `while(working() && _strand->size() > 0)` -/
def loops (db : LockedDatabase) : Bool := db.working && !db.strand.isEmpty

/-- The innermost synchronous call tests the condition of its loop. -/
def test (db : LockedDatabase) (outcome : SyncOutcome) : LockedDatabase :=
  match db.stack with
  | .wait wait :: stack =>
      if db.loops then { db with stack := .wait { wait with running := true } :: stack }
      else ({ db with stack }.finish outcome wait.command).1
  | _ => db

end LockedDatabase

inductive LockEvent
  | call (call : AsyncCall)
  | run (outcome : TaskOutcome)
  | returns (keeps : Bool) (next : Option (Option String))
  | sync (command : SyncCommand)
  | test (outcome : SyncOutcome)
  | free (lock : ConnectionLock)
  /-- `_conn` is set to null, by `close()` or for another database -/
  | lose
  deriving DecidableEq, Repr

namespace LockedDatabase

def act (db : LockedDatabase) : LockEvent → LockedDatabase
  | .call call => db.call call
  | .run outcome => db.runFront outcome
  | .returns keeps next => db.returns keeps next
  | .sync command =>
      let wait := { command, before := db.calls.length, running := false }
      { db with stack := .wait wait :: db.stack }
  | .test outcome => db.test outcome
  | .free lock => db.freeLock lock
  | .lose => { db with link := db.link.lose }

/-- While the loop of the innermost call is not in `run_n()`, its test comes next. -/
def allows (db : LockedDatabase) : LockEvent → Bool
  | .test _ => true
  | _ =>
      match db.stack with
      | .wait wait :: _ => wait.running
      | _ => true

def apply (db : LockedDatabase) (event : LockEvent) : LockedDatabase :=
  if db.allows event then db.act event else db

end LockedDatabase

end PqAsync
