import PqAsync.Library.Runs
import Mathlib.Data.List.Basic

/-!
Executable model of one `database_t` and its strand: the asynchronous calls, the tasks they
queue, and what running the front task does. A callback is what its lambda captures, and
what libpq, the server and the pool answer during one run of a task is an input.
-/

namespace PqAsync

/-- The callback at the end of a query: the caller's own, the lambda of `begin(cb)`, or the
one of `commit(cb)` and `rollback(cb)`. -/
inductive Completion
  | user
  | began
  | ended
  deriving DecidableEq, Repr

structure Query where
  call : Nat
  sql : String
  completion : Completion
  deriving DecidableEq, Repr

/-- `execute` and `query` with the parameters in the call (`_PQ_ASYNC_SEND_QRY_BODY_PARAMS`)
or in a `parameters_t` (`_PQ_ASYNC_SEND_QRY_BODY_T`). -/
inductive Overload
  | variadic
  | parameters
  deriving DecidableEq, Repr

/-- The lambdas given to `open_connection(cb)`. -/
inductive Continuation
  | sendQuery (overload : Overload) (query : Query)
  | begin (call : Nat)
  deriving DecidableEq, Repr

def Continuation.call : Continuation → Nat
  | .sendQuery _ query => query.call
  | .begin call => call

inductive Task
  /-- a `connection_task_t` whose command is `connect` -/
  | connect (continuation : Continuation)
  /-- `std::bind(cb, nullptr, _lock)` -/
  | bound (continuation : Continuation)
  /-- a `connection_task_t` whose command is `query`, or `sent` once it is sent -/
  | query (query : Query) (sent : Bool)
  /-- `std::bind(cb, cb_error(message))` -/
  | refused (call : Nat) (message : String)
  deriving DecidableEq, Repr

structure Callback where
  call : Nat
  error : Option String
  deriving DecidableEq, Repr

structure Sent where
  call : Nat
  sql : String
  deriving DecidableEq, Repr

structure Database where
  strand : List Task
  /-- `_lock` is set -/
  lock : Bool
  /-- `_conn` is not null -/
  conn : Bool
  /-- `_conn->is_in_transaction` -/
  isInTransaction : Bool
  sent : List Sent
  callbacks : List Callback
  nextCall : Nat
  deriving DecidableEq, Repr

/-- How `_connect` ends: with a connection, with `connection_pool_assign_exception`, or with
a time-out or any other exception. -/
inductive Connecting
  | ready
  | unassigned
  | failed (message : String)
  deriving DecidableEq, Repr

/-- How `_consume_data` ends, and the status of the first result when it is there. -/
inductive Consuming
  | ready (error : Option String)
  | busy
  | failed (message : String)
  deriving DecidableEq, Repr

structure Outcome where
  connecting : Connecting
  sendError : Option String
  consuming : Consuming
  /-- the statuses of the results that `PQgetResult` returns behind the first one -/
  moreResults : List (Option String) := []
  deriving DecidableEq, Repr

def Outcome.ok : Outcome := { connecting := .ready, sendError := none, consuming := .ready none }

inductive Call
  | begin
  | commit
  | rollback
  | execute (overload : Overload) (sql : String)
  deriving DecidableEq, Repr

namespace Database

def inTransaction (db : Database) : Bool := db.conn && db.isInTransaction

def pushBack (db : Database) (task : Task) : Database :=
  { db with strand := db.strand ++ [task] }

def pushFront (db : Database) (task : Task) : Database :=
  { db with strand := task :: db.strand }

def callback (db : Database) (call : Nat) (error : Option String) : Database :=
  { db with callbacks := db.callbacks ++ [{ call, error }] }

def openConnection (db : Database) (continuation : Continuation) : Database :=
  if db.lock then db.pushBack (.bound continuation) else db.pushBack (.connect continuation)

def complete (db : Database) (query : Query) (error : Option String) : Database :=
  match query.completion, error with
  | .user, error => db.callback query.call error
  | .began, some message => { db with lock := false }.callback query.call (some message)
  | .began, none => { db with isInTransaction := true }.callback query.call none
  | .ended, some message => { db with lock := false }.callback query.call (some message)
  | .ended, none =>
      { { db with isInTransaction := false }.callback query.call none with lock := false }

/-- `while(PGresult* r = PQgetResult(this->conn())) _cb(nullptr, r)` -/
def completeAll (db : Database) (query : Query) (results : List (Option String)) : Database :=
  results.foldl (fun db error => db.complete query error) db

/-- The lambda of `open_connection(cb)` called with an error. -/
def failContinuation (db : Database) (message : String) : Continuation → Database
  | .sendQuery _ query => db.complete query (some message)
  | .begin call => db.callback call (some message)

/-- The lambda of `open_connection(cb)` called with a lock. -/
def runContinuation (db : Database) : Continuation → Database
  | .sendQuery .variadic query => db.pushFront (.query query false)
  | .sendQuery .parameters query => db.pushBack (.query query false)
  | .begin call =>
      let db := { db with lock := true }
      db.openConnection (.sendQuery .variadic { call, sql := "BEGIN", completion := .began })

def runFront (db : Database) (outcome : Outcome) : Database :=
  match db.strand with
  | [] => db
  | .connect continuation :: rest =>
      match outcome.connecting with
      | .ready => { db with strand := rest, conn := true }.runContinuation continuation
      | .unassigned => db
      | .failed message => { db with strand := rest }.failContinuation message continuation
  | .bound continuation :: rest => { db with strand := rest }.runContinuation continuation
  | .refused call message :: rest => { db with strand := rest }.callback call (some message)
  | .query query false :: rest =>
      match outcome.sendError with
      | none =>
          { db with
            strand := .query query true :: rest
            sent := db.sent ++ [{ call := query.call, sql := query.sql }] }
      | some message => db.complete query (some message)
  | .query query true :: rest =>
      match outcome.consuming with
      | .ready error =>
          { db with strand := rest }.completeAll query (error :: outcome.moreResults)
      | .busy => db
      | .failed message => db.complete query (some message)

def begin (db : Database) (call : Nat) : Database :=
  if db.inTransaction then db.pushBack (.refused call "Already in a transaction!")
  else db.openConnection (.begin call)

/-- `commit(cb)` and `rollback(cb)`, which differ in the command only. -/
def endTransaction (db : Database) (call : Nat) (sql : String) : Database :=
  if db.inTransaction then
    db.openConnection (.sendQuery .variadic { call, sql, completion := .ended })
  else db.pushBack (.refused call "Not in a transaction!")

def commit (db : Database) (call : Nat) : Database := db.endTransaction call "COMMIT"

def rollback (db : Database) (call : Nat) : Database := db.endTransaction call "ROLLBACK"

def execute (db : Database) (call : Nat) (overload : Overload) (sql : String) : Database :=
  db.openConnection (.sendQuery overload { call, sql, completion := .user })

/-- An asynchronous call from outside any callback; calls are numbered as they are made. -/
def call (db : Database) (call : Call) : Database :=
  let called :=
    match call with
    | .begin => db.begin db.nextCall
    | .commit => db.commit db.nextCall
    | .rollback => db.rollback db.nextCall
    | .execute overload sql => db.execute db.nextCall overload sql
  { called with nextCall := db.nextCall + 1 }

end Database

inductive Event
  | call (call : Call)
  | run (outcome : Outcome)
  deriving DecidableEq, Repr

def Database.apply (db : Database) : Event → Database
  | .call call => db.call call
  | .run outcome => db.runFront outcome

/-- A `database_t` before its first asynchronous call: nothing is queued and no transaction
is open, with or without a connection from earlier synchronous calls. -/
def Database.initial (conn : Bool) : Database :=
  { strand := [], lock := false, conn, isInTransaction := false, sent := [], callbacks := [],
    nextCall := 0 }

end PqAsync
