import PqAsync.StrandCore

/-!
The synchronous transaction functions of a `database_t`, from the state in which
`wait_for_sync()` leaves it. An exception is the text it carries.
-/

namespace PqAsync

/-- How `connection::open_connection()` goes: the `PGconn` is there and fine, a new one is
connected, or connecting fails. A broken one is closed before, which clears the flag of the
transaction. -/
inductive Reopening
  | kept
  | connected
  | failed (message : String)
  deriving DecidableEq, Repr

structure BeginAnswers where
  /-- why `get_connection` throws -/
  unassigned : Option String
  opening : Reopening
  /-- of the `open_connection()` in `begin_transaction()` -/
  reopening : Reopening
  /-- the error of the server's reply to `BEGIN` -/
  reply : Option String
  deriving DecidableEq, Repr

namespace Database

def reopen (db : Database) : Reopening → Database × Option String
  | .kept => (db, none)
  | .connected => ({ db with isInTransaction := false }, none)
  | .failed message => ({ db with isInTransaction := false }, some message)

/-- `open_connection()`; its lock is kept by the caller. -/
def openConnectionSync (db : Database) (answers : BeginAnswers) : Database × Option String :=
  if db.lock then (db, none)
  else
    match db.conn, answers.unassigned with
    | false, some message => (db, some message)
    | _, _ => { db with conn := true }.reopen answers.opening

def beginTransaction (db : Database) (answers : BeginAnswers) : Database × Option String :=
  if db.isInTransaction then (db, some "Already in a transaction!")
  else
    match db.reopen answers.reopening, answers.reply with
    | (db, some message), _ => (db, some message)
    | (db, none), none => ({ db with isInTransaction := true }, none)
    | (db, none), some message => (db, some message)

/-- `begin()` -/
def beginSync (db : Database) (answers : BeginAnswers) : Database × Option String :=
  match db.openConnectionSync answers with
  | (db, some message) => (db, some message)
  | (db, none) => { db with lock := true }.beginTransaction answers

/-- `commit_transaction()` and `rollback_transaction()`, given the error of the reply. -/
def endTransactionSync (db : Database) (reply : Option String) : Database × Option String :=
  if db.isInTransaction then
    match reply with
    | none => ({ db with isInTransaction := false }, none)
    | some message => (db, some message)
  else (db, some "Not in a transaction!")

/-- `commit()` and `rollback()` -/
def endSync (db : Database) (reply : Option String) : Database × Option String :=
  match db.endTransactionSync reply with
  | (db, none) => ({ db with lock := false }, none)
  | (db, some message) => (db, some message)

end Database

end PqAsync
