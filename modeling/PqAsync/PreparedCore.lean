import PqAsync.PoolTransactions

/-!
Executable model of the synchronous calls that make, execute and deallocate prepared statements,
over the pool of the databases. What libpq and the server answer is an input: the model follows to
which `PGconn` a command is sent.
-/

namespace PqAsync

/-- `data_prepared_t`, and the session that its name was found in or its `PREPARE` was sent to,
which the object does not keep. -/
structure Prepared where
  db : Nat
  name : List Char
  autoDeallocate : Bool
  lock : Nat
  session : Session
  deriving DecidableEq, Repr

inductive StatementCommand
  | prepare (name sql : List Char)
  | execute (name : List Char)
  | deallocate (name : List Char)
  deriving DecidableEq, Repr

structure PrepareCall where
  db : Nat
  name : List Char
  sql : List Char
  autoDeallocate : Bool
  /-- data types are given; the overload without them passes `false` -/
  typed : Bool
  deriving DecidableEq, Repr

def PrepareCall.newPrepared (call : PrepareCall) (lock : Nat) (session : Session) : Prepared :=
  { db := call.db, name := call.name, autoDeallocate := call.typed && call.autoDeallocate, lock,
    session }

/-- `PQescapeIdentifier(conn, name, strnlen(name, 255))` -/
def deallocatedName (name : List Char) : List Char := name.take 255

/-- A call in the `wait_for_sync()` of a call that it makes: `prepare`, with its lock, of its query
for the name; `deallocate_prepared` of its `execute`, with the lock of the object when a destructor
has called it. -/
inductive PreparedWait
  | prepare (call : PrepareCall) (lock : Nat)
  | deallocate (db : Nat) (name : List Char) (own : Option Nat)
  deriving DecidableEq, Repr

namespace PreparedWait

def db : PreparedWait → Nat
  | .prepare call _ => call.db
  | .deallocate db _ _ => db

def lock : PreparedWait → Option Nat
  | .prepare _ lock => some lock
  | .deallocate _ _ own => own

def command : PreparedWait → StatementCommand
  | .prepare call _ => .prepare call.name call.sql
  | .deallocate _ name _ => .deallocate (deallocatedName name)

end PreparedWait

structure PreparedAnswers where
  now : Int
  dial : Dial
  /-- the reply to the query for the name, if it has one -/
  listed : Option Bool
  taken : Bool
  accepted : Bool
  deriving DecidableEq, Repr

structure PreparedState where
  pool : Pool
  transaction : Nat → Nat
  /-- the objects in the order of their making, without those that are destroyed -/
  handles : List (Option Prepared)
  waiting : List PreparedWait
  sent : List (Session × StatementCommand)
  /-- a null `_conn` was followed, or a destructor threw -/
  ended : Bool

inductive PreparedEvent
  | pool (event : PoolEvent)
  /-- `prepare`, up to the wait of its query -/
  | prepare (call : PrepareCall) (now : Int) (dial : Dial)
  | execute (handle : Nat) (answers : PreparedAnswers)
  /-- `deallocate_prepared`, up to the wait of its `execute` -/
  | deallocate (db : Nat) (name : List Char) (now : Int) (dial : Dial)
  /-- `~data_prepared_t` -/
  | destroy (handle : Nat) (now : Int) (dial : Dial)
  | resume (answers : PreparedAnswers)
  deriving DecidableEq, Repr

namespace PreparedState

def initial (maxConn : Nat) : PreparedState :=
  { pool := .initial maxConn, transaction := fun _ => 0, handles := [], waiting := [], sent := [],
    ended := false }

def applyPool (this : PreparedState) (event : PoolEvent) : PreparedState :=
  let pool := this.pool.apply event
  { this with pool, transaction := event.counted pool this.transaction }

/-- The locks that the objects and the waiting calls have are not dropped by anybody else. -/
def holds (this : PreparedState) (lock : Nat) : Nat :=
  this.handles.countP (fun handle => handle.any fun prepared => prepared.lock = lock) +
    this.waiting.countP fun wait => wait.lock = some lock

def mayHappen (this : PreparedState) : PoolEvent → Bool
  | .dropHeld lock _ => this.holds lock < this.pool.held.count lock
  | _ => true

def openConnection (this : PreparedState) (db : Nat) (now : Int) (dial : Dial) :
    PreparedState × Option Nat :=
  (this.applyPool (.openConnection db now dial), (this.pool.openConnection db now dial).2)

def dropLock (this : PreparedState) (lock : Nat) (now : Int) : PreparedState :=
  this.applyPool (.dropHeld lock now)

def session (this : PreparedState) (conn : Nat) : Session :=
  { conn, transaction := this.transaction conn }

def send (this : PreparedState) (conn : Nat) (command : StatementCommand) : PreparedState :=
  { this with sent := this.sent ++ [(this.session conn, command)] }

def addHandle (this : PreparedState) (prepared : Prepared) : PreparedState :=
  { this with handles := this.handles ++ [some prepared] }

def wait (this : PreparedState) (waiting : List PreparedWait) : PreparedState :=
  { this with waiting }

def terminate (this : PreparedState) : PreparedState := { this with ended := true }

/-- A call of `deallocate_prepared` throws, which ends the program in a destructor. -/
def refuse (this : PreparedState) (own : Option Nat) : PreparedState :=
  if own.isSome then this.terminate else this

def prepare (this : PreparedState) (call : PrepareCall) (now : Int) (dial : Dial) :
    PreparedState :=
  match this.openConnection call.db now dial with
  | (this, none) => this
  | (this, some lock) => this.wait (.prepare call lock :: this.waiting)

/-- The part of `prepare` behind its query, which was sent to the same `PGconn`. -/
def sendPrepare (this : PreparedState) (call : PrepareCall) (lock conn : Nat)
    (answers : PreparedAnswers) : PreparedState :=
  let prepared := call.newPrepared lock (this.session conn)
  match answers.listed with
  | none => this.dropLock lock answers.now
  | some true => this.addHandle prepared
  | some false =>
      if answers.taken then
        let this := this.send conn (.prepare call.name call.sql)
        if answers.accepted then this.addHandle prepared else this.dropLock lock answers.now
      else this.dropLock lock answers.now

/-- The query takes a lock of its own, which is dropped before the `PREPARE` is sent. -/
def resumePrepare (this : PreparedState) (call : PrepareCall) (lock : Nat)
    (answers : PreparedAnswers) : PreparedState :=
  match this.openConnection call.db answers.now answers.dial with
  | (this, none) => this.dropLock lock answers.now
  | (this, some query) =>
      match (this.pool.dbs call.db).conn with
      | none => this.terminate
      | some conn => (this.dropLock query answers.now).sendPrepare call lock conn answers

/-- Executing a prepared statement, and the session that it is sent to, if any. -/
def execute (this : PreparedState) (index : Nat) (answers : PreparedAnswers) :
    PreparedState × Option Session :=
  match (this.handles[index]?).join with
  | none => (this, none)
  | some prepared =>
      match this.openConnection prepared.db answers.now answers.dial with
      | (this, none) => (this, none)
      | (this, some lock) =>
          match (this.pool.dbs prepared.db).conn with
          | none => (this.terminate, none)
          | some conn =>
              if answers.taken then
                ((this.send conn (.execute prepared.name)).dropLock lock answers.now,
                  some (this.session conn))
              else (this.dropLock lock answers.now, none)

/-- `deallocate_prepared`, which lets go of its lock before it executes. -/
def deallocatePrepared (this : PreparedState) (db : Nat) (name : List Char) (own : Option Nat)
    (now : Int) (dial : Dial) : PreparedState :=
  match this.openConnection db now dial with
  | (this, none) => this.refuse own
  | (this, some lock) =>
      match (this.pool.dbs db).conn with
      | none => this.terminate
      | some _ => (this.dropLock lock now).wait (.deallocate db name own :: this.waiting)

def resumeDeallocate (this : PreparedState) (db : Nat) (name : List Char) (own : Option Nat)
    (answers : PreparedAnswers) : PreparedState :=
  match this.openConnection db answers.now answers.dial with
  | (this, none) => this.refuse own
  | (this, some lock) =>
      match (this.pool.dbs db).conn with
      | none => this.terminate
      | some conn =>
          let this :=
            if answers.taken then this.send conn (.deallocate (deallocatedName name)) else this
          let this := this.dropLock lock answers.now
          if answers.taken && answers.accepted then
            own.elim this fun lock => this.dropLock lock answers.now
          else this.refuse own

def destroy (this : PreparedState) (index : Nat) (now : Int) (dial : Dial) : PreparedState :=
  match (this.handles[index]?).join with
  | none => this
  | some prepared =>
      let this := { this with handles := this.handles.set index none }
      if prepared.autoDeallocate then
        this.deallocatePrepared prepared.db prepared.name (some prepared.lock) now dial
      else this.dropLock prepared.lock now

def resume (this : PreparedState) (answers : PreparedAnswers) : PreparedState :=
  match this.waiting with
  | [] => this
  | .prepare call lock :: waiting => (this.wait waiting).resumePrepare call lock answers
  | .deallocate db name own :: waiting => (this.wait waiting).resumeDeallocate db name own answers

def step (this : PreparedState) (event : PreparedEvent) : PreparedState :=
  if this.ended then this
  else
    match event with
    | .pool event => if this.mayHappen event then this.applyPool event else this
    | .prepare call now dial => this.prepare call now dial
    | .execute index answers => (this.execute index answers).1
    | .deallocate db name now dial => this.deallocatePrepared db name none now dial
    | .destroy index now dial => this.destroy index now dial
    | .resume answers => this.resume answers

end PreparedState

end PqAsync
