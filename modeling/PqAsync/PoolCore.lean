import PqAsync.Library.Runs
import Mathlib.Data.Char
import Mathlib.Data.List.Lex
import Mathlib.Logic.Function.Basic

/-!
Executable model of a `connection_pool` (the vector of one connection string) and of the
`database_t` objects that share it. Pointers are numbers, the memory of connections is a
function, and a clock value or an answer of libpq that an operation reads is an input of it.
-/

namespace PqAsync

structure Connection where
  res : Int
  running : Nat
  isInTransaction : Bool
  /-- the `PGconn` is not null -/
  opened : Bool
  owner : Option Nat
  lastModificationDate : Int
  deriving DecidableEq, Repr

/-- What libpq answers while a connection is opened: the status of a `PGconn` that is there
already, whether a new one connects, and whether it can be made non blocking. -/
structure Dial where
  broken : Bool
  connects : Bool
  nonBlocking : Bool
  deriving DecidableEq, Repr

namespace Connection

def new (now : Int) : Connection :=
  { res := 0, running := 0, isInTransaction := false, opened := false, owner := none,
    lastModificationDate := now }

def touch (conn : Connection) (now : Int) : Connection :=
  { conn with lastModificationDate := now }

def reserve (conn : Connection) (now : Int) : Connection :=
  { conn with running := 2 }.touch now

def startWork (conn : Connection) (now : Int) : Connection :=
  (if conn.running = 0 ∨ conn.running = 2 then { conn with running := 1 } else conn).touch now

def stopWork (conn : Connection) (now : Int) : Connection :=
  { conn with running := 0 }.touch now

def canBeStolen (conn : Connection) : Bool := !conn.isInTransaction && conn.running == 0

def lock (conn : Connection) (now : Int) : Connection × Bool :=
  if conn.res = 0 then ({ conn with res := 1 }.stopWork now, true) else (conn, false)

/-- `now() - seconds(-15)`, in nanoseconds, is later than now. -/
def isDead (conn : Connection) (now : Int) : Bool :=
  if conn.isInTransaction || conn.res > 0 then false
  else conn.lastModificationDate < now - (-15) * 1000000000

def closeConnection (conn : Connection) (now : Int) : Connection :=
  let conn := conn.touch now
  if conn.opened then { conn with opened := false, isInTransaction := false } else conn

/-- The connection, and whether `open_connection` returns; it throws otherwise. -/
def openConnection (conn : Connection) (now : Int) (dial : Dial) : Connection × Bool :=
  let conn := conn.touch now
  let conn := if conn.opened && dial.broken then conn.closeConnection now else conn
  if conn.opened then (conn, true)
  else ({ conn with opened := dial.connects }, dial.connects && dial.nonBlocking)

/-- `begin_transaction`; `reply` tells if the server's result is OK. -/
def beginTransaction (conn : Connection) (now : Int) (dial : Dial) (reply : Bool) :
    Connection × Bool :=
  if conn.isInTransaction then (conn, false)
  else
    let (conn, isOpen) := conn.openConnection now dial
    if isOpen then ({ conn with isInTransaction := reply }, reply)
    else (conn, false)

/-- `commit_transaction` and `rollback_transaction`, which differ in the command only. -/
def endTransaction (conn : Connection) (now : Int) (reply : Bool) : Connection × Bool :=
  let conn := conn.touch now
  if conn.isInTransaction then ({ conn with isInTransaction := !reply }, reply)
  else (conn, false)

/-- `release`; it throws when the `ROLLBACK` of an open transaction fails. -/
def release (conn : Connection) (now : Int) (reply : Bool) : Connection × Bool :=
  let conn := { conn with owner := none }
  if conn.isInTransaction && !reply then (conn, false)
  else
    let conn := { conn with isInTransaction := false }
    let conn := if conn.res > 0 then { conn with res := 0 } else conn
    (conn.stopWork now, true)

end Connection

/-- The fields `_conn` and `_lock` of a `database_t`. -/
structure Holder where
  conn : Option Nat
  lock : Option Nat
  deriving DecidableEq, Repr

/-- A `connection_lock_t` object and the use count of the shared pointers to it. -/
structure LockObject where
  conn : Nat
  uses : Nat
  deriving DecidableEq, Repr

structure Pool where
  cons : List Nat
  mem : Nat → Connection
  dbs : Nat → Holder
  locks : Nat → LockObject
  /-- the shared pointers to locks that tasks and callers hold -/
  held : List Nat
  nextId : Nat
  nextLock : Nat
  /-- static in the source: one text for the pools of all connection strings -/
  lastStolenConnId : List Char
  maxConn : Nat

def connectionId (conn : Nat) : List Char := Nat.toDigits 10 conn

namespace Pool

def initial (maxConn : Nat) : Pool :=
  { cons := [], mem := fun _ => .new 0, dbs := fun _ => { conn := none, lock := none },
    locks := fun _ => { conn := 0, uses := 0 }, held := [], nextId := 0, nextLock := 0,
    lastStolenConnId := [], maxConn }

def modify (pool : Pool) (conn : Nat) (change : Connection → Connection) : Pool :=
  { pool with mem := Function.update pool.mem conn (change (pool.mem conn)) }

def setConn (pool : Pool) (db : Nat) (conn : Option Nat) : Pool :=
  { pool with dbs := Function.update pool.dbs db { pool.dbs db with conn } }

/-- `if(con->_owner) con->_owner->_conn = NULL` -/
def detachOwner (pool : Pool) (conn : Nat) : Pool :=
  match (pool.mem conn).owner with
  | some owner => pool.setConn owner none
  | none => pool

/-- The body of the clean-up loop at index `i`. -/
def cleanupAt (pool : Pool) (now : Int) (i : Nat) : Pool :=
  match pool.cons[i]? with
  | none => pool
  | some conn =>
      if (pool.mem conn).isDead now then
        let pool := pool.detachOwner conn
        -- `delete`: the entry of `mem` stays, but the id is in no vector and never comes again
        { pool with cons := pool.cons.eraseIdx i }
      else pool

/-- The clean-up loop from index `count + 4` down to index 5. -/
def cleanupLoop (now : Int) : Nat → Pool → Pool
  | 0, pool => pool
  | count + 1, pool => cleanupLoop now count (pool.cleanupAt now (count + 5))

def cleanup (pool : Pool) (now : Int) : Pool := cleanupLoop now (pool.cons.length - 5) pool

def getOpenedConnectionCount (pool : Pool) (now : Int) : Pool × Nat :=
  let pool := pool.cleanup now
  (pool, pool.cons.countP fun conn => (pool.mem conn).res = 1)

def create (pool : Pool) (now : Int) : Pool :=
  { pool with
    cons := pool.cons ++ [pool.nextId]
    mem := Function.update pool.mem pool.nextId (.new now)
    nextId := pool.nextId + 1 }

def lock (pool : Pool) (conn : Nat) (now : Int) : Pool :=
  pool.modify conn fun conn => (conn.lock now).1

def setOwner (pool : Pool) (conn : Nat) (owner : Nat) : Pool :=
  pool.modify conn fun conn => { conn with owner := some owner }

def stealable (pool : Pool) : List Nat :=
  pool.cons.filter (fun conn => pool.lastStolenConnId < connectionId conn) ++
    pool.cons.filter (fun conn => connectionId conn ≤ pool.lastStolenConnId)

/-- One pass over the candidates. `timeout_date` lies before the time at which the loop
starts, so that its condition fails after the first pass (`Waiting.ends_steal`). -/
def steal (pool : Pool) (owner : Nat) (now : Int) : Pool × Option Nat :=
  match pool.stealable.find? fun conn => (pool.mem conn).canBeStolen with
  | some conn =>
      let pool := ((pool.detachOwner conn).setOwner conn owner).modify conn (·.reserve now)
      ({ pool with lastStolenConnId := connectionId conn }, some conn)
  | none =>
      -- the text of `connection_pool_assign_exception` holds the count
      ((pool.getOpenedConnectionCount now).1, none)

/-- `_get_connection`; no connection stands for `connection_pool_assign_exception`. -/
def getConnection (pool : Pool) (owner : Nat) (now : Int) : Pool × Option Nat :=
  let pool := pool.cleanup now
  let conSize := pool.cons.length
  if conSize = 0 then
    let conn := pool.nextId
    (((pool.create now).lock conn now).setOwner conn owner, some conn)
  else if conSize < pool.maxConn then
    match pool.cons.find? fun conn => (pool.mem conn).res = 0 with
    | some conn => ((pool.lock conn now).setOwner conn owner, some conn)
    | none =>
        let conn := pool.nextId
        ((pool.create now).lock conn now, some conn)
  else pool.steal owner now

/-- `if(_conn == NULL) _conn = get_connection(...)`, and the connection that `_conn` has
then. -/
def assign (pool : Pool) (db : Nat) (now : Int) : Pool × Option Nat :=
  match (pool.dbs db).conn with
  | some conn => (pool, some conn)
  | none =>
      match pool.getConnection db now with
      | (pool, some conn) => (pool.setConn db (some conn), some conn)
      | (pool, none) => (pool, none)

/-- `new connection_lock_t(conn)`, which throws on a connection that is locked. -/
def newLock (pool : Pool) (conn : Nat) (now : Int) : Pool × Option Nat :=
  if (pool.mem conn).running = 1 then (pool, none)
  else
    let pool := pool.modify conn (·.startWork now)
    ({ pool with
        locks := Function.update pool.locks pool.nextLock { conn, uses := 1 }
        nextLock := pool.nextLock + 1 }, some pool.nextLock)

def dropLock (pool : Pool) (lock : Nat) (now : Int) : Pool :=
  let object := pool.locks lock
  let pool := { pool with
    locks := Function.update pool.locks lock { object with uses := object.uses - 1 } }
  if object.uses = 1 then pool.modify object.conn (·.stopWork now) else pool

def copyLock (pool : Pool) (lock : Nat) : Pool :=
  { pool with
    locks := Function.update pool.locks lock
      { pool.locks lock with uses := (pool.locks lock).uses + 1 } }

def openOn (pool : Pool) (conn : Nat) (now : Int) (dial : Dial) : Pool × Bool :=
  (pool.modify conn fun conn => (conn.openConnection now dial).1,
    ((pool.mem conn).openConnection now dial).2)

/-- `open_connection()` of a database, and the lock it returns. -/
def openConnection (pool : Pool) (db : Nat) (now : Int) (dial : Dial) : Pool × Option Nat :=
  match (pool.dbs db).lock with
  | some lock => (pool.copyLock lock, some lock)
  | none =>
      match pool.assign db now with
      | (pool, none) => (pool, none)
      | (pool, some conn) =>
          match (pool.modify conn (·.reserve now)).newLock conn now with
          | (pool, none) => (pool, none)
          | (pool, some lock) =>
              match pool.openOn conn now dial with
              | (pool, true) => (pool, some lock)
              | (pool, false) => (pool.dropLock lock now, none)

/-- `connection_task_t::_connect`, and the lock it gives to its callback. -/
def connect (pool : Pool) (db : Nat) (timedOut : Bool) (now : Int) (dial : Dial) :
    Pool × Option Nat :=
  if timedOut then (pool, none)
  else
    match pool.assign db now with
    | (pool, none) => (pool, none)
    | (pool, some conn) =>
        match (pool.modify conn (·.reserve now)).openOn conn now dial with
        | (pool, false) => (pool, none)
        | (pool, true) => pool.newLock conn now

/-- `_lock = lock`, where the shared pointer on the right is moved. -/
def setLock (pool : Pool) (db : Nat) (lock : Option Nat) (now : Int) : Pool :=
  let old := (pool.dbs db).lock
  let pool := { pool with dbs := Function.update pool.dbs db { pool.dbs db with lock } }
  match old with
  | some old => pool.dropLock old now
  | none => pool

/-- `begin()`. A null `_conn` ends the program there. -/
def begin (pool : Pool) (db : Nat) (now : Int) (dial : Dial) (reply : Bool) : Pool :=
  match pool.openConnection db now dial with
  | (pool, none) => pool
  | (pool, some lock) =>
      let pool := pool.setLock db (some lock) now
      match (pool.dbs db).conn with
      | none => pool
      | some conn => pool.modify conn fun conn => (conn.beginTransaction now dial reply).1

/-- `commit()` and `rollback()`. -/
def endTransaction (pool : Pool) (db : Nat) (now : Int) (reply : Bool) : Pool :=
  match (pool.dbs db).conn with
  | none => pool
  | some conn =>
      let ended := ((pool.mem conn).endTransaction now reply).2
      let pool := pool.modify conn fun conn => (conn.endTransaction now reply).1
      if ended then pool.setLock db none now else pool

/-- The callback that `begin(cb)` gives to its `BEGIN`. -/
def began (pool : Pool) (db : Nat) (now : Int) (reply : Bool) : Pool :=
  if reply then
    match (pool.dbs db).conn with
    | none => pool
    | some conn => pool.modify conn fun conn => { conn with isInTransaction := true }
  else pool.setLock db none now

/-- The callback that `commit(cb)` and `rollback(cb)` give to their command. -/
def ended (pool : Pool) (db : Nat) (now : Int) (reply : Bool) : Pool :=
  match reply, (pool.dbs db).conn with
  | false, _ => pool.setLock db none now
  | true, none => pool
  | true, some conn =>
      (pool.modify conn fun conn => { conn.touch now with isInTransaction := false }).setLock
        db none now

def close (pool : Pool) (db : Nat) (now : Int) (reply : Bool) : Pool :=
  match (pool.dbs db).conn with
  | none => pool
  | some conn =>
      let released := ((pool.mem conn).release now reply).2
      let pool := pool.modify conn fun conn => (conn.release now reply).1
      if released then pool.setConn db none else pool

end Pool

/-- What the databases of a pool can do to it, one after another. -/
inductive PoolEvent
  | openConnection (db : Nat) (now : Int) (dial : Dial)
  | connect (db : Nat) (timedOut : Bool) (now : Int) (dial : Dial)
  | dropHeld (lock : Nat) (now : Int)
  | keepLock (db : Nat) (lock : Nat) (now : Int)
  | begin (db : Nat) (now : Int) (dial : Dial) (reply : Bool)
  | endTransaction (db : Nat) (now : Int) (reply : Bool)
  | began (db : Nat) (now : Int) (reply : Bool)
  | ended (db : Nat) (now : Int) (reply : Bool)
  | close (db : Nat) (now : Int) (reply : Bool)
  | count (now : Int)
  deriving DecidableEq, Repr

def Pool.hold (result : Pool × Option Nat) : Pool :=
  { result.1 with held := result.1.held ++ result.2.toList }

def Pool.apply (pool : Pool) : PoolEvent → Pool
  | .openConnection db now dial => hold (pool.openConnection db now dial)
  | .connect db timedOut now dial => hold (pool.connect db timedOut now dial)
  | .dropHeld lock now =>
      if lock ∈ pool.held then
        { pool with held := pool.held.erase lock }.dropLock lock now
      else pool
  | .keepLock db lock now =>
      if lock ∈ pool.held then (pool.copyLock lock).setLock db (some lock) now else pool
  | .begin db now dial reply => pool.begin db now dial reply
  | .endTransaction db now reply => pool.endTransaction db now reply
  | .began db now reply => pool.began db now reply
  | .ended db now reply => pool.ended db now reply
  | .close db now reply => pool.close db now reply
  | .count now => (pool.getOpenedConnectionCount now).1

end PqAsync
