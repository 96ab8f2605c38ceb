import PqAsync.PoolTransactions
import PqAsync.SyncCore

/-!
Executable model of `data_large_object_t`, over the pool of the databases. A call that waits in
`wait_for_sync()` stays there while callbacks do what they like, and is resumed later. What the
functions of libpq return is an input; the model follows in which transaction of which connection
they are called.
-/

namespace PqAsync

/-- The bits of `lo_mode`. -/
def invRead : BitVec 32 := 0x00040000

def invWrite : BitVec 32 := 0x00020000

structure DataLargeObject where
  db : Nat
  oid : Nat
  openedRead : Bool
  openedWrite : Bool
  fd : Int
  deriving DecidableEq, Repr

def DataLargeObject.opened (object : DataLargeObject) : Bool :=
  object.openedRead || object.openedWrite

inductive LargeObjectUse
  | read
  | write
  | tell
  | seek
  | resize
  deriving DecidableEq, Repr

def LargeObjectUse.name : LargeObjectUse → String
  | .read => "read"
  | .write => "write"
  | .tell => "tell"
  | .seek => "seek"
  | .resize => "resize"

/-- A call of a function of libpq, `open` with the descriptor that it returns. -/
inductive LargeObjectCall
  | create
  | open (oid : Nat) (mode : BitVec 32) (fd : Int)
  | use (verb : LargeObjectUse) (fd : Int)
  | close (fd : Int)
  | unlink (oid : Nat)
  deriving DecidableEq, Repr

/-- What a call throws: a text of its own, what `open_connection()` or a call of the transaction
throws, or the message of libpq. -/
inductive LargeObjectError
  | text (text : String)
  | openConnection
  | transaction
  | libpq
  deriving DecidableEq, Repr

def alreadyLocked : LargeObjectError :=
  .text "unable to lock the connection because it's already locked"

inductive LargeObjectEnding
  | returned
  | threw (error : LargeObjectError)
  | nullConn
  deriving DecidableEq, Repr

/-- The `wait_for_sync()` in which a call is: of the `begin()` in `open`, of the `rollback()` in
`open`, or of the `commit()` or the `rollback()` in `close`. -/
inductive LargeObjectStage
  | opening (mode : BitVec 32)
  | undoing
  | closing (failed : Bool)
  deriving DecidableEq, Repr

/-- A call that waits, and the connection that its `conn_lock` has. -/
structure LargeObjectFrame where
  index : Nat
  conn : Option Nat
  stage : LargeObjectStage
  deriving DecidableEq, Repr

structure LargeObjectAnswers where
  now : Int
  dial : Dial
  /-- the `BEGIN`, `COMMIT` or `ROLLBACK` is accepted -/
  reply : Bool
  /-- what `lo_open` returns -/
  fd : Int
  deriving DecidableEq, Repr

inductive LargeObjectEvent
  | pool (event : PoolEvent)
  | createLo (db : Nat) (now : Int) (dial : Dial) (oid : Nat)
  | getLo (db : Nat) (oid : Nat)
  | openObject (index : Nat) (mode : BitVec 32) (now : Int) (dial : Dial)
  | use (verb : LargeObjectUse) (index : Nat) (now : Int) (accepted : Bool)
  | close (index : Nat) (now : Int) (accepted : Bool)
  | unlink (index : Nat) (now : Int) (dial : Dial)
  | resume (answers : LargeObjectAnswers)
  deriving DecidableEq, Repr

structure LargeObjects where
  pool : Pool
  transaction : Nat → Nat
  objects : List DataLargeObject
  frames : List LargeObjectFrame
  calls : List (Session × LargeObjectCall)
  endings : List LargeObjectEnding

namespace LargeObjects

def initial (maxConn : Nat) : LargeObjects :=
  { pool := .initial maxConn, transaction := fun _ => 0, objects := [], frames := [], calls := [],
    endings := [] }

def applyPool (this : LargeObjects) (event : PoolEvent) : LargeObjects :=
  let pool := this.pool.apply event
  { this with pool, transaction := event.counted pool this.transaction }

def session (this : LargeObjects) (conn : Nat) : Session :=
  { conn, transaction := this.transaction conn }

def record (this : LargeObjects) (conn : Nat) (call : LargeObjectCall) : LargeObjects :=
  { this with calls := this.calls ++ [(this.session conn, call)] }

def finish (this : LargeObjects) (ending : LargeObjectEnding) : LargeObjects :=
  { this with endings := this.endings ++ [ending] }

def push (this : LargeObjects) (frame : LargeObjectFrame) : LargeObjects :=
  { this with frames := frame :: this.frames }

def setObject (this : LargeObjects) (index : Nat) (object : DataLargeObject) : LargeObjects :=
  { this with objects := this.objects.set index object }

/-- `open_connection()`, the lock of which goes at once, and whether it returns. -/
def openConnection (this : LargeObjects) (db : Nat) (now : Int) (dial : Dial) :
    LargeObjects × Bool :=
  let opened := this.applyPool (.openConnection db now dial)
  match (this.pool.openConnection db now dial).2 with
  | none => (opened, false)
  | some lock => (opened.applyPool (.dropHeld lock now), true)

def modifyConn (this : LargeObjects) (conn : Option Nat) (change : Connection → Connection) :
    LargeObjects :=
  match conn with
  | none => this
  | some conn => { this with pool := this.pool.modify conn change }

/-- `connection_lock_t conn_lock(_db->_conn)`, and what the call does with the lock. -/
def locking (this : LargeObjects) (db : Nat) (now : Int)
    (call : LargeObjects → Option Nat → LargeObjects) : LargeObjects :=
  let conn := (this.pool.dbs db).conn
  if conn.any fun conn => (this.pool.mem conn).running == 1 then
    this.finish (.threw alreadyLocked)
  else call (this.modifyConn conn (·.startWork now)) conn

def leave (this : LargeObjects) (conn : Option Nat) (now : Int) (ending : LargeObjectEnding) :
    LargeObjects :=
  (this.modifyConn conn (·.stopWork now)).finish ending

def getLo (this : LargeObjects) (db : Nat) (oid : Nat) : LargeObjects :=
  { this with
    objects := this.objects ++
      [{ db, oid, openedRead := false, openedWrite := false, fd := -1 }] }

/-- `create_lo()`; the `oid` that `lo_create` returns is not looked at. -/
def createLo (this : LargeObjects) (db : Nat) (now : Int) (dial : Dial) (oid : Nat) :
    LargeObjects :=
  match this.openConnection db now dial with
  | (this, false) => this.finish (.threw .openConnection)
  | (this, true) =>
      this.locking db now fun this conn =>
        match conn with
        | none => this.finish .nullConn
        | some taken => ((this.record taken .create).getLo db oid).leave conn now .returned

/-- `open`, up to the wait of its `begin()`. -/
def openObject (this : LargeObjects) (index : Nat) (mode : BitVec 32) (now : Int) (dial : Dial) :
    LargeObjects :=
  match this.objects[index]? with
  | none => this
  | some object =>
      if object.opened then this.finish (.threw (.text "Alreaddy opened!"))
      else
        match this.openConnection object.db now dial with
        | (this, false) => this.finish (.threw .openConnection)
        | (this, true) =>
            this.locking object.db now fun this conn =>
              this.push { index, conn, stage := .opening mode }

/-- `read`, `write`, `tell`, `seek` and `resize` -/
def use (this : LargeObjects) (verb : LargeObjectUse) (index : Nat) (now : Int)
    (accepted : Bool) : LargeObjects :=
  match this.objects[index]? with
  | none => this
  | some object =>
      if object.opened then
        this.locking object.db now fun this conn =>
          match conn with
          | none => this.finish .nullConn
          | some taken =>
              (this.record taken (.use verb object.fd)).leave conn now
                (if accepted then .returned else .threw .libpq)
      else
        this.finish
          (.threw (.text ("Unable to " ++ verb.name ++ " when large object is closed!")))

/-- `close`, up to the wait of its `commit()` or `rollback()`. -/
def close (this : LargeObjects) (index : Nat) (now : Int) (accepted : Bool) : LargeObjects :=
  match this.objects[index]? with
  | none => this
  | some object =>
      if object.opened then
        this.locking object.db now fun this conn =>
          match conn with
          | none => this.finish .nullConn
          | some taken =>
              ((this.record taken (.close object.fd)).setObject index
                { object with openedRead := false, openedWrite := false, fd := -1 }).push
                { index, conn, stage := .closing !accepted }
      else this.finish .returned

/-- `unlink`; what `lo_unlink` returns is not looked at. -/
def unlink (this : LargeObjects) (index : Nat) (now : Int) (dial : Dial) : LargeObjects :=
  match this.objects[index]? with
  | none => this
  | some object =>
      if object.opened then
        this.finish (.threw (.text "Large object must be closed to be delete!"))
      else
        match this.openConnection object.db now dial with
        | (this, false) => this.finish (.threw .openConnection)
        | (this, true) =>
            this.locking object.db now fun this conn =>
              match conn with
              | none => this.finish .nullConn
              | some taken => (this.record taken (.unlink object.oid)).leave conn now .returned

/-- `open` behind its `begin()`: `lo_open`, and the flags. -/
def opened (this : LargeObjects) (frame : LargeObjectFrame) (object : DataLargeObject)
    (mode : BitVec 32) (answers : LargeObjectAnswers) : LargeObjects :=
  match (this.pool.dbs object.db).conn with
  | none => this.finish .nullConn
  | some conn =>
      let this := this.record conn (.open object.oid mode answers.fd)
      if answers.fd = -1 then
        (this.setObject frame.index { object with fd := -1 }).push { frame with stage := .undoing }
      else
        (this.setObject frame.index
          { object with
            openedRead := mode &&& invRead != 0
            openedWrite := mode &&& invWrite != 0
            fd := answers.fd }).leave frame.conn answers.now .returned

/-- A call behind its `commit()` or `rollback()`, with the ending that it has if that returns. -/
def endTransaction (this : LargeObjects) (frame : LargeObjectFrame) (object : DataLargeObject)
    (answers : LargeObjectAnswers) (ending : LargeObjectEnding) : LargeObjects :=
  let next := this.applyPool (.endTransaction object.db answers.now answers.reply)
  match (this.pool.endTransactionSync object.db answers.now answers.reply).2 with
  | .returned => next.leave frame.conn answers.now ending
  | .threw => next.leave frame.conn answers.now (.threw .transaction)
  | .nullConn => next.finish .nullConn

def proceed (this : LargeObjects) (frame : LargeObjectFrame) (object : DataLargeObject)
    (answers : LargeObjectAnswers) : LargeObjects :=
  match frame.stage with
  | .opening mode =>
      let next := this.applyPool (.begin object.db answers.now answers.dial answers.reply)
      match (this.pool.beginSync object.db answers.now answers.dial answers.reply).2 with
      | .returned => next.opened frame object mode answers
      | .threw => next.leave frame.conn answers.now (.threw .transaction)
      | .nullConn => next.finish .nullConn
  | .undoing => this.endTransaction frame object answers (.threw .libpq)
  | .closing failed =>
      this.endTransaction frame object answers (if failed then .threw .libpq else .returned)

def resume (this : LargeObjects) (answers : LargeObjectAnswers) : LargeObjects :=
  match this.frames with
  | [] => this
  | frame :: frames =>
      match this.objects[frame.index]? with
      | none => this
      | some object => { this with frames }.proceed frame object answers

def step (this : LargeObjects) (event : LargeObjectEvent) : LargeObjects :=
  if .nullConn ∈ this.endings then this
  else
    match event with
    | .pool event => this.applyPool event
    | .createLo db now dial oid => this.createLo db now dial oid
    | .getLo db oid => this.getLo db oid
    | .openObject index mode now dial => this.openObject index mode now dial
    | .use verb index now accepted => this.use verb index now accepted
    | .close index now accepted => this.close index now accepted
    | .unlink index now dial => this.unlink index now dial
    | .resume answers => this.resume answers

end LargeObjects

end PqAsync
