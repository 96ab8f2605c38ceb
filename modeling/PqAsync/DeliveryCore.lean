import PqAsync.CellCore
import PqAsync.TaskCore

/-!
Executable model of `data_reader_t` over its task: the synchronous `next`, and the callback that
the asynchronous `next` leaves with the task. What libpq answers is an input; the callback of the
user is a record of its calls, which return.
-/

namespace PqAsync

structure PgResult where
  status : ExecStatus
  columns : List Int
  tuples : List (List (Option (List UInt8)))
  deriving DecidableEq, Repr

/-- What libpq answers to the command, to the wish for single rows, and to `PQgetResult`. -/
structure Server where
  sendError : Option String
  singleRowError : Option String
  results : List PgResult
  errorMessage : String
  deriving DecidableEq, Repr

/-- `_consume_data` throws, finds libpq busy, or finds a result. -/
inductive Consumed
  | failed
  | busy
  | ready
  deriving DecidableEq, Repr

/-- `reader_connection_task`, with the results that its connection has left. -/
structure ReaderTask where
  cmdType : CommandType
  completed : Bool
  /-- `_cb` is set -/
  hasCallback : Bool
  results : List PgResult
  deriving DecidableEq, Repr

namespace ReaderTask

def requeue (task : ReaderTask) : RequeuePos :=
  if task.completed then .none else .front

/-- `_send_query`, `_send_prepare` and `_send_query_prepared`; the other commands send nothing. -/
def send (task : ReaderTask) (server : Server) : Except String Unit × ReaderTask :=
  if task.cmdType ∈ [.query, .prepare, .queryPrepared] then
    match server.sendError with
    | some message => (.error message, task)
    | none => (.ok (), { task with results := server.results })
  else (.ok (), task)

def start (task : ReaderTask) (server : Server) (singleRows : Bool) :
    Except String Unit × ReaderTask :=
  match task.send server with
  | (.error message, task) => (.error message, task)
  | (.ok _, task) =>
      match if singleRows then server.singleRowError else none with
      | some message => (.error message, task)
      | none => (.ok (), { task with cmdType := .sent })

/-- `PQgetResult`, after which a task without a result is completed. -/
def getResult (task : ReaderTask) : Option PgResult × ReaderTask :=
  match task.results with
  | [] => (none, { task with completed := true })
  | res :: results => (some res, { task with results })

def runNow (task : ReaderTask) (server : Server) :
    Except String (Option PgResult) × ReaderTask :=
  if task.cmdType = .none then (.ok none, task)
  else if task.cmdType = .sent then
    let (res, task) := task.getResult
    (.ok res, task)
  else
    match task.start server true with
    | (.error message, task) => (.error message, task)
    | (.ok _, task) =>
        let (res, task) := task.getResult
        (.ok res, task)

end ReaderTask

abbrev DataRow := List DataValue

/-- The rows of `data_table_t`, and the columns that it was made with. -/
structure DataTable where
  columns : List Int
  rows : List DataRow
  deriving DecidableEq, Repr

/-- `data_row_t`: the cells of a row, by the columns of the table. -/
def dataRow (columns : List Int) (tuple : List (Option (List UInt8))) : DataRow :=
  initializeRow (columns.zipIdx.map fun (oid, i) => { oid, payload := tuple.getD i none })

/-- What a call of either `next` gives: an error, a row, or the empty row. -/
abbrev Delivered := Except String (Option DataRow)

structure DataReader where
  ct : ReaderTask
  table : Option DataTable
  closed : Bool
  calls : List Delivered

namespace DataReader

def initTable (this : DataReader) (server : Server) (res : PgResult) : Except String DataReader :=
  match this.table with
  | some table => .ok { this with table := some { table with rows := [] } }
  | none =>
      if !res.status.hasValue then .error server.errorMessage
      else .ok { this with table := some { columns := res.columns, rows := [] } }

/-- `if(PQntuples(res)){ ... _table->emplace_back(row); }` -/
def emplaceRow (this : DataReader) (res : PgResult) : DataReader :=
  match this.table, res.tuples with
  | some table, tuple :: _ =>
      { this with table := some { table with rows := table.rows ++ [dataRow table.columns tuple] } }
  | _, _ => this

/-- What both forms of `next` do with a result. -/
def readResult (this : DataReader) (server : Server) (res : PgResult) :
    Except String Unit × DataReader :=
  match this.initTable server res with
  | .error message => (.error message, this)
  | .ok this =>
      if !res.status.hasValue then (.error server.errorMessage, this)
      else (.ok (), this.emplaceRow res)

/-- `(*_table)[0]`, if there is a row. -/
def firstRow (this : DataReader) : Option DataRow := this.table.bind fun table => table.rows.head?

/-- The synchronous `next`. -/
def next (this : DataReader) (server : Server) : Delivered × DataReader :=
  if this.closed then (.error "The reader is closed!", this)
  else
    match this.ct.runNow server with
    | (.error message, ct) => (.error message, { this with ct })
    | (.ok none, ct) => (.ok none, { this with ct, closed := true })
    | (.ok (some res), ct) =>
        match { this with ct }.readResult server res with
        | (.error message, this) => (.error message, this)
        | (.ok _, this) =>
            match this.firstRow with
            | some row => (.ok (some row), this)
            | none => (.ok none, { this with ct := { this.ct with results := [] }, closed := true })

/-- The asynchronous `next`, which gives the task its callback. -/
def nextWith (this : DataReader) : DataReader :=
  { this with ct := { this.ct with hasCallback := true } }

def call (this : DataReader) (delivered : Delivered) : DataReader :=
  { this with calls := this.calls ++ [delivered] }

def lastCall (this : DataReader) (delivered : Delivered) : DataReader :=
  { this.call delivered with ct := { this.ct with hasCallback := false } }

/-- The callback that the task holds. Without one, the call throws, and so does the call with the
exception that `run_task` catches. -/
def callback (this : DataReader) (server : Server) (result : Except String (Option PgResult)) :
    Except String DataReader :=
  if !this.ct.hasCallback then .error "bad_function_call"
  else
    match result with
    | .error message => .ok (this.lastCall (.error message))
    | .ok none => .ok ({ this with closed := true }.lastCall (.ok none))
    | .ok (some res) =>
        if this.closed then .ok (this.lastCall (.error "The reader is closed!"))
        else
          match this.readResult server res with
          | (.error message, this) => .ok (this.lastCall (.error message))
          | (.ok _, this) =>
              match this.firstRow with
              | some row => .ok (this.call (.ok (some row)))
              | none => .ok this

def runTask (this : DataReader) (server : Server) (consumed : Consumed) :
    Except String DataReader :=
  if this.ct.cmdType = .none then .ok this
  else if this.ct.cmdType = .sent then
    match consumed with
    | .failed => this.callback server (.error "Unable to consume input data")
    | .busy => .ok this
    | .ready =>
        let (res, ct) := this.ct.getResult
        { this with ct }.callback server (.ok res)
  else
    match this.ct.start server (this.ct.cmdType ≠ .cancel) with
    | (.error message, ct) => { this with ct }.callback server (.error message)
    | (.ok _, ct) => .ok { this with ct }

end DataReader

/-- A call of the asynchronous `next`, or a run of the task by its strand. -/
inductive ReaderEvent
  | next
  | run (consumed : Consumed)
  deriving DecidableEq, Repr

namespace DataReader

def step (server : Server) (this : DataReader) : ReaderEvent → Except String DataReader
  | .next => .ok this.nextWith
  | .run consumed =>
      match this.ct.requeue with
      | .front => this.runTask server consumed
      | .none => .ok this

def runEvents (server : Server) : List ReaderEvent → DataReader → Except String DataReader
  | [], this => .ok this
  | event :: events, this => do
      let this ← this.step server event
      runEvents server events this

def nexts (server : Server) : Nat → DataReader → List Delivered × DataReader
  | 0, this => ([], this)
  | n + 1, this =>
      let (delivered, this) := this.next server
      let (rest, this) := nexts server n this
      (delivered :: rest, this)

/-- The reader that `query_reader` returns, of a database or of a prepared statement, with its
query to send. -/
def ofQuery (prepared : Bool) : DataReader :=
  { ct := { cmdType := if prepared then .queryPrepared else .query, completed := false,
            hasCallback := false, results := [] }
    table := none
    closed := false
    calls := [] }

end DataReader

end PqAsync
