import PqAsync.CellNulls
import PqAsync.DeliveryErrors
import PqAsync.ResultTables

/-!
The paths to the rows of a query: its table, its first row, its value, and a reader, which has
the rows one by one and may be closed before the last of them.
-/

namespace PqAsync

theorem length_dataRow (columns : List Int) (tuple : List (Option (List UInt8))) :
    (dataRow columns tuple).length = columns.length := by
  simp [dataRow, initializeRow]

section Names

variable (lowerCaseCopy : String → String)

theorem length_dataColumns (fields : List Field) :
    (dataColumns lowerCaseCopy fields).length = fields.length := by
  simp [dataColumns]

theorem oids_dataColumns (fields : List Field) :
    (dataColumns lowerCaseCopy fields).map DataColumn.oid = fields.map Field.oid := by
  rw [dataColumns, List.map_map]
  conv_rhs => rw [← List.zipIdx_map_fst 0 fields, List.map_map]
  rfl

theorem names_dataColumns (fields : List Field) :
    (dataColumns lowerCaseCopy fields).map DataColumn.name =
      fields.map fun field => lowerCaseCopy field.name := by
  rw [dataColumns, List.map_map]
  conv_rhs => rw [← List.zipIdx_map_fst 0 fields, List.map_map]
  rfl

theorem findIdx?_getElem_iff {α : Type} [DecidableEq α] {xs : List α} :
    (∀ {j : Nat} {x : α}, xs[j]? = some x → xs.findIdx? (· == x) = some j) ↔ xs.Nodup := by
  constructor
  · intro first
    rw [List.nodup_iff_injective_get]
    intro i j same
    have found := first (List.getElem?_eq_getElem i.isLt)
    have again := first (List.getElem?_eq_getElem j.isLt)
    rw [← List.get_eq_getElem, same, List.get_eq_getElem, again] at found
    exact Fin.ext (Option.some.inj found).symm
  · intro distinct j x at_j
    obtain ⟨inside, rfl⟩ := List.getElem?_eq_some_iff.mp at_j
    rw [List.findIdx?_eq_some_iff_getElem]
    refine ⟨inside, beq_self_eq_true _, ?_⟩
    intro i before same
    have index := (List.Nodup.getElem_inj_iff distinct).mp (beq_iff_eq.mp same)
    omega

theorem getColIndex_eq_iff {fields : List Field} {colName : String} {j : Nat} :
    getColIndex lowerCaseCopy (dataColumns lowerCaseCopy fields) colName = j ↔
      (fields.map fun field => lowerCaseCopy field.name).findIdx?
        (· == lowerCaseCopy colName) = some j := by
  rw [← names_dataColumns, List.findIdx?_map, Function.comp_def, getColIndex]
  cases (dataColumns lowerCaseCopy fields).findIdx? fun col =>
    col.name == lowerCaseCopy colName with
  | none => simp
  | some i => simp

theorem names_distinct_iff {fields : List Field} :
    (fields.map fun field => lowerCaseCopy field.name).Nodup ↔
      ∀ {j : Nat} {field : Field}, fields[j]? = some field →
        getColIndex lowerCaseCopy (dataColumns lowerCaseCopy fields) field.name = j := by
  rw [← findIdx?_getElem_iff]
  constructor
  · intro first j field at_j
    rw [getColIndex_eq_iff]
    exact first (by rw [List.getElem?_map, at_j]; rfl)
  · intro found j name at_j
    rw [List.getElem?_map] at at_j
    obtain ⟨field, own, rfl⟩ := Option.map_eq_some_iff.mp at_j
    exact (getColIndex_eq_iff lowerCaseCopy).mp (found own)

end Names

namespace DataReader

variable {server : Server} {columns : List Int} {res : PgResult} {results : List PgResult}
  {this : DataReader}

/-- `close()`, which the destructor calls: the query is cancelled, and its results are taken. -/
def close (this : DataReader) : DataReader :=
  if this.closed then this
  else { this with ct := { this.ct with results := [] }, closed := true }

structure Awaits (server : Server) (columns : List Int) (results : List PgResult)
    (this : DataReader) : Prop where
  notClosed : this.closed = false
  has : this.HasColumns columns
  left : (this.ct.cmdType = .sent ∧ this.ct.results = results) ∨
    (this.ct.cmdType ∈ [.query, .queryPrepared] ∧ this.ct.results = [] ∧
      server = Server.answering results server.errorMessage)

theorem Awaits.opened (awaits : Awaits server columns results this) : ¬this.closed = true := by
  simp [awaits.notClosed]

theorem Awaits.runNow (awaits : Awaits server columns (res :: results) this) :
    ∃ ct, this.ct.runNow server = (.ok (some res), ct) ∧ ct.cmdType = .sent ∧
      ct.results = results := by
  rcases awaits.left with ⟨sent, left⟩ | ⟨query, _, answers⟩
  · refine ⟨{ this.ct with results }, ?_, sent, rfl⟩
    simp [ReaderTask.runNow, sent, ReaderTask.getResult, left]
  · refine ⟨{ this.ct with cmdType := .sent, results }, ?_, rfl, rfl⟩
    simp only [List.mem_cons, List.not_mem_nil, or_false] at query
    rw [answers]
    rcases query with query | query
    · simp [ReaderTask.runNow, query, ReaderTask.start, ReaderTask.send, Server.answering,
        ReaderTask.getResult]
    · simp [ReaderTask.runNow, query, ReaderTask.start, ReaderTask.send, Server.answering,
        ReaderTask.getResult]

theorem Awaits.next_row (awaits : Awaits server columns (res :: results) this)
    (regular : res.Regular columns) {row : DataRow} (has : res.row = some row) :
    ∃ after, this.next server = (.ok (some row), after) ∧ Awaits server columns results after := by
  obtain ⟨ct, ran, sent, left⟩ := awaits.runNow
  obtain ⟨table, read, same, first⟩ :=
    @readResult_regular columns server { this with ct } res regular awaits.has
  have rows : ({ this with ct, table := some table } : DataReader).firstRow = some row :=
    first.trans has
  refine ⟨{ this with ct, table := some table }, ?_, awaits.notClosed, ?_, Or.inl ⟨sent, left⟩⟩
  · rw [next, if_neg awaits.opened, ran]
    dsimp only
    rw [read]
    dsimp only
    rw [rows]
  · intro other made
    exact Option.some.inj made ▸ same

theorem Awaits.next_end (awaits : Awaits server columns (res :: results) this)
    (regular : res.Regular columns) (has : res.row = none) :
    ∃ after, this.next server = (.ok none, after) ∧ after.closed = true ∧
      after.ct.results = [] := by
  obtain ⟨ct, ran, _, _⟩ := awaits.runNow
  obtain ⟨table, read, _, first⟩ :=
    @readResult_regular columns server { this with ct } res regular awaits.has
  have rows : ({ this with ct, table := some table } : DataReader).firstRow = none :=
    first.trans has
  refine ⟨{ this with ct := { ct with results := [] }, table := some table, closed := true }, ?_,
    rfl, rfl⟩
  rw [next, if_neg awaits.opened, ran]
  dsimp only
  rw [read]
  dsimp only
  rw [rows]

theorem Awaits.next_failed (awaits : Awaits server columns (res :: results) this)
    (noValue : res.status.hasValue = false) :
    ∃ after, this.next server = (.error server.errorMessage, after) := by
  obtain ⟨ct, ran, _, _⟩ := awaits.runNow
  obtain ⟨table, read⟩ := @readResult_error server { this with ct } res noValue
  refine ⟨{ this with ct, table }, ?_⟩
  rw [next, if_neg awaits.opened, ran]
  dsimp only
  rw [read]

def Settled (this : DataReader) : Prop :=
  this.closed = true ∨ this.ct.cmdType = .none → this.ct.results = []

theorem send_cmdType (ct : ReaderTask) : (ct.send server).2.cmdType = ct.cmdType := by
  rw [ReaderTask.send]
  split
  · split <;> rfl
  · rfl

theorem start_cmdType {ct : ReaderTask} (query : ct.cmdType ≠ .none) :
    (ct.start server true).2.cmdType ≠ .none := by
  have kept := @send_cmdType server ct
  rw [ReaderTask.start]
  rcases sent : ct.send server with ⟨_ | _, task⟩
  · rw [sent] at kept
    exact kept.trans_ne query
  · rw [sent] at kept
    dsimp only
    split
    · exact kept.trans_ne query
    · exact CommandType.noConfusion

theorem getResult_settled (ct : ReaderTask) :
    (ct.getResult.1 = none → ct.getResult.2.results = []) ∧
      ct.getResult.2.cmdType = ct.cmdType := by
  rw [ReaderTask.getResult]
  cases left : ct.results with
  | nil => exact ⟨fun _ => rfl, rfl⟩
  | cons res results => exact ⟨fun none => by contradiction, rfl⟩

theorem runNow_settled {ct : ReaderTask} (idle : ct.cmdType = .none → ct.results = []) :
    ((ct.runNow server).1 = .ok none → (ct.runNow server).2.results = []) ∧
      ((ct.runNow server).1 ≠ .ok none → (ct.runNow server).2.cmdType ≠ .none) := by
  by_cases none : ct.cmdType = .none
  · rw [ReaderTask.runNow, if_pos none]
    exact ⟨fun _ => idle none, fun other => absurd rfl other⟩
  · rw [ReaderTask.runNow, if_neg none]
    split
    · obtain ⟨last, kept⟩ := getResult_settled ct
      exact ⟨fun ended => last (Except.ok.inj ended), fun _ => kept.trans_ne none⟩
    · have started := @start_cmdType server ct none
      rcases start : ct.start server true with ⟨_ | _, task⟩
      · rw [start] at started
        exact ⟨fun ended => by contradiction, fun _ => started⟩
      · rw [start] at started
        obtain ⟨last, kept⟩ := getResult_settled task
        exact ⟨fun ended => last (Except.ok.inj ended), fun _ => kept.trans_ne started⟩

theorem settled_next (settled : this.Settled) (server : Server) :
    (this.next server).2.Settled := by
  by_cases closed : this.closed = true
  · rw [next, if_pos closed]
    exact settled
  · have kept := @runNow_settled server this.ct fun none => settled (Or.inr none)
    have opened {ct : ReaderTask} {table : Option DataTable} (query : ct.cmdType ≠ .none) :
        ({ this with ct, table } : DataReader).Settled := fun ended =>
      (ended.elim closed query).elim
    rw [next, if_neg closed]
    rcases ran : this.ct.runNow server with ⟨_ | _ | res, ct⟩
    · rw [ran] at kept
      exact opened (kept.2 (by simp))
    · rw [ran] at kept
      exact fun _ => kept.1 rfl
    · rw [ran] at kept
      have query := kept.2 (by simp)
      dsimp only
      cases value : res.status.hasValue with
      | false =>
          obtain ⟨table, read⟩ := @readResult_error server { this with ct } res value
          rw [read]
          exact opened query
      | true =>
          obtain ⟨table, read⟩ := @readResult_value server { this with ct } res value
          rw [read]
          dsimp only
          split
          · exact opened query
          · exact fun _ => rfl

theorem settled_nexts (settled : this.Settled) (server : Server) (n : Nat) :
    (this.nexts server n).2.Settled := by
  induction n generalizing this with
  | zero => exact settled
  | succ n ih => exact ih (settled_next settled server)

theorem close_settled (settled : this.Settled) (server : Server) :
    this.close.ct.results = [] ∧
      this.close.next server = (.error "The reader is closed!", this.close) := by
  rw [close]
  by_cases closed : this.closed = true
  · rw [if_pos closed]
    exact ⟨settled (Or.inl closed), by rw [next, if_pos closed]⟩
  · rw [if_neg closed]
    exact ⟨rfl, rfl⟩

end DataReader

/-- What a query gives: rows, and an error behind them if it fails. -/
structure Answer where
  fields : List Field
  tuples : List (List (Option (List UInt8)))
  failure : Option { status : ExecStatus // status.hasValue = false }

namespace Answer

variable (answer : Answer)

def columns : List Int := answer.fields.map Field.oid

/-- The result of the whole query, which has no rows if it failed. -/
def whole : QueryResult :=
  match answer.failure with
  | none => { status := .tuplesOk, fields := answer.fields, tuples := answer.tuples }
  | some status => { status, fields := [], tuples := [] }

def last : PgResult :=
  match answer.failure with
  | none => { status := .tuplesOk, columns := answer.columns, tuples := [] }
  | some status => { status, columns := [], tuples := [] }

def oneByOne : List PgResult :=
  answer.tuples.map (fun tuple =>
    { status := .singleTuple, columns := answer.columns, tuples := [tuple] }) ++ [answer.last]

def rows : List DataRow := answer.tuples.map (dataRow answer.columns)

def given {α : Type} (errMsg : String) (value : α) : Except WireError α :=
  match answer.failure with
  | none => .ok value
  | some _ => .error (.exception errMsg)

def ending (errMsg : String) : Delivered :=
  match answer.failure with
  | none => .ok none
  | some _ => .error errMsg

variable {answer}

theorem last_done (done : answer.failure = none) :
    answer.last = { status := .tuplesOk, columns := answer.columns, tuples := [] } := by
  rw [last, done]

theorem last_failed {status : { status : ExecStatus // status.hasValue = false }}
    (failed : answer.failure = some status) :
    answer.last = { status, columns := [], tuples := [] } := by
  rw [last, failed]

end Answer

open DataReader

theorem nexts_oneByOne {answer : Answer} {errMsg : String}
    {tuples : List (List (Option (List UInt8)))} {this : DataReader}
    (awaits : Awaits (Server.answering answer.oneByOne errMsg) answer.columns
      (tuples.map (fun tuple =>
        { status := .singleTuple, columns := answer.columns, tuples := [tuple] }) ++
          [answer.last]) this) :
    (this.nexts (Server.answering answer.oneByOne errMsg) (tuples.length + 1)).1 =
      tuples.map (fun tuple => .ok (some (dataRow answer.columns tuple))) ++
        [answer.ending errMsg] := by
  induction tuples generalizing this with
  | nil =>
      cases failure : answer.failure with
      | none =>
          rw [Answer.last_done failure] at awaits
          obtain ⟨after, given, _⟩ := awaits.next_end ⟨rfl, rfl⟩ rfl
          rw [Answer.ending, failure, List.length_nil, nexts, given]
          rfl
      | some status =>
          rw [Answer.last_failed failure] at awaits
          obtain ⟨after, given⟩ := awaits.next_failed status.property
          rw [Answer.ending, failure, List.length_nil, nexts, given]
          rfl
  | cons tuple tuples ih =>
      obtain ⟨after, given, rest⟩ := awaits.next_row ⟨rfl, rfl⟩ rfl
      rw [List.length_cons, nexts, given]
      dsimp only
      rw [ih rest]
      rfl

section

variable (lowerCaseCopy : String → String) {res : QueryResult} {errMsg : String}

theorem processQueryResult_value (value : res.status.hasValue = true) :
    processQueryResult lowerCaseCopy true errMsg res =
      .ok { cols := dataColumns lowerCaseCopy res.fields,
            rows := res.tuples.map (TableRow.new (dataColumns lowerCaseCopy res.fields)) } := by
  rw [processQueryResult, value]
  rfl

theorem processQuerySingleResult_eq (conn : Bool) :
    processQuerySingleResult lowerCaseCopy conn errMsg res =
      (processQueryResult lowerCaseCopy conn errMsg res).map fun table => table.rows.head? := by
  rw [processQuerySingleResult, processQueryResult]
  split
  · rfl
  · split
    · rfl
    · cases res.tuples with
      | nil => rfl
      | cons tuple tuples => rfl

theorem values_new (fields : List Field) (tuple : List (Option (List UInt8))) :
    (TableRow.new (dataColumns lowerCaseCopy fields) tuple).values =
      dataRow (fields.map Field.oid) tuple := by
  rw [TableRow.new, oids_dataColumns]

theorem getValue_new {fields : List Field} {tuple : List (Option (List UInt8))} {j : Nat}
    {value : DataValue} (cell : (dataRow (fields.map Field.oid) tuple)[j]? = some value) :
    (TableRow.new (dataColumns lowerCaseCopy fields) tuple).getValue j = .ok value := by
  obtain ⟨inside, _⟩ := List.getElem?_eq_some_iff.mp cell
  rw [length_dataRow, List.length_map] at inside
  have columns : ¬j ≥ (dataColumns lowerCaseCopy fields).length := by
    rw [length_dataColumns]
    omega
  rw [TableRow.getValue, TableRow.valueAt, values_new, cell]
  exact if_neg columns

theorem getValueNamed_new {fields : List Field} {tuple : List (Option (List UInt8))} {j : Nat}
    {value : DataValue} {colName : String}
    (found : getColIndex lowerCaseCopy (dataColumns lowerCaseCopy fields) colName = j)
    (cell : (dataRow (fields.map Field.oid) tuple)[j]? = some value) :
    (TableRow.new (dataColumns lowerCaseCopy fields) tuple).getValueNamed lowerCaseCopy colName =
      .ok value := by
  have valid : ¬(j : Int) = -1 := by omega
  have own : getColIndex lowerCaseCopy
      (TableRow.new (dataColumns lowerCaseCopy fields) tuple).cols colName = j := found
  rw [TableRow.getValueNamed]
  simp only [own, if_neg valid, Int.toNat_natCast]
  rw [TableRow.valueAt, values_new, cell]

theorem getValue_null {field : Field} {fields : List Field}
    {tuple : List (Option (List UInt8))} {tuples : List (List (Option (List UInt8)))}
    (null : tuple.getD 0 none = none) :
    QueryTable.getValue
      { cols := dataColumns lowerCaseCopy (field :: fields),
        rows := (tuple :: tuples).map (TableRow.new (dataColumns lowerCaseCopy (field :: fields))) }
      0 0 = .ok { oid := field.oid, value := none, length := 0 } := by
  have own : tuple[0]?.getD none = none := by rwa [← List.getD_eq_getElem?_getD]
  have cell : (dataRow ((field :: fields).map Field.oid) tuple)[0]? =
      some { oid := field.oid, value := none, length := 0 } := by
    simp [dataRow, initializeRow, own]
  exact getValue_new lowerCaseCopy cell

theorem firstCell_some {bytes : List UInt8} (present : res.firstCell.payload = some bytes) :
    ∃ field fields tuple tuples, res.fields = field :: fields ∧ res.tuples = tuple :: tuples ∧
      res.firstCell = { oid := field.oid, payload := tuple.getD 0 none } := by
  obtain ⟨status, _ | ⟨field, fields⟩, tuples⟩ := res
  · contradiction
  · cases tuples with
    | nil => contradiction
    | cons tuple tuples => exact ⟨field, fields, tuple, tuples, rfl, rfl, rfl⟩

theorem processQueryValue_eq (conversions : Conversions) (host : Host) (T : CellType)
    (delivered : res.status.hasValue = true) {bytes : List UInt8}
    (present : res.firstCell.payload = some bytes) :
    processQueryValue conversions host T errMsg res = (do
      let table ← processQueryResult lowerCaseCopy true errMsg res
      let value ← table.getValue 0 0
      value.as conversions host T) := by
  obtain ⟨field, fields, tuple, tuples, columns, rows, first⟩ := firstCell_some present
  rw [processQueryValue, query_value conversions host present delivered,
    processQueryResult_value lowerCaseCopy delivered, Results.ok_bind, columns, rows]
  rw [first] at present ⊢
  dsimp only at present
  have cell : (dataRow ((field :: fields).map Field.oid) tuple)[0]? =
      some { oid := field.oid, value := some bytes, length := bytes.length } := by
    have own : tuple[0]?.getD none = some bytes := by rwa [← List.getD_eq_getElem?_getD]
    simp [dataRow, initializeRow, own]
  have row : QueryTable.getValue
      { cols := dataColumns lowerCaseCopy (field :: fields)
        rows := (tuple :: tuples).map (TableRow.new (dataColumns lowerCaseCopy (field :: fields))) }
      0 0 = .ok { oid := field.oid, value := some bytes, length := bytes.length } :=
    getValue_new lowerCaseCopy cell
  rw [row, present]
  rfl

def Answer.NamesDistinct (answer : Answer) : Prop :=
  (answer.fields.map fun field => lowerCaseCopy field.name).Nodup

structure PathsAgree (conversions : Conversions) (host : Host) (answer : Answer) (errMsg : String)
    (prepared : Bool) (queried : Except WireError QueryTable) : Prop where
  rows : queried.map (fun table => table.rows.map TableRow.values) = answer.given errMsg answer.rows
  single : processQuerySingleResult lowerCaseCopy true errMsg answer.whole =
    queried.map fun table => table.rows.head?
  value : ∀ {T : CellType}, answer.failure.isSome ∨ answer.whole.firstCell.payload.isSome →
    processQueryValue conversions host T errMsg answer.whole = (do
      let table ← queried
      let value ← table.getValue 0 0
      value.as conversions host T)
  nullValue : ∀ {T : CellType}, answer.failure = none → answer.whole.firstCell.payload = none →
    processQueryValue conversions host T errMsg answer.whole =
      T.valFromPgparam conversions host answer.whole.firstCell.oid none (-1)
  nullCell : ∀ {T : CellType}, answer.failure = none → answer.whole.firstCell.payload = none →
    answer.fields ≠ [] → answer.tuples ≠ [] →
    (do
      let table ← queried
      let value ← table.getValue 0 0
      value.as conversions host T) =
        T.valFromPgparam conversions host answer.whole.firstCell.oid none 0
  noCell : answer.failure = none → answer.fields = [] ∨ answer.tuples = [] →
    ∃ error, (queried >>= fun table => table.getValue 0 0) = .error error
  indexed : ∀ {i j : Nat} {row : DataRow} {value : DataValue}, answer.rows[i]? = some row →
    row[j]? = some value → (queried >>= fun table => table.getValue i j) = answer.given errMsg value
  named : answer.NamesDistinct lowerCaseCopy ↔ ∀ {j : Nat} {field : Field},
    answer.fields[j]? = some field → getColIndex lowerCaseCopy
      (dataColumns lowerCaseCopy answer.fields) field.name = j
  cell : answer.NamesDistinct lowerCaseCopy → ∀ {i j : Nat} {row : DataRow} {value : DataValue}
    {field : Field}, answer.rows[i]? = some row → row[j]? = some value →
      answer.fields[j]? = some field →
      (queried >>= fun table => table.getValueNamed lowerCaseCopy i field.name) =
        answer.given errMsg value
  reader : ((ofQuery prepared).nexts (Server.answering answer.oneByOne errMsg)
      (answer.tuples.length + 1)).1 =
    answer.rows.map (fun row => .ok (some row)) ++ [answer.ending errMsg]
  closed : ∀ (server : Server) (calls : Nat),
    ((ofQuery prepared).nexts server calls).2.close.ct.results = [] ∧
      (((ofQuery prepared).nexts server calls).2.close.next server).1 =
        .error "The reader is closed!"

theorem processQueryResult_whole (answer : Answer) (errMsg : String) :
    processQueryResult lowerCaseCopy true errMsg answer.whole =
      answer.given errMsg
        { cols := dataColumns lowerCaseCopy answer.fields,
          rows := answer.tuples.map (TableRow.new (dataColumns lowerCaseCopy answer.fields)) } := by
  rw [Answer.whole, Answer.given]
  cases answer.failure with
  | none => exact processQueryResult_value lowerCaseCopy rfl
  | some status =>
      obtain ⟨status, noValue⟩ := status
      dsimp only
      rw [processQueryResult, noValue]
      rfl

theorem given_bind {answer : Answer} {α β : Type} {value : α} {f : α → Except WireError β}
    {result : β} (done : f value = .ok result) :
    (answer.given errMsg value >>= f) = answer.given errMsg result := by
  rw [Answer.given, Answer.given]
  cases answer.failure with
  | none => exact done
  | some status => rfl

theorem given_map {answer : Answer} {α β : Type} {value : α} {f : α → β} :
    (answer.given errMsg value).map f = answer.given errMsg (f value) := by
  rw [Answer.given, Answer.given]
  cases answer.failure with
  | none => rfl
  | some status => rfl

theorem given_row {answer : Answer} {i : Nat} {row : DataRow} {value : DataValue}
    {f : TableRow → Except WireError DataValue} (inRows : answer.rows[i]? = some row)
    (done : ∀ tuple, row = dataRow answer.columns tuple →
      f (TableRow.new (dataColumns lowerCaseCopy answer.fields) tuple) = .ok value) :
    (processQueryResult lowerCaseCopy true errMsg answer.whole >>= fun table =>
      table.getRowSafe i >>= f) = answer.given errMsg value := by
  rw [Answer.rows, List.getElem?_map] at inRows
  obtain ⟨tuple, own, made⟩ := Option.map_eq_some_iff.mp inRows
  rw [processQueryResult_whole]
  refine given_bind ?_
  rw [QueryTable.getRowSafe, List.getElem?_map, own]
  exact done tuple made.symm

theorem processQueryValue_whole (conversions : Conversions) (host : Host) (T : CellType)
    {answer : Answer}
    (given : answer.failure.isSome ∨ answer.whole.firstCell.payload.isSome) :
    processQueryValue conversions host T errMsg answer.whole = (do
      let table ← processQueryResult lowerCaseCopy true errMsg answer.whole
      let value ← table.getValue 0 0
      value.as conversions host T) := by
  cases failure : answer.failure with
  | none =>
      rw [failure] at given
      obtain ⟨bytes, present⟩ := Option.isSome_iff_exists.mp (given.resolve_left (by decide))
      have delivered : answer.whole.status.hasValue = true := by
        rw [Answer.whole, failure]
        rfl
      exact processQueryValue_eq lowerCaseCopy conversions host T delivered present
  | some status =>
      obtain ⟨status, noValue⟩ := status
      rw [processQueryResult_whole, Answer.given, Answer.whole, failure]
      dsimp only
      rw [processQueryValue, processQueryValueResult, noValue]
      rfl

theorem whole_done {answer : Answer} (done : answer.failure = none) :
    answer.whole = { status := .tuplesOk, fields := answer.fields, tuples := answer.tuples } := by
  rw [Answer.whole, done]

theorem queried_done {answer : Answer} (done : answer.failure = none) :
    processQueryResult lowerCaseCopy true errMsg answer.whole =
      .ok { cols := dataColumns lowerCaseCopy answer.fields,
            rows := answer.tuples.map (TableRow.new (dataColumns lowerCaseCopy answer.fields)) } := by
  rw [processQueryResult_whole, Answer.given, done]

theorem queried_nullCell (conversions : Conversions) (host : Host) (T : CellType)
    {answer : Answer} (done : answer.failure = none)
    (null : answer.whole.firstCell.payload = none) (columns : answer.fields ≠ [])
    (rows : answer.tuples ≠ []) : (do
      let table ← processQueryResult lowerCaseCopy true errMsg answer.whole
      let value ← table.getValue 0 0
      value.as conversions host T) =
        T.valFromPgparam conversions host answer.whole.firstCell.oid none 0 := by
  rw [queried_done lowerCaseCopy done, Results.ok_bind]
  rw [whole_done done] at null ⊢
  obtain ⟨field, fields, someColumn⟩ := List.exists_cons_of_ne_nil columns
  obtain ⟨tuple, tuples, someRow⟩ := List.exists_cons_of_ne_nil rows
  rw [someColumn, someRow] at null ⊢
  rw [getValue_null lowerCaseCopy null]
  rfl

theorem queried_noCell {answer : Answer} (done : answer.failure = none)
    (none : answer.fields = [] ∨ answer.tuples = []) :
    ∃ error, (processQueryResult lowerCaseCopy true errMsg answer.whole >>= fun table =>
      table.getValue 0 0) = .error error := by
  rw [queried_done lowerCaseCopy done, Results.ok_bind]
  rcases none with columns | rows
  · rw [columns]
    cases answer.tuples with
    | nil => exact ⟨_, rfl⟩
    | cons tuple tuples => exact ⟨_, rfl⟩
  · rw [rows]
    exact ⟨_, rfl⟩

/-- Every path to the rows of a query gives the rows of its table, or throws the error that its
table does; a reader has given the rows before the error, and leaves nothing when it is closed.
Only the value of a first cell that is NULL, or not there, is read otherwise. -/
theorem paths_agree (conversions : Conversions) (host : Host) (answer : Answer) (errMsg : String)
    (prepared : Bool) : PathsAgree lowerCaseCopy conversions host answer errMsg prepared
      (processQueryResult lowerCaseCopy true errMsg answer.whole) := by
  have start : (ofQuery prepared).Awaits (Server.answering answer.oneByOne errMsg) answer.columns
      answer.oneByOne := by
    refine ⟨rfl, fun table made => by contradiction, Or.inr ⟨?_, rfl, rfl⟩⟩
    cases prepared <;> decide
  have settled : (ofQuery prepared).Settled := fun _ => rfl
  have rows : answer.tuples.map (fun tuple =>
      (.ok (some (dataRow answer.columns tuple)) : Delivered)) =
        answer.rows.map fun row => .ok (some row) := by
    rw [Answer.rows, List.map_map]
    rfl
  refine
    { rows := ?_
      single := processQuerySingleResult_eq lowerCaseCopy true
      value := processQueryValue_whole lowerCaseCopy conversions host _
      nullValue := ?_
      nullCell := queried_nullCell lowerCaseCopy conversions host _
      noCell := queried_noCell lowerCaseCopy
      indexed := ?_
      named := names_distinct_iff lowerCaseCopy
      cell := ?_
      reader := rows ▸ nexts_oneByOne start
      closed := ?_ }
  · rw [processQueryResult_whole, given_map, List.map_map, Answer.rows]
    exact congrArg _ (List.map_congr_left fun tuple _ => values_new lowerCaseCopy _ tuple)
  · intro T done null
    refine query_null conversions host null ?_
    rw [whole_done done]
    rfl
  · intro i j row value inRows inRow
    refine given_row lowerCaseCopy inRows ?_
    intro tuple made
    rw [made] at inRow
    exact getValue_new lowerCaseCopy inRow
  · intro distinct i j row value field inRows inRow own
    refine given_row lowerCaseCopy inRows ?_
    intro tuple made
    rw [made] at inRow
    exact getValueNamed_new lowerCaseCopy
      ((names_distinct_iff lowerCaseCopy).mp distinct own) inRow
  · intro server calls
    obtain ⟨left, closed⟩ := close_settled (settled_nexts settled server calls) server
    exact ⟨left, congrArg Prod.fst closed⟩

end

end PqAsync
