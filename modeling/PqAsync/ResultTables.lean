import PqAsync.DeliveryCore

/-!
Executable model of the table that a query returns: its columns, its rows, and the access to a cell
by the index and by the name of its column. How names are put in lower case is a parameter.
-/

namespace PqAsync

/-- `PQftype`, `PQfname` and `PQfformat` of a column. -/
structure Field where
  oid : Int
  name : String
  fmt : Int
  deriving DecidableEq, Repr

structure QueryResult where
  status : ExecStatus
  fields : List Field
  tuples : List (List (Option (List UInt8)))
  deriving DecidableEq, Repr

structure DataColumn where
  oid : Int
  index : Nat
  name : String
  fmt : Int
  deriving DecidableEq, Repr

/-- `data_row_t`: the columns of its table, and a value for each of them. -/
structure TableRow where
  cols : List DataColumn
  values : DataRow
  deriving DecidableEq, Repr

structure QueryTable where
  cols : List DataColumn
  rows : List TableRow
  deriving DecidableEq, Repr

def connectionDead : WireError := .exception "connection is dead!"

section

variable (lowerCaseCopy : String → String)

def DataColumn.new (oid : Int) (index : Nat) (name : String) (fmt : Int) : DataColumn :=
  { oid, index, name := lowerCaseCopy name, fmt }

def dataColumns (fields : List Field) : List DataColumn :=
  fields.zipIdx.map fun (field, i) =>
    DataColumn.new lowerCaseCopy field.oid i field.name field.fmt

def getColIndex (cols : List DataColumn) (colName : String) : Int :=
  let tmpName := lowerCaseCopy colName
  match cols.findIdx? fun col => col.name == tmpName with
  | some i => i
  | none => -1

namespace TableRow

def new (cols : List DataColumn) (tuple : List (Option (List UInt8))) : TableRow :=
  { cols, values := dataRow (cols.map DataColumn.oid) tuple }

/-- `_values[i]`, which is not checked. -/
def valueAt (this : TableRow) (i : Nat) : Except WireError DataValue :=
  match this.values[i]? with
  | some value => .ok value
  | none => .error .outOfBounds

def getValue (this : TableRow) (i : Nat) : Except WireError DataValue :=
  if i ≥ this.cols.length then .error (.exception "Invalid index.") else this.valueAt i

def getValueNamed (this : TableRow) (colName : String) : Except WireError DataValue :=
  let index := getColIndex lowerCaseCopy this.cols colName
  if index = -1 then
    .error (.exception ("Column name \"" ++ colName ++ "\" is not valid."))
  else this.valueAt index.toNat

end TableRow

namespace QueryTable

def getRowSafe (this : QueryTable) (i : Nat) : Except WireError TableRow :=
  match this.rows[i]? with
  | some row => .ok row
  | none => .error .outOfBounds

def getValue (this : QueryTable) (rowIdx colId : Nat) : Except WireError DataValue := do
  let row ← this.getRowSafe rowIdx
  row.getValue colId

def getValueNamed (this : QueryTable) (rowIdx : Nat) (colName : String) :
    Except WireError DataValue := do
  let row ← this.getRowSafe rowIdx
  row.getValueNamed lowerCaseCopy colName

end QueryTable

def processQueryResult (conn : Bool) (errMsg : String) (res : QueryResult) :
    Except WireError QueryTable :=
  if !conn then .error connectionDead
  else if !res.status.hasValue then .error (.exception errMsg)
  else
    let cols := dataColumns lowerCaseCopy res.fields
    .ok { cols, rows := res.tuples.map (TableRow.new cols) }

/-- `_process_query_single_result` returns the row that it makes first, or the empty row. -/
def processQuerySingleResult (conn : Bool) (errMsg : String) (res : QueryResult) :
    Except WireError (Option TableRow) :=
  if !conn then .error connectionDead
  else if !res.status.hasValue then .error (.exception errMsg)
  else
    let cols := dataColumns lowerCaseCopy res.fields
    match res.tuples with
    | [] => .ok none
    | tuple :: _ => .ok (some (TableRow.new cols tuple))

end

def QueryResult.firstCell (res : QueryResult) : Cell :=
  match res.fields, res.tuples with
  | [], _ => { oid := 0, payload := none }
  | field :: _, [] => { oid := field.oid, payload := none }
  | field :: _, tuple :: _ => { oid := field.oid, payload := tuple.getD 0 none }

/-- `_process_query_value_result` of a whole result. -/
def processQueryValue (conversions : Conversions) (host : Host) (T : CellType) (errMsg : String)
    (res : QueryResult) : Except WireError (T.Value conversions) :=
  processQueryValueResult conversions host T res.status errMsg res.firstCell

end PqAsync
