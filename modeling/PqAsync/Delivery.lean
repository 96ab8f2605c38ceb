import PqAsync.DeliveryCore

/-!
The rows of a query that libpq yields one by one, through the synchronous and through the
asynchronous calls of a reader.
-/

namespace PqAsync

def singleRows (columns : List Int) (tuples : List (List (Option (List UInt8)))) :
    List PgResult :=
  tuples.map (fun tuple => { status := .singleTuple, columns, tuples := [tuple] }) ++
    [{ status := .tuplesOk, columns, tuples := [] }]

def allRows (columns : List Int) (tuples : List (List (Option (List UInt8)))) : List Delivered :=
  tuples.map (fun tuple => .ok (some (dataRow columns tuple))) ++ [.ok none]

structure PgResult.Regular (columns : List Int) (res : PgResult) : Prop where
  status : res.status.hasValue = true
  columns : res.columns = columns

theorem singleRows_regular {columns : List Int} {tuples : List (List (Option (List UInt8)))} :
    ∀ res ∈ singleRows columns tuples, res.Regular columns := by
  intro res member
  rcases List.mem_append.mp member with row | last
  · obtain ⟨tuple, _, rfl⟩ := List.mem_map.mp row
    exact ⟨rfl, rfl⟩
  · rw [List.mem_singleton.mp last]
    exact ⟨rfl, rfl⟩

def PgResult.row (res : PgResult) : Option DataRow := res.tuples.head?.map (dataRow res.columns)

namespace DataReader

def HasColumns (columns : List Int) (this : DataReader) : Prop :=
  ∀ table, this.table = some table → table.columns = columns

section

variable {columns : List Int} {server : Server} {this : DataReader} {res : PgResult}

theorem readResult_regular (regular : res.Regular columns) (has : this.HasColumns columns) :
    ∃ table, this.readResult server res = (.ok (), { this with table := some table }) ∧
      table.columns = columns ∧ table.rows.head? = res.row := by
  have filled (table : DataTable) (empty : table.rows = []) (own : table.columns = columns) :
      ∃ after, { this with table := some table }.emplaceRow res =
          { this with table := some after } ∧
        after.columns = columns ∧ after.rows.head? = res.row := by
    rcases tuples : res.tuples with _ | ⟨tuple, rest⟩
    · refine ⟨table, ?_, own, ?_⟩
      · simp [emplaceRow, tuples]
      · rw [empty, PgResult.row, tuples]
        rfl
    · refine ⟨{ table with rows := table.rows ++ [dataRow table.columns tuple] }, ?_, own, ?_⟩
      · simp [emplaceRow, tuples]
      · rw [empty, PgResult.row, tuples, own, regular.columns]
        rfl
  rcases made : this.table with _ | table
  · obtain ⟨after, emplaced, own, first⟩ := filled ⟨res.columns, []⟩ rfl regular.columns
    refine ⟨after, ?_, own, first⟩
    rw [← emplaced]
    simp [readResult, initTable, made, regular.status]
  · obtain ⟨after, emplaced, own, first⟩ :=
      filled { table with rows := [] } rfl (has table made)
    refine ⟨after, ?_, own, first⟩
    rw [← emplaced]
    simp [readResult, initTable, made, regular.status]

end

structure Listening (columns : List Int) (this : DataReader) : Prop where
  sent : this.ct.cmdType = .sent
  registered : this.ct.hasCallback = true
  running : this.ct.completed = false
  notClosed : this.closed = false
  has : this.HasColumns columns
  regular : ∀ res ∈ this.ct.results, res.Regular columns

def heard : List PgResult → Nat → List Delivered
  | _, 0 => []
  | [], _ + 1 => [.ok none]
  | res :: results, ready + 1 => res.row.toList.map (fun row => .ok (some row)) ++ heard results ready

theorem heard_zero (results : List PgResult) : heard results 0 = [] := by
  cases results with
  | nil => rfl
  | cons res results => rfl

section

variable {columns : List Int} {server : Server} {this : DataReader}

theorem step_running (running : this.ct.completed = false) (consumed : Consumed) :
    this.step server (.run consumed) = this.runTask server consumed := by
  rw [step, ReaderTask.requeue, running]
  rfl

theorem step_busy (sent : this.ct.cmdType = .sent) (running : this.ct.completed = false) :
    this.step server (.run .busy) = .ok this := by
  rw [step_running running, runTask, sent]
  rfl

theorem step_last (listening : this.Listening columns) (noMore : this.ct.results = []) :
    ∃ after, this.step server (.run .ready) = .ok after ∧ after.ct.completed = true ∧
      after.calls = this.calls ++ [.ok none] := by
  rw [step_running listening.running, runTask, listening.sent, ReaderTask.getResult, noMore]
  dsimp only
  rw [callback, listening.registered]
  exact ⟨_, rfl, rfl, rfl⟩

theorem callback_result {res : PgResult} {after : DataReader}
    (registered : this.ct.hasCallback = true) (notClosed : this.closed = false)
    (read : this.readResult server res = (.ok (), after)) :
    this.callback server (.ok (some res)) =
      .ok { after with calls := after.calls ++ after.firstRow.toList.map (fun row => .ok (some row)) } := by
  rw [callback, registered, notClosed]
  cases first : after.firstRow with
  | none => simp [read, first]
  | some row => simp [read, first, call]

theorem step_result (listening : this.Listening columns) {res : PgResult}
    {results : List PgResult} (next : this.ct.results = res :: results) :
    ∃ after, this.step server (.run .ready) = .ok after ∧ after.Listening columns ∧
      after.ct.results = results ∧
      after.calls = this.calls ++ res.row.toList.map (fun row => .ok (some row)) := by
  have regular := listening.regular
  rw [next] at regular
  obtain ⟨own, others⟩ := List.forall_mem_cons.mp regular
  obtain ⟨table, read, has, first⟩ :=
    @readResult_regular columns server { this with ct := { this.ct with results } } res own
      listening.has
  have given := @callback_result server { this with ct := { this.ct with results } } res _
    listening.registered listening.notClosed read
  rw [step_running listening.running, runTask, listening.sent, ReaderTask.getResult, next]
  refine ⟨_, given, ?_, rfl, ?_⟩
  · exact
      { sent := listening.sent
        registered := listening.registered
        running := listening.running
        notClosed := listening.notClosed
        has := fun other same => Option.some.inj same ▸ has
        regular := others }
  · rw [firstRow]
    exact congrArg _ (congrArg _ (congrArg _ first))

def runs (consumed : List Bool) : List ReaderEvent :=
  consumed.map fun ready => .run (if ready then .ready else .busy)

theorem runEvents_busy (sent : this.ct.cmdType = .sent) (running : this.ct.completed = false)
    (consumed : List Bool) :
    this.runEvents server (runs (false :: consumed)) = this.runEvents server (runs consumed) := by
  have stays : this.step server (.run (if false then .ready else .busy)) = .ok this :=
    step_busy sent running
  rw [runs, List.map_cons, runEvents, stays, Results.ok_bind]
  rfl

theorem runEvents_ready {ran : Except String DataReader}
    (step : this.step server (.run .ready) = ran) (consumed : List Bool) :
    this.runEvents server (runs (true :: consumed)) =
      ran >>= fun after => after.runEvents server (runs consumed) := by
  rw [← step]
  rfl

theorem runEvents_left {consumed : List Bool} (left : this.ct.completed = true) :
    this.runEvents server (runs consumed) = .ok this := by
  induction consumed with
  | nil => rfl
  | cons ready consumed ih =>
      have stays : this.step server (.run (if ready then .ready else .busy)) = .ok this := by
        rw [step, ReaderTask.requeue, left]
        rfl
      rw [runs, List.map_cons, runEvents, stays, Results.ok_bind]
      exact ih

theorem runEvents_listening {consumed : List Bool} (listening : this.Listening columns) :
    ∃ after, this.runEvents server (runs consumed) = .ok after ∧
      after.calls = this.calls ++ heard this.ct.results (consumed.count true) ∧
      (after.ct.completed = true ↔ this.ct.results.length < consumed.count true) := by
  induction consumed generalizing this with
  | nil =>
      refine ⟨this, rfl, ?_, ?_⟩
      · rw [List.count_nil, heard_zero, List.append_nil]
      · simp [listening.running]
  | cons ready consumed ih =>
      cases ready with
      | false =>
          obtain ⟨after, run, calls, completed⟩ := ih listening
          refine ⟨after, ?_, calls, completed⟩
          rw [runEvents_busy listening.sent listening.running]
          exact run
      | true =>
          rcases next : this.ct.results with _ | ⟨res, results⟩
          · obtain ⟨after, ran, left, calls⟩ := @step_last columns server this listening next
            refine ⟨after, ?_, ?_, ?_⟩
            · rw [runEvents_ready ran, Results.ok_bind]
              exact runEvents_left left
            · rw [calls, List.count_cons_self, heard]
            · simp [left]
          · obtain ⟨mid, ran, listens, rest, calls⟩ :=
              @step_result columns server this listening res results next
            obtain ⟨after, run, later, completed⟩ := ih listens
            refine ⟨after, ?_, ?_, ?_⟩
            · rw [runEvents_ready ran, Results.ok_bind]
              exact run
            · rw [later, calls, rest, List.count_cons_self, heard, List.append_assoc]
            · rw [completed, rest, List.count_cons_self, List.length_cons]
              exact Nat.succ_lt_succ_iff.symm

end

theorem length_singleRows (columns : List Int) (tuples : List (List (Option (List UInt8)))) :
    (singleRows columns tuples).length = tuples.length + 1 := by
  simp [singleRows]

theorem heard_singleRows (columns : List Int) (tuples : List (List (Option (List UInt8))))
    (ready : Nat) : heard (singleRows columns tuples) ready =
      if tuples.length + 1 < ready then allRows columns tuples
      else (tuples.take ready).map fun tuple => .ok (some (dataRow columns tuple)) := by
  induction tuples generalizing ready with
  | nil =>
      rcases ready with _ | _ | ready
      · rfl
      · rfl
      · rw [if_pos (by simp)]
        rfl
  | cons tuple tuples ih =>
      cases ready with
      | zero => rw [heard_zero, if_neg (Nat.not_lt_zero _), List.take_zero, List.map_nil]
      | succ ready =>
          have first : heard (singleRows columns (tuple :: tuples)) (ready + 1) =
              .ok (some (dataRow columns tuple)) :: heard (singleRows columns tuples) ready := rfl
          rw [first, ih, List.length_cons]
          by_cases all : tuples.length + 1 < ready
          · rw [if_pos all, if_pos (by omega)]
            rfl
          · rw [if_neg all, if_neg (by omega)]
            rfl

theorem runEvents_append (server : Server) (first second : List ReaderEvent) (this : DataReader) :
    this.runEvents server (first ++ second) =
      this.runEvents server first >>= fun after => after.runEvents server second := by
  induction first generalizing this with
  | nil => rfl
  | cons event first ih =>
      rw [List.cons_append, runEvents, runEvents, bind_assoc]
      exact congrArg _ (funext fun after => ih after)

/-- The results that the next calls of `PQgetResult` take, and that the query is sent for if it
was not. -/
structure Reading (server : Server) (columns : List Int) (results : List PgResult)
    (this : DataReader) : Prop where
  notClosed : this.closed = false
  has : this.HasColumns columns
  regular : ∀ res ∈ results, res.Regular columns
  left : (this.ct.cmdType = .sent ∧ this.ct.results = results) ∨
    (this.ct.cmdType ∈ [.query, .queryPrepared] ∧ server.sendError = none ∧ server.singleRowError = none ∧
      server.results = results)

section

variable {server : Server} {columns : List Int} {res : PgResult} {results : List PgResult}
  {this : DataReader} (reading : Reading server columns (res :: results) this)

include reading

theorem runNow_reading : ∃ ct, this.ct.runNow server = (.ok (some res), ct) ∧
    ct.cmdType = .sent ∧ ct.results = results := by
  rcases reading.left with ⟨sent, left⟩ | ⟨query, taken, single, left⟩
  · refine ⟨{ this.ct with results }, ?_, sent, rfl⟩
    simp [ReaderTask.runNow, sent, ReaderTask.getResult, left]
  · refine ⟨{ this.ct with cmdType := .sent, results }, ?_, rfl, rfl⟩
    simp only [List.mem_cons, List.not_mem_nil, or_false] at query
    rcases query with query | query
    · simp [ReaderTask.runNow, query, ReaderTask.start, ReaderTask.send, taken, single,
        ReaderTask.getResult, left]
    · simp [ReaderTask.runNow, query, ReaderTask.start, ReaderTask.send, taken, single,
        ReaderTask.getResult, left]

theorem next_reading : ∃ after, this.next server = (.ok res.row, after) ∧
    (res.row = none → after.closed = true) ∧
    (∀ row, res.row = some row → Reading server columns results after) := by
  obtain ⟨ct, ran, sent, left⟩ := runNow_reading reading
  obtain ⟨own, others⟩ := List.forall_mem_cons.mp reading.regular
  obtain ⟨table, read, has, first⟩ :=
    @readResult_regular columns server { this with ct } res own reading.has
  have rows : ({ this with ct, table := some table } : DataReader).firstRow = res.row := first
  have opened : ¬this.closed = true := by simp [reading.notClosed]
  rw [next, if_neg opened, ran]
  dsimp only
  rw [read]
  dsimp only
  rw [rows]
  cases row : res.row with
  | none => exact ⟨_, rfl, fun _ => rfl, fun _ some => by contradiction⟩
  | some value =>
      refine ⟨_, rfl, fun none => by contradiction, fun _ _ => ?_⟩
      exact
        { notClosed := reading.notClosed
          has := fun other same => Option.some.inj same ▸ has
          regular := others
          left := Or.inl ⟨sent, left⟩ }

end

theorem nexts_reading {server : Server} {columns : List Int}
    {tuples : List (List (Option (List UInt8)))} {this : DataReader}
    (reading : Reading server columns (singleRows columns tuples) this) :
    ∃ after, this.nexts server (tuples.length + 1) = (allRows columns tuples, after) ∧
      after.closed = true := by
  induction tuples generalizing this with
  | nil =>
      obtain ⟨after, given, closed, _⟩ := next_reading reading
      refine ⟨after, ?_, closed rfl⟩
      rw [nexts, given]
      rfl
  | cons tuple tuples ih =>
      obtain ⟨mid, given, _, reads⟩ := next_reading reading
      obtain ⟨after, rest, closed⟩ := ih (reads _ rfl)
      refine ⟨after, ?_, closed⟩
      rw [List.length_cons, nexts, given]
      dsimp only
      rw [rest]
      rfl

end DataReader

/-- The server of a query that is sent, and whose rows are yielded one by one. -/
def Server.yielding (columns : List Int) (tuples : List (List (Option (List UInt8))))
    (errorMessage : String) : Server :=
  { sendError := none, singleRowError := none, results := singleRows columns tuples, errorMessage }

open DataReader

section

variable {columns : List Int} {tuples : List (List (Option (List UInt8)))} {errorMessage : String}

def sentReader (columns : List Int) (tuples : List (List (Option (List UInt8))))
    (hasCallback : Bool) : DataReader :=
  { ofQuery false with ct := { cmdType := .sent, completed := false, hasCallback, results := singleRows columns tuples } }

theorem sentReader_listening : Listening columns (sentReader columns tuples true) :=
  { sent := rfl
    registered := rfl
    running := rfl
    notClosed := rfl
    has := fun _ made => by contradiction
    regular := singleRows_regular }

def Server.answering (results : List PgResult) (errorMessage : String) : Server :=
  { sendError := none, singleRowError := none, results, errorMessage }

def queried (results : List PgResult) (hasCallback : Bool) : DataReader :=
  { ofQuery false with ct := { cmdType := .sent, completed := false, hasCallback, results } }

theorem queried_busy {results : List PgResult} {hasCallback : Bool} {server : Server} (n : Nat)
    (after : List Bool) :
    (queried results hasCallback).runEvents server (runs (List.replicate n false ++ after)) =
      (queried results hasCallback).runEvents server (runs after) := by
  induction n with
  | zero => rfl
  | succ n ih => exact ih

theorem runEvents_pending {results : List PgResult} (prepared : Bool) {before : Nat}
    {after : List Bool} (run : List.replicate before false ++ after ≠ []) :
    (ofQuery prepared).runEvents (.answering results errorMessage)
        (runs (List.replicate before false) ++ .next :: runs after) =
      (queried results true).runEvents (.answering results errorMessage)
        (runs ((List.replicate before false ++ after).drop 1)) := by
  cases before with
  | zero =>
      cases after with
      | nil => exact absurd rfl run
      | cons first after =>
          cases prepared with
          | false => rfl
          | true => rfl
  | succ n =>
      have idle : (ofQuery prepared).runEvents (.answering results errorMessage)
          (runs (List.replicate (n + 1) false)) = .ok (queried results false) := by
        have busy := @queried_busy results false (.answering results errorMessage) n []
        rw [List.append_nil] at busy
        cases prepared with
        | false => exact busy
        | true => exact busy
      rw [runEvents_append, idle, Results.ok_bind]
      exact (queried_busy n after).symm

theorem runEvents_ofQuery (prepared : Bool) (before : Nat) (after : List Bool) :
    ∃ final, (ofQuery prepared).runEvents (.yielding columns tuples errorMessage)
        (runs (List.replicate before false) ++ .next :: runs after) = .ok final ∧
      final.calls = heard (singleRows columns tuples)
        (((List.replicate before false ++ after).drop 1).count true) ∧
      (final.ct.completed = true ↔
        tuples.length + 1 < ((List.replicate before false ++ after).drop 1).count true) := by
  rw [← length_singleRows columns]
  by_cases run : List.replicate before false ++ after = []
  · obtain ⟨early, rfl⟩ := List.append_eq_nil_iff.mp run
    rw [early]
    refine ⟨(ofQuery prepared).nextWith, rfl, ?_, ?_⟩
    · exact (heard_zero _).symm
    · exact iff_of_false Bool.false_ne_true (Nat.not_lt_zero _)
  · obtain ⟨final, ran, heard, left⟩ := runEvents_listening sentReader_listening
    exact ⟨final, (runEvents_pending prepared run).trans ran, heard, left⟩

end

/-- Both ways of reading give the rows in order and then the empty row. Call by call, the
synchronous reader ends closed. Run by run, the callback hears a row for each run that finds one,
and the task leaves the queue with the last call and not before. -/
theorem reader_delivery (prepared : Bool) (columns : List Int)
    (tuples : List (List (Option (List UInt8)))) (errorMessage : String) :
    (∃ closed, (ofQuery prepared).nexts (.yielding columns tuples errorMessage) (tuples.length + 1) =
        (allRows columns tuples, closed) ∧ closed.closed = true) ∧
    ∀ (before : Nat) (after : List Bool), ∃ final,
      (ofQuery prepared).runEvents (.yielding columns tuples errorMessage)
        (runs (List.replicate before false) ++ .next :: runs after) = .ok final ∧
      (final.calls =
        if tuples.length + 1 < ((List.replicate before false ++ after).drop 1).count true then
          allRows columns tuples
        else (tuples.take (((List.replicate before false ++ after).drop 1).count true)).map
          fun tuple => .ok (some (dataRow columns tuple))) ∧
      (final.ct.requeue = .none ↔
        tuples.length + 1 < ((List.replicate before false ++ after).drop 1).count true) := by
  refine ⟨nexts_reading ?_, ?_⟩
  · exact
      { notClosed := rfl
        has := fun _ made => by contradiction
        regular := singleRows_regular
        left := Or.inr ⟨by cases prepared <;> decide, rfl, rfl, rfl⟩ }
  · intro before after
    obtain ⟨final, ran, calls, completed⟩ := runEvents_ofQuery prepared before after
    refine ⟨final, ran, ?_, ?_⟩
    · rw [calls, heard_singleRows]
    · rw [← completed, ReaderTask.requeue]
      cases final.ct.completed with
      | false => decide
      | true => decide

end PqAsync
