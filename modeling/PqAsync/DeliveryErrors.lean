import PqAsync.Delivery

/-!
An error among the results of an asynchronous reader: what the callback hears of it, and what the
task does with the results behind it.
-/

namespace PqAsync

namespace DataReader

def isError : Delivered → Bool
  | .error _ => true
  | .ok _ => false

def errors (this : DataReader) : Nat := this.calls.countP isError

structure ErrorDelivered (this : DataReader) : Prop where
  once : this.errors = 1
  closed : this.closed = true
  left : this.ct.requeue = .none

structure Awaiting (this : DataReader) : Prop where
  sent : this.ct.cmdType = .sent
  running : this.ct.completed = false
  notClosed : this.closed = false

def errorAt (results : List PgResult) : Nat := results.findIdx fun res => !res.status.hasValue

section

variable {server : Server} {this : DataReader} {res : PgResult} {results : List PgResult}

theorem emplaceRow_table : ∃ table, this.emplaceRow res = { this with table } := by
  rw [emplaceRow]
  split
  · exact ⟨_, rfl⟩
  · exact ⟨this.table, rfl⟩

theorem initTable_value (value : res.status.hasValue = true) :
    ∃ table, this.initTable server res = .ok { this with table } := by
  rw [initTable, value]
  split
  · exact ⟨_, rfl⟩
  · exact ⟨_, rfl⟩

theorem readResult_value (value : res.status.hasValue = true) :
    ∃ table, this.readResult server res = (.ok (), { this with table }) := by
  obtain ⟨fresh, init⟩ := @initTable_value server this res value
  obtain ⟨table, emplaced⟩ := @emplaceRow_table { this with table := fresh } res
  refine ⟨table, ?_⟩
  rw [readResult, init, value]
  dsimp only
  rw [emplaced]
  rfl

theorem readResult_error (noValue : res.status.hasValue = false) :
    ∃ table, this.readResult server res = (.error server.errorMessage, { this with table }) := by
  rw [readResult, initTable, noValue]
  cases this.table with
  | none => exact ⟨this.table, rfl⟩
  | some table => exact ⟨some { table with rows := [] }, rfl⟩

theorem runTask_ready (sent : this.ct.cmdType = .sent) (next : this.ct.results = res :: results) :
    this.runTask server .ready =
      ({ this with ct := { this.ct with results } } : DataReader).callback server (.ok (some res)) := by
  rw [runTask, sent, ReaderTask.getResult, next]
  rfl

theorem callback_error {after : DataReader} {message : String}
    (registered : this.ct.hasCallback = true) (notClosed : this.closed = false)
    (read : this.readResult server res = (.error message, after)) :
    this.callback server (.ok (some res)) = .ok (after.lastCall (.error message)) := by
  rw [callback, registered]
  simp [notClosed, read]

theorem step_value (awaiting : this.Awaiting) (registered : this.ct.hasCallback = true)
    (next : this.ct.results = res :: results) (value : res.status.hasValue = true) :
    ∃ after, this.step server (.run .ready) = .ok after ∧ after.Awaiting ∧
      after.ct.hasCallback = true ∧ after.ct.results = results ∧ after.errors = this.errors := by
  obtain ⟨table, read⟩ :=
    @readResult_value server { this with ct := { this.ct with results } } res value
  have given := @callback_result server { this with ct := { this.ct with results } } res _ registered
    awaiting.notClosed read
  rw [step_running awaiting.running, runTask_ready awaiting.sent next]
  refine ⟨_, given, ⟨awaiting.sent, awaiting.running, awaiting.notClosed⟩, registered, rfl, ?_⟩
  rw [errors, List.countP_append]
  have rows : ∀ row : Option DataRow,
      (row.toList.map fun row => (.ok (some row) : Delivered)).countP isError = 0 := by
    intro row
    cases row with
    | none => rfl
    | some row => rfl
  rw [rows]
  rfl

theorem step_error (awaiting : this.Awaiting) (registered : this.ct.hasCallback = true)
    (next : this.ct.results = res :: results) (noValue : res.status.hasValue = false) :
    ∃ after, this.step server (.run .ready) = .ok after ∧ after.Awaiting ∧
      after.ct.hasCallback = false ∧ after.errors = this.errors + 1 := by
  obtain ⟨table, read⟩ :=
    @readResult_error server { this with ct := { this.ct with results } } res noValue
  have given := @callback_error server { this with ct := { this.ct with results } } res _ _ registered
    awaiting.notClosed read
  rw [step_running awaiting.running, runTask_ready awaiting.sent next]
  refine ⟨_, given, ⟨awaiting.sent, awaiting.running, awaiting.notClosed⟩, rfl, ?_⟩
  exact List.countP_append

theorem step_deaf (awaiting : this.Awaiting) (deaf : this.ct.hasCallback = false) :
    this.step server (.run .ready) = .error "bad_function_call" := by
  rw [step_running awaiting.running, runTask, awaiting.sent]
  cases next : this.ct.results with
  | nil =>
      rw [ReaderTask.getResult, next]
      dsimp only
      rw [callback, deaf]
      rfl
  | cons res results =>
      rw [ReaderTask.getResult, next]
      dsimp only
      rw [callback, deaf]
      rfl

theorem runEvents_deaf {consumed : List Bool} (awaiting : this.Awaiting)
    (deaf : this.ct.hasCallback = false) :
    this.runEvents server (runs consumed) =
      if consumed.count true = 0 then .ok this else .error "bad_function_call" := by
  induction consumed with
  | nil => rfl
  | cons ready consumed ih =>
      cases ready with
      | false =>
          rw [runEvents_busy awaiting.sent awaiting.running]
          exact ih
      | true =>
          rw [runEvents_ready (step_deaf awaiting deaf), Results.error_bind, List.count_cons_self,
            if_neg (Nat.succ_ne_zero _)]

theorem runEvents_errors {consumed : List Bool} (awaiting : this.Awaiting)
    (registered : this.ct.hasCallback = true)
    (fails : ∃ res ∈ this.ct.results, res.status.hasValue = false) :
    if consumed.count true ≤ errorAt this.ct.results + 1 then
      ∃ after, this.runEvents server (runs consumed) = .ok after ∧ after.Awaiting ∧
        after.errors = this.errors + (consumed.count true - errorAt this.ct.results)
    else this.runEvents server (runs consumed) = .error "bad_function_call" := by
  induction consumed generalizing this with
  | nil =>
      rw [List.count_nil, if_pos (Nat.zero_le _), Nat.zero_sub]
      exact ⟨this, rfl, awaiting, rfl⟩
  | cons ready consumed ih =>
      cases ready with
      | false =>
          have same := ih awaiting registered fails
          rw [runEvents_busy awaiting.sent awaiting.running, List.count_cons_of_ne Bool.false_ne_true]
          exact same
      | true =>
          rcases next : this.ct.results with _ | ⟨res, results⟩
          · obtain ⟨res, member, _⟩ := fails
            rw [next] at member
            exact absurd member List.not_mem_nil
          · rw [List.count_cons_self]
            cases value : res.status.hasValue with
            | true =>
                obtain ⟨mid, ran, waits, hears, left, same⟩ :=
                  @step_value server this res results awaiting registered next value
                have later : ∃ other ∈ results, other.status.hasValue = false := by
                  obtain ⟨other, member, noValue⟩ := fails
                  rw [next] at member
                  rcases List.mem_cons.mp member with rfl | behind
                  · exact absurd noValue (by simp [value])
                  · exact ⟨other, behind, noValue⟩
                have rest := ih waits hears (left ▸ later)
                have position : errorAt (res :: results) = errorAt results + 1 := by
                  simp [errorAt, List.findIdx_cons, value]
                rw [runEvents_ready ran, Results.ok_bind, position, Nat.add_sub_add_right, ← same,
                  ← left]
                simpa only [Nat.add_le_add_iff_right] using rest
            | false =>
                obtain ⟨mid, ran, waits, deaf, more⟩ :=
                  @step_error server this res results awaiting registered next value
                have position : errorAt (res :: results) = 0 := by
                  simp [errorAt, List.findIdx_cons, value]
                have rest := @runEvents_deaf server mid consumed waits deaf
                rw [runEvents_ready ran, Results.ok_bind, position]
                by_cases quiet : consumed.count true = 0
                · rw [if_pos quiet] at rest
                  rw [quiet, if_pos (Nat.le_refl _)]
                  exact ⟨mid, rest, waits, more⟩
                · rw [if_neg quiet] at rest
                  rw [if_neg (by omega)]
                  exact rest

end

end DataReader

/-- A query of which libpq yields an error among its results, and what goes on around the call of
the asynchronous `next`: as many runs before it that find nothing, and the runs behind it, which
find a result or not. -/
structure FailingRead where
  prepared : Bool
  results : List PgResult
  errorMessage : String
  before : Nat
  after : List Bool
  fails : ∃ res ∈ results, res.status.hasValue = false

namespace FailingRead

open DataReader

variable (read : FailingRead)

/-- What becomes of the reader, or the exception that escapes from a run of its task. -/
def final : Except String DataReader :=
  (ofQuery read.prepared).runEvents (.answering read.results read.errorMessage)
    (runs (List.replicate read.before false) ++ .next :: runs read.after)

/-- The runs that find something. The first one sends the query. -/
def found : Nat := ((List.replicate read.before false ++ read.after).drop 1).count true

/-- No exception escapes, and an error that was found is delivered. -/
def DeliversErrors : Prop :=
  ∃ reader, read.final = .ok reader ∧ (errorAt read.results < read.found → reader.ErrorDelivered)

theorem final_cases :
    if read.found ≤ errorAt read.results + 1 then
      ∃ reader, read.final = .ok reader ∧ reader.closed = false ∧ reader.ct.requeue = .front ∧
        reader.errors = read.found - errorAt read.results
    else read.final = .error "bad_function_call" := by
  by_cases run : List.replicate read.before false ++ read.after = []
  · have quiet : read.found = 0 := by
      rw [found, run]
      rfl
    obtain ⟨before, after⟩ := List.append_eq_nil_iff.mp run
    rw [quiet, if_pos (Nat.zero_le _), Nat.zero_sub]
    refine ⟨(ofQuery read.prepared).nextWith, ?_, rfl, rfl, rfl⟩
    rw [final, before, after]
    rfl
  · have told := @runEvents_errors (.answering read.results read.errorMessage)
      (queried read.results true) ((List.replicate read.before false ++ read.after).drop 1)
      ⟨rfl, rfl, rfl⟩ rfl read.fails
    rw [final, runEvents_pending read.prepared run]
    split at told
    · next few =>
        obtain ⟨reader, ran, waits, errors⟩ := told
        rw [if_pos (show read.found ≤ errorAt read.results + 1 from few)]
        refine ⟨reader, ran, waits.notClosed, ?_, errors.trans (Nat.zero_add _)⟩
        rw [ReaderTask.requeue, waits.running]
        rfl
    · next many =>
        rw [if_neg (show ¬ read.found ≤ errorAt read.results + 1 from many)]
        exact told

/-- An error that is found is never delivered as it should be: it is heard once, but the reader
stays open and the task in the queue, and the next run that finds something throws. -/
theorem deliversErrors_iff :
    (read.DeliversErrors ↔ read.found ≤ errorAt read.results) ∧
    ((∃ reader, read.final = .ok reader) ↔ read.found ≤ errorAt read.results + 1) := by
  have cases := read.final_cases
  by_cases few : read.found ≤ errorAt read.results + 1
  · rw [if_pos few] at cases
    obtain ⟨reader, ran, opened, _, _⟩ := cases
    refine ⟨⟨?_, ?_⟩, iff_of_true ⟨reader, ran⟩ few⟩
    · rintro ⟨other, same, delivers⟩
      rw [ran] at same
      obtain rfl := Except.ok.inj same
      refine Nat.not_lt.mp fun taken => ?_
      have closed := (delivers taken).closed
      rw [opened] at closed
      exact Bool.false_ne_true closed
    · intro before
      exact ⟨reader, ran, fun taken => absurd before (Nat.not_le.mpr taken)⟩
  · rw [if_neg few] at cases
    have throws : ¬ ∃ reader, read.final = .ok reader := by
      rintro ⟨reader, ran⟩
      rw [cases] at ran
      contradiction
    refine ⟨iff_of_false ?_ (by omega), iff_of_false throws few⟩
    rintro ⟨reader, ran, _⟩
    exact throws ⟨reader, ran⟩

/-- `select 1/0`, with a run that sends the query, one that finds the error, and one that finds the
end of the results. -/
def divisionByZero : FailingRead :=
  { prepared := false
    results := [{ status := .fatalError, columns := [], tuples := [] }]
    errorMessage := "ERROR:  division by zero"
    before := 0
    after := [false, true, true]
    fails := ⟨_, List.mem_singleton_self _, rfl⟩ }

theorem divisionByZero_throws :
    divisionByZero.final = .error "bad_function_call" ∧ ¬ divisionByZero.DeliversErrors := by
  have threw := divisionByZero.final_cases
  rw [if_neg (by decide)] at threw
  refine ⟨threw, ?_⟩
  rintro ⟨reader, ran, _⟩
  rw [threw] at ran
  contradiction

end FailingRead

end PqAsync
