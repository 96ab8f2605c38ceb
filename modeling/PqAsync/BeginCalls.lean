import PqAsync.StrandOrder

/-!
What becomes of each asynchronous `begin(cb)` when all replies of the server are OK.
-/

namespace PqAsync

/-- A call, or a run of the front task in which nothing fails: a connection may not be free
yet, and a reply may not be there yet. -/
inductive QuietEvent
  | call (call : Call)
  | run (assigned ready : Bool)
  deriving DecidableEq, Repr

def quietOutcome (assigned ready : Bool) : Outcome :=
  { connecting := if assigned then .ready else .unassigned
    sendError := none
    consuming := if ready then .ready none else .busy }

def QuietEvent.event : QuietEvent → Event
  | .call made => .call made
  | .run assigned ready => .run (quietOutcome assigned ready)

def Task.call : Task → Nat
  | .connect continuation => continuation.call
  | .bound continuation => continuation.call
  | .query waiting _ => waiting.call
  | .refused number _ => number

/-- The task belongs to a `begin(cb)` that has not completed. -/
def Task.isBegin : Task → Bool
  | .connect (.begin _) => true
  | .bound (.begin _) => true
  | .connect (.sendQuery _ waiting) => waiting.completion = .began
  | .bound (.sendQuery _ waiting) => waiting.completion = .began
  | .query waiting _ => waiting.completion = .began
  | .refused _ _ => false

structure CallRecord where
  tasks : List Task
  sent : List Sent
  callbacks : List Callback
  deriving DecidableEq, Repr

def CallRecord.empty : CallRecord := { tasks := [], sent := [], callbacks := [] }

/-- `BEGIN` was sent once, and the callback was called once, without an error. -/
def CallRecord.begun (call : Nat) : CallRecord :=
  { tasks := [], sent := [⟨call, "BEGIN"⟩], callbacks := [⟨call, none⟩] }

/-- Nothing was sent, and the callback was called once, with the error. -/
def CallRecord.refused (call : Nat) : CallRecord :=
  { tasks := [], sent := [], callbacks := [⟨call, some "Already in a transaction!"⟩] }

def beginQuery (call : Nat) : Query := { call, sql := "BEGIN", completion := .began }

/-- The stages of a `begin(cb)` before its `BEGIN` is sent. -/
inductive Opening (call : Nat) : Task → Prop
  | connect : Opening call (.connect (.begin call))
  | bound : Opening call (.bound (.begin call))
  | connectQuery : Opening call (.connect (.sendQuery .variadic (beginQuery call)))
  | boundQuery : Opening call (.bound (.sendQuery .variadic (beginQuery call)))
  | unsent : Opening call (.query (beginQuery call) false)

inductive BeginStage (call : Nat) : CallRecord → Prop
  | opening (task : Task) : Opening call task → BeginStage call ⟨[task], [], []⟩
  | sent : BeginStage call ⟨[.query (beginQuery call) true], [⟨call, "BEGIN"⟩], []⟩
  | done : BeginStage call (.begun call)

inductive RefusalStage (call : Nat) : CallRecord → Prop
  | queued : RefusalStage call ⟨[.refused call "Already in a transaction!"], [], []⟩
  | done : RefusalStage call (.refused call)

theorem BeginStage.begun {call : Nat} {record : CallRecord} (begins : BeginStage call record)
    (unqueued : record.tasks = []) : record = .begun call := by
  cases begins with
  | opening task opening => cases unqueued
  | sent => cases unqueued
  | done => rfl

theorem RefusalStage.refused {call : Nat} {record : CallRecord} (refuses : RefusalStage call record)
    (unqueued : record.tasks = []) : record = .refused call := by
  cases refuses with
  | queued => cases unqueued
  | done => rfl

namespace Database

def applyQuiet (db : Database) (event : QuietEvent) : Database := db.apply event.event

def recordOf (db : Database) (call : Nat) : CallRecord :=
  { tasks := db.strand.filter (·.call = call)
    sent := db.sent.filter (·.call = call)
    callbacks := db.callbacks.filter (·.call = call) }

def beginPending (db : Database) : Bool := db.strand.any Task.isBegin

/-- No `begin(cb)` is made, while no transaction is open, before an earlier one completed. -/
def OneAtATime (db : Database) : QuietEvent → Prop
  | .call .begin => db.inTransaction = false → db.beginPending = false
  | _ => True

def Fresh (db : Database) : Prop := ∀ call, db.nextCall ≤ call → db.recordOf call = .empty

theorem recordOf_pushBack (db : Database) (task : Task) (call : Nat) (other : task.call ≠ call) :
    (db.pushBack task).recordOf call = db.recordOf call := by
  simp [recordOf, pushBack, List.filter_append, other]

theorem recordOf_pushFront (db : Database) (task : Task) (call : Nat)
    (other : task.call ≠ call) : (db.pushFront task).recordOf call = db.recordOf call := by
  simp [recordOf, pushFront, other]

theorem recordOf_callback (db : Database) (call made : Nat) (error : Option String)
    (other : made ≠ call) : (db.callback made error).recordOf call = db.recordOf call := by
  simp [recordOf, callback, List.filter_append, other]

theorem recordOf_openConnection (db : Database) (continuation : Continuation) (call : Nat)
    (other : continuation.call ≠ call) :
    (db.openConnection continuation).recordOf call = db.recordOf call := by
  unfold openConnection
  split
  · exact recordOf_pushBack _ _ _ other
  · exact recordOf_pushBack _ _ _ other

theorem recordOf_complete (db : Database) (query : Query) (error : Option String) (call : Nat)
    (other : query.call ≠ call) : (db.complete query error).recordOf call = db.recordOf call := by
  unfold complete
  split <;> simp [recordOf, callback, List.filter_append, other]

theorem recordOf_runContinuation (db : Database) (continuation : Continuation) (call : Nat)
    (other : continuation.call ≠ call) :
    (db.runContinuation continuation).recordOf call = db.recordOf call := by
  cases continuation with
  | sendQuery overload query =>
      cases overload with
      | variadic => exact recordOf_pushFront _ _ _ other
      | parameters => exact recordOf_pushBack _ _ _ other
  | begin number =>
      exact recordOf_openConnection _ (.sendQuery .variadic (beginQuery number)) _ other

theorem recordOf_failContinuation (db : Database) (message : String)
    (continuation : Continuation) (call : Nat) (other : continuation.call ≠ call) :
    (db.failContinuation message continuation).recordOf call = db.recordOf call := by
  cases continuation with
  | sendQuery overload query => exact recordOf_complete _ _ _ _ other
  | begin number => exact recordOf_callback _ _ _ _ other

theorem recordOf_tail (db : Database) (task : Task) (rest : List Task)
    (front : db.strand = task :: rest) (call : Nat) (other : task.call ≠ call) :
    ({ db with strand := rest }).recordOf call = db.recordOf call := by
  simp [recordOf, front, other]

theorem recordOf_runFront (db : Database) (outcome : Outcome) (task : Task) (rest : List Task)
    (front : db.strand = task :: rest) (call : Nat) (other : task.call ≠ call) :
    (db.runFront outcome).recordOf call = db.recordOf call := by
  have tail := recordOf_tail db task rest front call other
  cases task with
  | connect continuation =>
      simp only [runFront, front]
      cases outcome.connecting with
      | ready =>
          rw [← tail]
          exact recordOf_runContinuation _ _ _ other
      | unassigned => rfl
      | failed message =>
          rw [← tail]
          exact recordOf_failContinuation _ _ _ _ other
  | bound continuation =>
      simp only [runFront, front]
      rw [← tail]
      exact recordOf_runContinuation _ _ _ other
  | refused number message =>
      simp only [runFront, front]
      rw [← tail]
      exact recordOf_callback _ _ _ _ other
  | query waiting sent =>
      cases sent with
      | false =>
          simp only [runFront, front]
          cases outcome.sendError with
          | none =>
              have another : ¬ waiting.call = call := other
              simp [recordOf, front, List.filter_append, Task.call, another]
          | some message => exact recordOf_complete _ _ _ _ other
      | true =>
          simp only [runFront, front]
          cases outcome.consuming with
          | ready error =>
              rw [← tail]
              exact completeAll_kept (recordOf · call) waiting
                (fun db error => recordOf_complete db waiting error call other) _ _
          | busy => rfl
          | failed message => exact recordOf_complete _ _ _ _ other

theorem runFront_of_nil {db : Database} (empty : db.strand = []) (outcome : Outcome) :
    db.runFront outcome = db := by
  simp only [runFront, empty]

theorem call_pushes (db : Database) (made : Call) :
    ∃ task, task.call = db.nextCall ∧
      db.call made = { db.pushBack task with nextCall := db.nextCall + 1 } := by
  have opened : ∀ continuation : Continuation, ∃ task : Task, task.call = continuation.call ∧
      db.openConnection continuation = db.pushBack task := by
    intro continuation
    unfold openConnection
    split
    · exact ⟨_, rfl, rfl⟩
    · exact ⟨_, rfl, rfl⟩
  have ended : ∀ sql : String, ∃ task : Task, task.call = db.nextCall ∧
      db.endTransaction db.nextCall sql = db.pushBack task := by
    intro sql
    unfold endTransaction
    split
    · exact opened (.sendQuery .variadic ⟨db.nextCall, sql, .ended⟩)
    · exact ⟨_, rfl, rfl⟩
  cases made with
  | begin =>
      by_cases inside : db.inTransaction = true
      · exact ⟨.refused db.nextCall "Already in a transaction!", rfl,
          by simp only [call, begin, inside, ↓reduceIte]⟩
      · obtain ⟨task, own, pushed⟩ := opened (.begin db.nextCall)
        exact ⟨task, own, by simp only [call, begin, inside, pushed, Bool.false_eq_true,
          ↓reduceIte]⟩
  | commit =>
      obtain ⟨task, own, pushed⟩ := ended "COMMIT"
      exact ⟨task, own, by simp only [call, commit, pushed]⟩
  | rollback =>
      obtain ⟨task, own, pushed⟩ := ended "ROLLBACK"
      exact ⟨task, own, by simp only [call, rollback, pushed]⟩
  | execute overload sql =>
      obtain ⟨task, own, pushed⟩ := opened (.sendQuery overload ⟨db.nextCall, sql, .user⟩)
      exact ⟨task, own, by simp only [call, execute, pushed]⟩

theorem recordOf_call (db : Database) (made : Call) (call : Nat) (other : db.nextCall ≠ call) :
    (db.call made).recordOf call = db.recordOf call := by
  obtain ⟨task, own, pushed⟩ := db.call_pushes made
  rw [pushed]
  exact recordOf_pushBack db task call (by rwa [own])

theorem Fresh.apply {db : Database} (fresh : db.Fresh) (event : Event) :
    (db.apply event).Fresh := by
  cases event with
  | call made =>
      intro call later
      have above : db.nextCall < call := later
      rw [Database.apply, recordOf_call db made call (by omega)]
      exact fresh call (by omega)
  | run outcome =>
      intro call later
      rw [Database.apply, runFront_nextCall] at later
      rw [Database.apply]
      cases front : db.strand with
      | nil => rw [runFront_of_nil front]; exact fresh call later
      | cons task rest =>
          have other : task.call ≠ call := by
            intro own
            have none := congrArg CallRecord.tasks (fresh call later)
            simp [recordOf, front, own, CallRecord.empty] at none
          rw [recordOf_runFront db outcome task rest front call other]
          exact fresh call later

theorem initial_fresh (conn : Bool) : (initial conn).Fresh := fun _ _ => rfl

theorem front_of_recordOf {db : Database} {task queued : Task} {rest : List Task} {call : Nat}
    {sent : List Sent} {callbacks : List Callback} (front : db.strand = task :: rest)
    (own : task.call = call) (record : db.recordOf call = ⟨[queued], sent, callbacks⟩) :
    task = queued ∧ ({ db with strand := rest }).recordOf call = ⟨[], sent, callbacks⟩ := by
  simp only [recordOf, front, own, decide_true, List.filter_cons_of_pos, CallRecord.mk.injEq,
    List.cons.injEq] at record ⊢
  obtain ⟨⟨same, alone⟩, sent, callbacks⟩ := record
  exact ⟨same, alone, sent, callbacks⟩

theorem recordOf_own {db : Database} {call : Nat} {sent : List Sent} {callbacks : List Callback}
    (record : db.recordOf call = ⟨[], sent, callbacks⟩) (task : Task) (own : task.call = call) :
    (db.pushBack task).recordOf call = ⟨[task], sent, callbacks⟩ ∧
      (db.pushFront task).recordOf call = ⟨[task], sent, callbacks⟩ := by
  simp only [recordOf, CallRecord.mk.injEq] at record
  obtain ⟨none, sent, callbacks⟩ := record
  constructor
  · simp [recordOf, pushBack, List.filter_append, own, none, sent, callbacks]
  · simp [recordOf, pushFront, own, none, sent, callbacks]

theorem beginStage_openConnection {db : Database} {call : Nat}
    (record : db.recordOf call = .empty) :
    BeginStage call ((db.openConnection (.begin call)).recordOf call) ∧
      BeginStage call
        ((db.openConnection (.sendQuery .variadic (beginQuery call))).recordOf call) := by
  unfold Database.openConnection
  split
  · constructor
    · rw [(recordOf_own record (.bound (.begin call)) rfl).1]
      exact .opening _ .bound
    · rw [(recordOf_own record (.bound (.sendQuery .variadic (beginQuery call))) rfl).1]
      exact .opening _ .boundQuery
  · constructor
    · rw [(recordOf_own record (.connect (.begin call)) rfl).1]
      exact .opening _ .connect
    · rw [(recordOf_own record (.connect (.sendQuery .variadic (beginQuery call))) rfl).1]
      exact .opening _ .connectQuery

theorem beginStage_runContinuation {db : Database} {call : Nat}
    (record : db.recordOf call = .empty) :
    BeginStage call ((db.runContinuation (.begin call)).recordOf call) ∧
      BeginStage call
        ((db.runContinuation (.sendQuery .variadic (beginQuery call))).recordOf call) := by
  constructor
  · have locked : ({ db with lock := true }).recordOf call = .empty := record
    exact (beginStage_openConnection locked).2
  · rw [show db.runContinuation (.sendQuery .variadic (beginQuery call)) =
      db.pushFront (.query (beginQuery call) false) from rfl, (recordOf_own record _ rfl).2]
    exact .opening _ .unsent

theorem runFront_connect {db : Database} {continuation : Continuation} {rest : List Task}
    (front : db.strand = .connect continuation :: rest) (assigned ready : Bool) :
    db.runFront (quietOutcome assigned ready) =
      if assigned then { db with strand := rest, conn := true }.runContinuation continuation
      else db := by
  cases assigned <;> simp [Database.runFront, front, quietOutcome]

theorem runFront_sent {db : Database} {waiting : Query} {rest : List Task}
    (front : db.strand = .query waiting true :: rest) (assigned ready : Bool) :
    db.runFront (quietOutcome assigned ready) =
      if ready then { db with strand := rest }.complete waiting none else db := by
  cases ready <;> simp [Database.runFront, front, quietOutcome, completeAll]

theorem beginStage_send {db : Database} {rest : List Task} {call : Nat}
    (front : db.strand = .query (beginQuery call) false :: rest)
    (tail : ({ db with strand := rest }).recordOf call = .empty) (assigned ready : Bool) :
    BeginStage call ((db.runFront (quietOutcome assigned ready)).recordOf call) := by
  simp only [recordOf, CallRecord.empty, CallRecord.mk.injEq] at tail
  obtain ⟨unqueued, unsent, silent⟩ := tail
  have record : (db.runFront (quietOutcome assigned ready)).recordOf call =
      ⟨[.query (beginQuery call) true], [⟨call, "BEGIN"⟩], []⟩ := by
    have own : (Task.query (beginQuery call) true).call = call := rfl
    have made : (beginQuery call).call = call := rfl
    simp [Database.runFront, front, quietOutcome, recordOf, List.filter_append, own, made,
      unqueued, unsent, silent]
    rfl
  rw [record]
  exact .sent

theorem beginStage_complete {db : Database} {call : Nat}
    (tail : db.recordOf call = ⟨[], [⟨call, "BEGIN"⟩], []⟩) :
    BeginStage call ((db.complete (beginQuery call) none).recordOf call) := by
  simp only [recordOf, CallRecord.mk.injEq] at tail
  obtain ⟨unqueued, sent, silent⟩ := tail
  have record : (db.complete (beginQuery call) none).recordOf call = .begun call := by
    simp [recordOf, Database.complete, callback, beginQuery, unqueued, sent, silent,
      CallRecord.begun]
  rw [record]
  exact .done

theorem beginStage_runFront {db : Database} {call : Nat} (begins : BeginStage call (db.recordOf call))
    (assigned ready : Bool) :
    BeginStage call ((db.runFront (quietOutcome assigned ready)).recordOf call) := by
  cases front : db.strand with
  | nil => rwa [runFront_of_nil front]
  | cons task rest =>
      by_cases own : task.call = call
      · have now := begins
        generalize record : db.recordOf call = found at now
        cases now with
        | opening queued opening =>
            obtain ⟨rfl, tail⟩ := front_of_recordOf front own record
            cases opening with
            | connect =>
                rw [runFront_connect front]
                split
                · exact (beginStage_runContinuation tail).1
                · exact begins
            | bound =>
                simp only [Database.runFront, front]
                exact (beginStage_runContinuation tail).1
            | connectQuery =>
                rw [runFront_connect front]
                split
                · exact (beginStage_runContinuation tail).2
                · exact begins
            | boundQuery =>
                simp only [Database.runFront, front]
                exact (beginStage_runContinuation tail).2
            | unsent => exact beginStage_send front tail assigned ready
        | sent =>
            obtain ⟨rfl, tail⟩ := front_of_recordOf front own record
            rw [runFront_sent front]
            split
            · exact beginStage_complete tail
            · exact begins
        | done => simp [recordOf, front, own, CallRecord.begun] at record
      · rwa [recordOf_runFront db _ task rest front call own]

theorem refusalStage_runFront {db : Database} {call : Nat} (refuses : RefusalStage call (db.recordOf call))
    (outcome : Outcome) : RefusalStage call ((db.runFront outcome).recordOf call) := by
  cases front : db.strand with
  | nil => rwa [runFront_of_nil front]
  | cons task rest =>
      by_cases own : task.call = call
      · generalize record : db.recordOf call = found at refuses
        cases refuses with
        | queued =>
            obtain ⟨rfl, tail⟩ := front_of_recordOf front own record
            simp only [Database.runFront, front]
            simp only [recordOf, CallRecord.mk.injEq] at tail
            obtain ⟨unqueued, unsent, silent⟩ := tail
            simp [recordOf, callback, unqueued, List.filter_append, unsent, silent]
            exact .done
        | done => simp [recordOf, front, own, CallRecord.refused] at record
      · rwa [recordOf_runFront db _ task rest front call own]

theorem recordOf_run {holds : CallRecord → Prop} {call : Nat}
    (kept : ∀ db : Database, holds (db.recordOf call) → ∀ assigned ready,
      holds ((db.runFront (quietOutcome assigned ready)).recordOf call))
    {db : Database} (made : call < db.nextCall) (start : holds (db.recordOf call))
    (events : List QuietEvent) : holds ((Runs.run applyQuiet db events).recordOf call) := by
  have both : call < (Runs.run applyQuiet db events).nextCall ∧
      holds ((Runs.run applyQuiet db events).recordOf call) := by
    apply Runs.invariant fun db : Database => call < db.nextCall ∧ holds (db.recordOf call)
    · rintro db event ⟨made, now⟩
      cases event with
      | call another =>
          constructor
          · change call < (db.call another).nextCall
            rw [call_nextCall]
            omega
          · change holds ((db.call another).recordOf call)
            rwa [recordOf_call db another call (by omega)]
      | run assigned ready =>
          constructor
          · change call < (db.runFront (quietOutcome assigned ready)).nextCall
            rwa [runFront_nextCall]
          · exact kept db now assigned ready
    · exact ⟨made, start⟩
  exact both.2

theorem call_begin_of_inTransaction {db : Database} (fresh : db.Fresh)
    (inside : db.inTransaction = true) :
    RefusalStage db.nextCall ((db.call .begin).recordOf db.nextCall) := by
  have pushed : (db.call .begin).recordOf db.nextCall =
      (db.pushBack (.refused db.nextCall "Already in a transaction!")).recordOf db.nextCall := by
    simp only [call, begin, inside, ↓reduceIte]
    rfl
  rw [pushed, (recordOf_own (fresh _ (Nat.le_refl _)) _ rfl).1]
  exact .queued

theorem call_begin_of_not_inTransaction {db : Database} (fresh : db.Fresh)
    (outside : db.inTransaction = false) :
    BeginStage db.nextCall ((db.call .begin).recordOf db.nextCall) := by
  have opened : (db.call .begin).recordOf db.nextCall =
      (db.openConnection (.begin db.nextCall)).recordOf db.nextCall := by
    simp only [call, begin, outside, Bool.false_eq_true, ↓reduceIte]
    rfl
  rw [opened]
  exact (beginStage_openConnection (fresh _ (Nat.le_refl _))).1

def drainQuiet (db : Database) : List QuietEvent :=
  List.replicate db.remainingRuns (.run true true)

theorem run_quiet (db : Database) (events : List QuietEvent) :
    Runs.run applyQuiet db events = Runs.run apply db (events.map QuietEvent.event) := by
  rw [Runs.run, Runs.run, List.foldl_map]
  rfl

theorem drainQuiet_strand (db : Database) :
    (Runs.run applyQuiet db db.drainQuiet).strand = [] := by
  rw [run_quiet, drainQuiet, List.map_replicate]
  exact drain_strand db

theorem run_fresh (conn : Bool) (events : List QuietEvent) :
    (Runs.run applyQuiet (initial conn) events).Fresh := by
  apply Runs.invariant Fresh
  · intro db event fresh
    exact fresh.apply event.event
  · exact initial_fresh conn

theorem begin_ends (db : Database) (fresh : db.Fresh) (after : List QuietEvent)
    (drained : (Runs.run applyQuiet (db.call .begin) after).strand = []) :
    (Runs.run applyQuiet (db.call .begin) after).recordOf db.nextCall =
      if db.inTransaction then .refused db.nextCall else .begun db.nextCall := by
  have made : db.nextCall < (db.call .begin).nextCall := by
    rw [call_nextCall]
    omega
  have unqueued : ((Runs.run applyQuiet (db.call .begin) after).recordOf db.nextCall).tasks = [] := by
    simp [recordOf, drained]
  split
  next inside =>
    have start := call_begin_of_inTransaction fresh inside
    exact (recordOf_run (fun _ refuses _ _ => refusalStage_runFront refuses _) made start after).refused
      unqueued
  next outside =>
    have start := call_begin_of_not_inTransaction fresh (by simpa using outside)
    exact (recordOf_run (fun _ begins => beginStage_runFront begins) made start after).begun unqueued

/-- While a `begin(cb)` has not completed, and while a transaction is open, every other one is
refused: this is what happens exactly in the runs without a second `begin(cb)` before the
first has completed. -/
theorem one_begin_iff (conn : Bool) (events : List QuietEvent) :
    let queued := Runs.run applyQuiet (initial conn) events
    let drained := Runs.run applyQuiet queued queued.drainQuiet
    drained.strand = [] ∧
    ((∀ before after, events = before ++ .call .begin :: after →
        let db := Runs.run applyQuiet (initial conn) before
        drained.recordOf db.nextCall =
          if db.inTransaction || db.beginPending then .refused db.nextCall
          else .begun db.nextCall) ↔
      Runs.Meets applyQuiet OneAtATime (initial conn) events) := by
  intro queued drained
  have empty : drained.strand = [] := drainQuiet_strand queued
  refine ⟨empty, ?_⟩
  have ends : ∀ before after, events = before ++ .call .begin :: after →
      let db := Runs.run applyQuiet (initial conn) before
      drained.recordOf db.nextCall =
        if db.inTransaction then .refused db.nextCall else .begun db.nextCall := by
    rintro before after rfl
    intro db
    have whole : drained = Runs.run applyQuiet (db.call .begin) (after ++ queued.drainQuiet) := by
      simp only [drained, queued, Runs.run_append, Runs.run_cons, db]
      rfl
    rw [whole]
    exact begin_ends db (run_fresh conn before) _ (whole ▸ empty)
  have distinct : ∀ call, CallRecord.refused call ≠ CallRecord.begun call := by
    intro call same
    cases congrArg CallRecord.sent same
  rw [Runs.meets_iff_forall]
  constructor
  · intro all before event after split
    match event with
    | .call .begin =>
        intro outside
        have expected := all before after split
        have actual := ends before after split
        by_contra pending
        simp only [outside, Bool.false_eq_true, ↓reduceIte, Bool.false_or] at actual expected
        rw [actual, if_pos (by simpa using pending)] at expected
        exact distinct _ expected.symm
    | .call .commit => trivial
    | .call .rollback => trivial
    | .call (.execute _ _) => trivial
    | .run _ _ => trivial
  · intro meets before after split db
    have actual : drained.recordOf db.nextCall =
        if db.inTransaction then .refused db.nextCall else .begun db.nextCall :=
      ends before after split
    have single : db.inTransaction = false → db.beginPending = false :=
      meets before (.call .begin) after split
    rw [actual]
    cases inside : db.inTransaction with
    | true => rfl
    | false =>
        have none := single inside
        rw [none]
        rfl

theorem begin_twice_sent :
    let queued := Runs.run applyQuiet (initial true) [.call .begin, .call .begin]
    let drained := Runs.run applyQuiet queued queued.drainQuiet
    drained.sent = [⟨0, "BEGIN"⟩, ⟨1, "BEGIN"⟩] ∧
    drained.callbacks = [⟨0, none⟩, ⟨1, none⟩] ∧
    ¬ ∃ call < 2, drained.recordOf call = .begun call ∧
      ∀ other < 2, other ≠ call → drained.recordOf other = .refused other := by
  decide

end Database

end PqAsync
