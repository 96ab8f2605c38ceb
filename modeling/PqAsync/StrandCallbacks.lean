import PqAsync.BeginCalls

/-!
How often the callback of each asynchronous call is called, over runs of the strand in which
calls, connections, sends and replies may fail in any order. The results of a query are a
list: a loop over them that does not end, as for a `COPY`, is not in these runs.
-/

namespace PqAsync

namespace Outcome

def repeats (outcome : Outcome) : Task → Bool
  | .query _ false => outcome.sendError.isSome
  | .query _ true =>
      match outcome.consuming with
      | .failed _ => true
      | .ready _ => !outcome.moreResults.isEmpty
      | .busy => false
  | _ => false

def surplus (outcome : Outcome) : Task → Nat
  | .query _ false => if outcome.sendError.isSome then 1 else 0
  | .query _ true =>
      match outcome.consuming with
      | .failed _ => 1
      | .ready _ => outcome.moreResults.length
      | .busy => 0
  | _ => 0

theorem surplus_eq_zero_iff (outcome : Outcome) (task : Task) :
    outcome.surplus task = 0 ↔ outcome.repeats task = false := by
  cases task with
  | query query sent =>
      cases sent with
      | false => cases sending : outcome.sendError <;> simp [surplus, repeats, sending]
      | true => cases consuming : outcome.consuming <;> simp [surplus, repeats, consuming]
  | connect | bound | refused => simp [surplus, repeats]

end Outcome

def CallRecord.owed (record : CallRecord) : Nat := record.tasks.length + record.callbacks.length

namespace Database

def owed (db : Database) (call : Nat) : Nat := (db.recordOf call).owed

def made (db : Database) (call : Nat) : Nat := if call < db.nextCall then 1 else 0

def OwesOne (db : Database) : Prop := ∀ call, db.owed call = db.made call

def AnsweredOnce (db : Database) : Prop :=
  ∀ call, (db.recordOf call).callbacks.length = db.made call

/-- No query of the strand fails while it is sent or read, and none has two results. -/
def Delivers (db : Database) : Event → Prop
  | .call _ => True
  | .run outcome => ∀ task ∈ db.strand.head?, outcome.repeats task = false

instance (db : Database) (event : Event) : Decidable (db.Delivers event) :=
  match event with
  | .call _ => isTrue trivial
  | .run outcome =>
      inferInstanceAs (Decidable (∀ task ∈ db.strand.head?, outcome.repeats task = false))

theorem owed_pushBack (db : Database) (task : Task) (call : Nat) :
    (db.pushBack task).owed call = db.owed call + if task.call = call then 1 else 0 := by
  by_cases own : task.call = call
  · simp [owed, CallRecord.owed, recordOf, pushBack, own, List.filter_append]
    omega
  · rw [owed, recordOf_pushBack db task call own, if_neg own]
    rfl

theorem owed_pushFront (db : Database) (task : Task) (call : Nat) :
    (db.pushFront task).owed call = db.owed call + if task.call = call then 1 else 0 := by
  by_cases own : task.call = call
  · simp [owed, CallRecord.owed, recordOf, pushFront, own]
    omega
  · rw [owed, recordOf_pushFront db task call own, if_neg own]
    rfl

theorem owed_callback (db : Database) (made : Nat) (error : Option String) (call : Nat) :
    (db.callback made error).owed call = db.owed call + if made = call then 1 else 0 := by
  by_cases own : made = call
  · simp [owed, CallRecord.owed, recordOf, callback, own, List.filter_append]
    omega
  · rw [owed, recordOf_callback db call made error own, if_neg own]
    rfl

theorem owed_complete (db : Database) (query : Query) (error : Option String) (call : Nat) :
    (db.complete query error).owed call = db.owed call + if query.call = call then 1 else 0 := by
  unfold complete
  split
  · exact owed_callback _ _ _ _
  · exact owed_callback { db with lock := false } _ _ _
  · exact owed_callback { db with isInTransaction := true } _ _ _
  · exact owed_callback { db with lock := false } _ _ _
  · exact owed_callback { db with isInTransaction := false } _ _ _

theorem owed_completeAll (db : Database) (query : Query) (results : List (Option String))
    (call : Nat) : (db.completeAll query results).owed call =
      db.owed call + if query.call = call then results.length else 0 := by
  unfold completeAll
  induction results generalizing db with
  | nil => simp
  | cons error results ih =>
      rw [List.foldl_cons, ih, owed_complete]
      by_cases own : query.call = call
      · simp only [own, ↓reduceIte, List.length_cons]
        omega
      · simp only [own, ↓reduceIte]

theorem owed_openConnection (db : Database) (continuation : Continuation) (call : Nat) :
    (db.openConnection continuation).owed call =
      db.owed call + if continuation.call = call then 1 else 0 := by
  unfold openConnection
  split <;> exact owed_pushBack _ _ _

theorem owed_runContinuation (db : Database) (continuation : Continuation) (call : Nat) :
    (db.runContinuation continuation).owed call =
      db.owed call + if continuation.call = call then 1 else 0 := by
  cases continuation with
  | sendQuery overload query =>
      cases overload with
      | variadic => exact owed_pushFront _ _ _
      | parameters => exact owed_pushBack _ _ _
  | begin number => exact owed_openConnection _ _ _

theorem owed_failContinuation (db : Database) (message : String) (continuation : Continuation)
    (call : Nat) :
    (db.failContinuation message continuation).owed call =
      db.owed call + if continuation.call = call then 1 else 0 := by
  cases continuation with
  | sendQuery overload query => exact owed_complete _ _ _ _
  | begin number => exact owed_callback _ _ _ _

theorem owed_tail (db : Database) {task : Task} {rest : List Task}
    (front : db.strand = task :: rest) (call : Nat) :
    ({ db with strand := rest }).owed call + (if task.call = call then 1 else 0) =
      db.owed call := by
  have whole := owed_pushFront { db with strand := rest } task call
  rw [← whole, pushFront]
  simp only [← front]

theorem owed_runFront (db : Database) (outcome : Outcome) {task : Task} {rest : List Task}
    (front : db.strand = task :: rest) (call : Nat) :
    (db.runFront outcome).owed call =
      db.owed call + if task.call = call then outcome.surplus task else 0 := by
  have tail := owed_tail db front call
  cases task with
  | connect continuation =>
      simp only [Outcome.surplus, ite_self, Nat.add_zero]
      simp only [runFront, front]
      cases outcome.connecting with
      | ready => rw [owed_runContinuation]; exact tail
      | unassigned => rfl
      | failed message => rw [owed_failContinuation]; exact tail
  | bound continuation =>
      simp only [Outcome.surplus, ite_self, Nat.add_zero]
      simp only [runFront, front]
      rw [owed_runContinuation]
      exact tail
  | refused number message =>
      simp only [Outcome.surplus, ite_self, Nat.add_zero]
      simp only [runFront, front]
      rw [owed_callback]
      exact tail
  | query query sent =>
      cases sent with
      | false =>
          cases sending : outcome.sendError with
          | none =>
              simp only [Outcome.surplus, sending, Option.isSome_none, Bool.false_eq_true,
                ↓reduceIte, ite_self, Nat.add_zero]
              simp only [runFront, front, sending]
              rw [← tail]
              exact owed_pushFront { db with strand := rest } (.query query true) call
          | some message =>
              simp only [Outcome.surplus, sending, Option.isSome_some, ↓reduceIte]
              simp only [runFront, front, sending]
              exact owed_complete _ _ _ _
      | true =>
          cases consuming : outcome.consuming with
          | ready error =>
              simp only [Outcome.surplus, consuming]
              simp only [runFront, front, consuming]
              rw [owed_completeAll, ← tail]
              by_cases own : query.call = call
              · simp only [Task.call, own, ↓reduceIte, List.length_cons]
                omega
              · simp only [Task.call, own, ↓reduceIte, Nat.add_zero]
          | busy =>
              simp only [Outcome.surplus, consuming, ite_self, Nat.add_zero]
              simp only [runFront, front, consuming]
          | failed message =>
              simp only [Outcome.surplus, consuming]
              simp only [runFront, front, consuming]
              exact owed_complete _ _ _ _

theorem owed_call (db : Database) (call : Call) (number : Nat) :
    (db.call call).owed number + db.made number = db.owed number + (db.call call).made number := by
  obtain ⟨task, own, pushed⟩ := db.call_pushes call
  have more : (db.call call).owed number =
      db.owed number + if db.nextCall = number then 1 else 0 := by
    rw [pushed, ← own]
    exact owed_pushBack db task number
  rw [more, made, made, call_nextCall]
  split <;> split <;> split <;> omega

theorem made_runFront (db : Database) (outcome : Outcome) (number : Nat) :
    (db.runFront outcome).made number = db.made number := by
  rw [made, made, runFront_nextCall]

theorem owed_apply (db : Database) (event : Event) (number : Nat) :
    db.owed number + (db.apply event).made number ≤
      (db.apply event).owed number + db.made number := by
  cases event with
  | call call => exact Nat.le_of_eq (owed_call db call number).symm
  | run outcome =>
      rw [apply, made_runFront]
      cases front : db.strand with
      | nil => exact Nat.le_of_eq (by rw [runFront_of_nil front])
      | cons task rest =>
          rw [owed_runFront db outcome front]
          omega

theorem OwesOne.apply {db : Database} (owes : db.OwesOne) (event : Event) :
    (db.apply event).OwesOne ↔ db.Delivers event := by
  cases event with
  | call call =>
      refine iff_of_true (fun number => ?_) trivial
      have kept := owed_call db call number
      rw [owes number] at kept
      exact Nat.add_right_cancel (kept.trans (Nat.add_comm _ _))
  | run outcome =>
      unfold Delivers
      cases front : db.strand with
      | nil => simp [Database.apply, runFront_of_nil front, owes]
      | cons task rest =>
          simp only [List.head?_cons, Option.mem_def, Option.some.injEq, forall_eq']
          constructor
          · intro still
            have one : (db.runFront outcome).owed task.call = _ := still task.call
            rw [Database.apply, made_runFront, owed_runFront db outcome front, owes] at one
            rw [← outcome.surplus_eq_zero_iff]
            simpa using one
          · intro delivers number
            rw [Database.apply, made_runFront, owed_runFront db outcome front, owes,
              (outcome.surplus_eq_zero_iff task).mpr delivers]
            simp

theorem initial_owesOne (conn : Bool) : (initial conn).OwesOne :=
  fun number => (if_neg (Nat.not_lt_zero number)).symm

theorem run_owesOne_iff (conn : Bool) (events : List Event) :
    (Runs.run apply (initial conn) events).OwesOne ↔
      Runs.Meets apply Delivers (initial conn) events := by
  have whole := @Runs.good_iff_meets Database Event apply (fun _ _ => True) Delivers
    (fun db => ∀ number, db.made number ≤ db.owed number) OwesOne
    (by
      intro db event atLeast _ number
      have kept := owed_apply db event number
      have before := atLeast number
      omega)
    (fun _ event _ _ owes => owes.apply event)
    (by
      intro db event atLeast _ more still
      apply more
      intro number
      have kept := owed_apply db event number
      have before := atLeast number
      have after := still number
      omega)
    (initial conn) events (fun number => Nat.le_of_eq (initial_owesOne conn number).symm)
    (Runs.meets_true _ _)
  rw [whole, and_iff_right (initial_owesOne conn)]

theorem answeredOnce_iff_owesOne {db : Database} (empty : db.strand = []) :
    db.AnsweredOnce ↔ db.OwesOne := by
  simp [AnsweredOnce, OwesOne, owed, CallRecord.owed, recordOf, empty]

theorem drain_delivers (db : Database) : Runs.Meets apply Delivers db db.drain := by
  unfold drain
  generalize db.remainingRuns = runs
  induction runs generalizing db with
  | zero => trivial
  | succ runs ih =>
      refine ⟨?_, ih _⟩
      intro task _
      cases task with
      | query query sent => cases sent <;> rfl
      | connect | bound | refused => rfl

/-- A query that cannot be sent at first calls its callback twice. -/
example :
    let failing : Outcome := { Outcome.ok with sendError := some "no connection" }
    let queued := Runs.run apply (initial true)
      [.call (.execute .variadic "select 1"), .run .ok, .run failing]
    (Runs.run apply queued queued.drain).callbacks = [⟨0, some "no connection"⟩, ⟨0, none⟩] := by
  decide

end Database

end PqAsync
