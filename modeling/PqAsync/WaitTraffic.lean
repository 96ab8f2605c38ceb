import PqAsync.BeginCalls
import PqAsync.WaitCore

/-!
What becomes of the asynchronous calls of a `database_t`: each one has a task, in the strand
or in the run of a callback, until its callback was called, and its task carries its command.
-/

namespace PqAsync

def LockCallback.command : LockCallback → Option String
  | .statement (.sendQuery _ query) => some query.sql
  | .statement (.begin _) => some "BEGIN"
  | .reader _ sql => some sql
  | .deallocate _ sql => some sql
  | .caller _ => none

namespace LockedTask

def call : LockedTask → Nat
  | .connect callback => callback.call
  | .bound callback _ => callback.call
  | .query waiting _ _ => waiting.call
  | .reader call _ _ _ => call
  | .refused call _ => call

def unsent : LockedTask → Bool
  | .query _ sent _ => !sent
  | .reader _ _ sent _ => !sent
  | _ => true

end LockedTask

def Resume.task : Resume → Option LockedTask
  | .requeues task => some task
  | .queues task => some task
  | _ => none

namespace Activation

def task : Activation → Option LockedTask
  | .wait _ => none
  | .callback frame => frame.resume.task

def before : Activation → Option Nat
  | .wait waiting => some waiting.before
  | .callback _ => none

end Activation

structure Traffic where
  strand : List LockedTask
  /-- the tasks that callbacks queue again when they return -/
  running : List LockedTask
  sent : List Command
  callbacks : List Callback
  calls : List (Option String)
  /-- how many calls were made before each synchronous call that waits -/
  befores : List Nat

namespace Traffic

def tasks (traffic : Traffic) : List LockedTask := traffic.strand ++ traffic.running

def Finished (traffic : Traffic) (call : Nat) : Prop :=
  ∃ callback ∈ traffic.callbacks, callback.call = call ∧
    (callback.error = none → ∀ sql, traffic.calls[call]? = some (some sql) →
      ⟨some call, sql⟩ ∈ traffic.sent)

def Settled (traffic : Traffic) (call : Nat) : Prop :=
  traffic.Finished call ∧ ∀ task ∈ traffic.tasks, task.call = call → task.unsent = false

/-- A task carries the command of its call, and knows if it was sent. -/
def Fits (traffic : Traffic) : LockedTask → Prop
  | .connect callback => traffic.calls[callback.call]? = some callback.command
  | .bound callback _ => traffic.calls[callback.call]? = some callback.command
  | .query query sent _ => traffic.calls[query.call]? = some (some query.sql) ∧
      (sent = true → ⟨some query.call, query.sql⟩ ∈ traffic.sent)
  | .reader call sql sent _ => traffic.calls[call]? = some (some sql) ∧
      (∃ callback ∈ traffic.callbacks, callback.call = call) ∧
      (sent = true → ⟨some call, sql⟩ ∈ traffic.sent)
  | .refused call _ => call < traffic.calls.length

structure Accounted (traffic : Traffic) : Prop where
  queued : ∀ call < traffic.calls.length,
    traffic.Finished call ∨ ∃ task ∈ traffic.tasks, task.call = call
  fits : ∀ task ∈ traffic.tasks, traffic.Fits task
  ran : ∀ task ∈ traffic.running, task.unsent = false → traffic.Finished task.call
  made : ∀ before ∈ traffic.befores, before ≤ traffic.calls.length

structure Grows (traffic next : Traffic) : Prop where
  sent : traffic.sent ⊆ next.sent
  callbacks : traffic.callbacks ⊆ next.callbacks
  calls : traffic.calls <+: next.calls
  befores : next.befores ⊆ traffic.befores

theorem Grows.getElem? {traffic next : Traffic} (grows : traffic.Grows next) {call : Nat}
    (made : call < traffic.calls.length) : next.calls[call]? = traffic.calls[call]? := by
  obtain ⟨later, same⟩ := grows.calls
  rw [← same, List.getElem?_append_left made]

theorem Fits.made {traffic : Traffic} {task : LockedTask} (fits : traffic.Fits task) :
    task.call < traffic.calls.length := by
  cases task with
  | connect callback => exact (List.getElem?_eq_some_iff.mp fits).1
  | bound callback lock => exact (List.getElem?_eq_some_iff.mp fits).1
  | query query sent lock => exact (List.getElem?_eq_some_iff.mp fits.1).1
  | reader call sql sent lock => exact (List.getElem?_eq_some_iff.mp fits.1).1
  | refused call message => exact fits

theorem Fits.reader_finished {traffic : Traffic} {call : Nat} {sql : String}
    {lock : ConnectionLock} (fits : traffic.Fits (.reader call sql true lock)) :
    traffic.Finished call := by
  obtain ⟨command, ⟨callback, called, number⟩, isSent⟩ := fits
  refine ⟨callback, called, number, ?_⟩
  intro _ other own
  have sameSql : some (some sql) = some (some other) := command.symm.trans own
  obtain rfl := Option.some.inj (Option.some.inj sameSql)
  exact isSent rfl

theorem Finished.grows {traffic next : Traffic} {call : Nat} (finished : traffic.Finished call)
    (made : call < traffic.calls.length) (grows : traffic.Grows next) : next.Finished call := by
  obtain ⟨callback, called, same, isSent⟩ := finished
  refine ⟨callback, grows.callbacks called, same, ?_⟩
  intro ok sql command
  rw [grows.getElem? made] at command
  exact grows.sent (isSent ok sql command)

theorem Fits.grows {traffic next : Traffic} {task : LockedTask} (fits : traffic.Fits task)
    (grows : traffic.Grows next) : next.Fits task := by
  have same := grows.getElem? fits.made
  cases task with
  | connect callback => exact same.trans fits
  | bound callback lock => exact same.trans fits
  | query query sent lock =>
      exact ⟨same.trans fits.1, fun isSent => grows.sent (fits.2 isSent)⟩
  | reader call sql sent lock =>
      obtain ⟨callback, called, number⟩ := fits.2.1
      exact ⟨same.trans fits.1, ⟨callback, grows.callbacks called, number⟩,
        fun isSent => grows.sent (fits.2.2 isSent)⟩
  | refused call message => exact Nat.lt_of_lt_of_le fits grows.calls.length_le

theorem Accounted.step {traffic next : Traffic} (accounted : traffic.Accounted)
    (grows : traffic.Grows next)
    (new : ∀ call, traffic.calls.length ≤ call → call < next.calls.length →
      ∃ task ∈ next.tasks, task.call = call)
    (stays : ∀ task ∈ traffic.tasks,
      next.Finished task.call ∨ ∃ other ∈ next.tasks, other.call = task.call)
    (fits : ∀ task ∈ next.tasks, task ∈ traffic.tasks ∨ next.Fits task)
    (ran : ∀ task ∈ next.running,
      task ∈ traffic.running ∨ (task.unsent = false → next.Finished task.call)) :
    next.Accounted := by
  refine ⟨?_, ?_, ?_, ?_⟩
  · intro call made
    by_cases old : call < traffic.calls.length
    · obtain finished | ⟨task, queued, rfl⟩ := accounted.queued call old
      · exact Or.inl (finished.grows old grows)
      · exact stays task queued
    · exact Or.inr (new call (Nat.le_of_not_lt old) made)
  · intro task queued
    obtain old | fit := fits task queued
    · exact (accounted.fits task old).grows grows
    · exact fit
  · intro task runs isSent
    obtain old | finished := ran task runs
    · have made := (accounted.fits task (List.mem_append_right _ old)).made
      exact (accounted.ran task old isSent).grows made grows
    · exact finished isSent
  · intro before waiting
    exact Nat.le_trans (accounted.made before (grows.befores waiting)) grows.calls.length_le

theorem Accounted.moved {traffic next : Traffic} (accounted : traffic.Accounted)
    (sent : traffic.sent ⊆ next.sent) (callbacks : traffic.callbacks ⊆ next.callbacks)
    (calls : next.calls = traffic.calls) (befores : next.befores ⊆ traffic.befores)
    (tasks : ∀ task, task ∈ next.tasks ↔ task ∈ traffic.tasks)
    (running : next.running ⊆ traffic.running) : next.Accounted := by
  refine accounted.step ⟨sent, callbacks, calls ▸ List.prefix_refl _, befores⟩ ?_
    (fun task queued => Or.inr ⟨task, (tasks task).mpr queued, rfl⟩)
    (fun task queued => Or.inl ((tasks task).mp queued)) (fun task runs => Or.inl (running runs))
  intro call old made
  rw [calls] at made
  exact absurd made (Nat.not_lt.mpr old)

def called (traffic : Traffic) (call : Nat) (error : Option String) : Traffic :=
  { traffic with callbacks := traffic.callbacks ++ [{ call, error }] }

theorem callbacks_called (traffic : Traffic) (call : Nat) (error : Option String) :
    traffic.callbacks ⊆ (traffic.called call error).callbacks := List.subset_append_left _ _

theorem finished_called (traffic : Traffic) (call : Nat) (message : String) :
    (traffic.called call (some message)).Finished call :=
  ⟨⟨call, some message⟩, by simp [called], rfl, by simp⟩

theorem Accounted.called {traffic : Traffic} (accounted : traffic.Accounted) (call : Nat)
    (error : Option String) : (traffic.called call error).Accounted :=
  accounted.moved (List.Subset.refl _) (traffic.callbacks_called call error) rfl (List.Subset.refl _)
    (fun _ => Iff.rfl) (List.Subset.refl _)

theorem Accounted.sending {traffic : Traffic} (accounted : traffic.Accounted)
    (more : List Command) : { traffic with sent := traffic.sent ++ more }.Accounted :=
  accounted.moved (by simp) (List.Subset.refl _) rfl (List.Subset.refl _) (fun _ => Iff.rfl)
    (List.Subset.refl _)

theorem Accounted.front {traffic next : Traffic} {task : LockedTask} {rest : List LockedTask}
    (accounted : traffic.Accounted) (front : traffic.strand = task :: rest)
    (sent : traffic.sent ⊆ next.sent) (callbacks : traffic.callbacks ⊆ next.callbacks)
    (calls : next.calls = traffic.calls) (befores : next.befores = traffic.befores)
    (kept : rest ++ traffic.running ⊆ next.tasks)
    (stays : next.Finished task.call ∨ ∃ other ∈ next.tasks, other.call = task.call)
    (fits : ∀ other ∈ next.tasks, other ∈ rest ++ traffic.running ∨ next.Fits other)
    (ran : ∀ other ∈ next.running,
      other ∈ traffic.running ∨ (other.unsent = false → next.Finished other.call)) :
    next.Accounted := by
  refine accounted.step ⟨sent, callbacks, calls ▸ List.prefix_refl _,
    befores ▸ List.Subset.refl _⟩ ?_ ?_ ?_ ran
  · intro call old made
    rw [calls] at made
    exact absurd made (Nat.not_lt.mpr old)
  · intro other queued
    rw [tasks, front, List.cons_append] at queued
    rcases List.mem_cons.mp queued with rfl | later
    · exact stays
    · exact Or.inr ⟨other, kept later, rfl⟩
  · intro other queued
    rw [tasks, front, List.cons_append]
    exact (fits other queued).imp_left (List.mem_cons_of_mem task)

theorem Accounted.requeued {traffic next : Traffic} {task : LockedTask}
    {rest : List LockedTask} (accounted : traffic.Accounted) (other : LockedTask)
    (front : traffic.strand = task :: rest) (sent : traffic.sent ⊆ next.sent)
    (calls : next.calls = traffic.calls) (befores : next.befores = traffic.befores)
    (callbacks : next.callbacks = traffic.callbacks) (running : next.running = traffic.running)
    (queued : ∀ another, another ∈ next.strand ↔ another = other ∨ another ∈ rest)
    (same : other.call = task.call) (fits : next.Fits other) : next.Accounted := by
  have member : ∀ another, another ∈ next.tasks ↔
      another = other ∨ another ∈ rest ++ traffic.running := by
    intro another
    rw [tasks, List.mem_append, queued, running, List.mem_append, or_assoc]
  refine accounted.front front sent (callbacks ▸ List.Subset.refl _) calls befores ?_ ?_ ?_ ?_
  · intro another later
    exact (member another).mpr (Or.inr later)
  · exact Or.inr ⟨other, (member other).mpr (Or.inl rfl), same⟩
  · intro another known
    rcases (member another).mp known with rfl | later
    · exact Or.inr fits
    · exact Or.inl later
  · intro another runs
    exact Or.inl (running ▸ runs)

theorem Accounted.entered {traffic next : Traffic} {task : LockedTask} {rest : List LockedTask}
    (accounted : traffic.Accounted) (other : LockedTask) (front : traffic.strand = task :: rest)
    (sent : next.sent = traffic.sent) (callbacks : traffic.callbacks ⊆ next.callbacks)
    (calls : next.calls = traffic.calls) (befores : next.befores = traffic.befores)
    (strand : next.strand = rest) (running : next.running = other :: traffic.running)
    (same : other.call = task.call) (fits : next.Fits other)
    (ran : other.unsent = false → next.Finished other.call) : next.Accounted := by
  have member : ∀ another, another ∈ next.tasks ↔
      another = other ∨ another ∈ rest ++ traffic.running := by
    intro another
    simp only [tasks, strand, running, List.mem_append, List.mem_cons]
    exact or_left_comm
  refine accounted.front front (sent ▸ List.Subset.refl _) callbacks calls befores ?_ ?_ ?_ ?_
  · intro another later
    exact (member another).mpr (Or.inr later)
  · exact Or.inr ⟨other, (member other).mpr (Or.inl rfl), same⟩
  · intro another known
    rcases (member another).mp known with rfl | later
    · exact Or.inr fits
    · exact Or.inl later
  · intro another runs
    rw [running] at runs
    rcases List.mem_cons.mp runs with rfl | earlier
    · exact Or.inr ran
    · exact Or.inl earlier

theorem Accounted.left {traffic : Traffic} {task : LockedTask} {rest : List LockedTask}
    (accounted : traffic.Accounted) (front : traffic.strand = task :: rest)
    (error : Option String)
    (finished : ({ traffic with strand := rest }.called task.call error).Finished task.call) :
    ({ traffic with strand := rest }.called task.call error).Accounted := by
  refine accounted.front front (List.Subset.refl _) (callbacks_called _ task.call error) rfl rfl
    (List.Subset.refl _) (Or.inl finished) (fun other queued => Or.inl queued) ?_
  exact fun other runs => Or.inl runs

theorem Accounted.settled_of_empty {traffic : Traffic} (accounted : traffic.Accounted)
    (empty : traffic.strand = []) {call : Nat} (made : call < traffic.calls.length)
    (ran : ∀ task ∈ traffic.running, task.call = call → task.unsent = false) :
    traffic.Settled call := by
  have member : ∀ task ∈ traffic.tasks, task ∈ traffic.running := by simp [tasks, empty]
  obtain finished | ⟨task, queued, same⟩ := accounted.queued call made
  · exact ⟨finished, fun task queued => ran task (member task queued)⟩
  · have runs := member task queued
    refine ⟨?_, fun other known => ran other (member other known)⟩
    rw [← same]
    exact accounted.ran task runs (ran task runs same)

end Traffic

namespace LockedDatabase

def traffic (db : LockedDatabase) : Traffic :=
  { strand := db.strand, running := db.stack.filterMap Activation.task, sent := db.sent,
    callbacks := db.callbacks, calls := db.calls,
    befores := db.stack.filterMap Activation.before }

@[simp] theorem dropLock_traffic (db : LockedDatabase) (lock : ConnectionLock) :
    (db.dropLock lock).traffic = db.traffic := by
  unfold dropLock
  split <;> rfl

@[simp] theorem setLock_traffic (db : LockedDatabase) (lock : Option ConnectionLock) :
    (db.setLock lock).traffic = db.traffic := by
  unfold setLock
  split
  · rfl
  · rw [dropLock_traffic]
    rfl

@[simp] theorem setInTransaction_traffic (db : LockedDatabase) (value : Bool) :
    (db.setInTransaction value).traffic = db.traffic := by
  unfold setInTransaction
  split <;> rfl

@[simp] theorem reopen_traffic (db : LockedDatabase) (reopened : Bool) :
    (db.reopen reopened).traffic = db.traffic := by
  cases reopened <;> simp [reopen]

@[simp] theorem keepLock_traffic (db : LockedDatabase) (keeps : Bool)
    (lock : Option ConnectionLock) : (db.keepLock keeps lock).traffic = db.traffic := by
  cases keeps <;> rfl

@[simp] theorem callback_traffic (db : LockedDatabase) (call : Nat) (error : Option String) :
    (db.callback call error).traffic = db.traffic.called call error := rfl

theorem reserve_traffic (db : LockedDatabase) (conn : Nat) :
    (db.reserve conn).1.traffic = db.traffic := rfl

theorem newLock_traffic (db : LockedDatabase) (conn : Nat) :
    (db.newLock conn).1.traffic = db.traffic := rfl

theorem enter_traffic (db : LockedDatabase) (frame : CallbackFrame) :
    (db.enter frame).traffic =
      { db.traffic with running := frame.resume.task.toList ++ db.traffic.running } := by
  obtain ⟨lock, resets, resume⟩ := frame
  cases resume <;> rfl

@[simp] theorem complete_traffic (db : LockedDatabase) (query : Query) (error : Option String) :
    (db.complete query error).traffic = db.traffic.called query.call error := by
  unfold complete
  split <;> simp

@[simp] theorem giveResult_traffic (db : LockedDatabase) (query : Query) (lock : ConnectionLock)
    (error : Option String) :
    (db.giveResult query lock error).traffic = db.traffic.called query.call error := by
  simp only [giveResult, complete_traffic, enter_traffic]
  rfl

@[simp] theorem failCallback_traffic (db : LockedDatabase) (message : String)
    (callback : LockCallback) : (db.failCallback message callback).traffic =
      db.traffic.called callback.call (some message) := by
  unfold failCallback
  split
  · rw [complete_traffic, enter_traffic]
    rfl
  · rw [callback_traffic, enter_traffic]
    rfl

theorem openConnection_traffic (db : LockedDatabase) (callback : LockCallback) :
    ∃ task : LockedTask, task.call = callback.call ∧
      (∀ traffic : Traffic, traffic.calls[callback.call]? = some callback.command →
        traffic.Fits task) ∧
      (db.openConnection callback).traffic =
        { db.traffic with strand := db.traffic.strand ++ [task] } := by
  unfold openConnection
  cases db.lock with
  | some lock => exact ⟨.bound callback lock, rfl, fun _ fits => fits, rfl⟩
  | none => exact ⟨.connect callback, rfl, fun _ fits => fits, rfl⟩

theorem runCallback_accounted {db : LockedDatabase} {before : Traffic} {task : LockedTask}
    {rest : List LockedTask} {callback : LockCallback} (accounted : before.Accounted)
    (front : before.strand = task :: rest) (popped : db.traffic = { before with strand := rest })
    (same : callback.call = task.call)
    (fits : before.calls[callback.call]? = some callback.command) (lock : ConnectionLock) :
    (db.runCallback lock callback).traffic.Accounted := by
  -- a lambda that calls `open_connection(cb)` again
  have reopens : ∀ (next : LockedDatabase) (again : LockCallback), next.traffic = db.traffic →
      again.call = callback.call → again.command = callback.command →
      (next.openConnection again).traffic.Accounted := by
    intro next again unchanged number command
    obtain ⟨waiting, own, carries, opened⟩ := next.openConnection_traffic again
    rw [opened, unchanged, popped]
    refine accounted.requeued waiting front (List.Subset.refl _) rfl rfl rfl rfl ?_
      (own.trans (number.trans same)) (carries _ ?_)
    · simp [or_comm]
    · rw [number, command]
      exact fits
  have queues : ∀ (next : LockedDatabase) (query : Query), query.call = callback.call →
      some query.sql = callback.command →
      (next.traffic = { db.traffic with strand := .query query false lock :: db.traffic.strand } ∨
        next.traffic = { db.traffic with
          strand := db.traffic.strand ++ [.query query false lock] }) →
      next.traffic.Accounted := by
    intro next query number command queued
    refine accounted.requeued (.query query false lock) front ?_ ?_ ?_ ?_ ?_ ?_
      (number.trans same) ⟨?_, fun impossible => by cases impossible⟩
    all_goals rcases queued with front_ | back_
    all_goals simp_all [or_comm]
  cases callback with
  | statement continuation =>
      cases continuation with
      | sendQuery overload query =>
          cases overload with
          | variadic =>
              simp only [runCallback, dropLock_traffic]
              exact queues _ query rfl rfl (Or.inl rfl)
          | parameters =>
              simp only [runCallback, dropLock_traffic]
              exact queues _ query rfl rfl (Or.inr rfl)
      | begin call =>
          simp only [runCallback, dropLock_traffic]
          exact reopens _ _ (db.setLock_traffic (some lock)) rfl rfl
  | deallocate call sql =>
      simp only [runCallback, dropLock_traffic]
      exact reopens db _ rfl rfl rfl
  | reader call sql =>
      simp only [runCallback, callback_traffic, enter_traffic, popped]
      refine accounted.entered (.reader call sql false lock) front rfl ?_ rfl rfl rfl rfl same
        ⟨fits, ⟨⟨call, none⟩, ?_, rfl⟩, fun impossible => by cases impossible⟩
        (fun impossible => by cases impossible)
      · simp [Traffic.called]
      · simp [Traffic.called]
  | caller call =>
      simp only [runCallback, callback_traffic, enter_traffic, popped]
      have number : call = task.call := same
      rw [number]
      refine accounted.left front none ⟨⟨task.call, none⟩, by simp [Traffic.called], rfl, ?_⟩
      -- `open_connection(cb)` has no command
      intro _ sql command
      rw [← same] at command
      have both := fits.symm.trans command
      cases both

theorem connect_accounted {db : LockedDatabase} {rest : List LockedTask}
    {callback : LockCallback} (accounted : db.traffic.Accounted)
    (front : db.strand = .connect callback :: rest) (outcome : TaskOutcome) :
    (db.connect rest callback outcome).traffic.Accounted := by
  have fits : db.traffic.Fits (.connect callback) :=
    accounted.fits _ (by simp [Traffic.tasks, traffic, front])
  have failed := fun message =>
    accounted.left front (some message) (Traffic.finished_called _ _ message)
  unfold connect
  split
  · exact accounted
  · rw [failCallback_traffic]
    exact failed _
  · simp only [failCallback_traffic, reopen_traffic, reserve_traffic]
    exact failed _
  · dsimp only
    refine runCallback_accounted accounted front ?_ rfl fits _
    simp only [newLock_traffic, reopen_traffic, reserve_traffic]
    rfl

section

variable {db : LockedDatabase} {rest : List LockedTask}

theorem front_fits (accounted : db.traffic.Accounted) {task : LockedTask}
    (front : db.strand = task :: rest) : db.traffic.Fits task :=
  accounted.fits task (by simp [Traffic.tasks, traffic, front])

/-- A command that is sent leaves its task in front. -/
theorem sends_accounted (accounted : db.traffic.Accounted) {task other : LockedTask}
    (front : db.strand = task :: rest) {command : Command} (same : other.call = task.call)
    (fits : ({ db.traffic with
      strand := other :: rest, sent := db.sent ++ [command] } : Traffic).Fits other) :
    ({ db.traffic with
      strand := other :: rest, sent := db.sent ++ [command] } : Traffic).Accounted :=
  accounted.requeued other front (by simp [traffic]) rfl rfl rfl rfl (by simp) same fits

theorem query_accounted (accounted : db.traffic.Accounted) {query : Query} {sent : Bool}
    {lock : ConnectionLock} (front : db.strand = .query query sent lock :: rest)
    (outcome : TaskOutcome) : (db.runFront outcome).traffic.Accounted := by
  have fits := front_fits accounted front
  -- a query that fails is behind its callback, and is sent again
  have fails : ∀ message : String, (({ db with strand := rest }.enter
      { lock := some lock, resume := .requeues (.query query sent lock) }).complete query
        (some message)).traffic.Accounted := by
    intro message
    rw [complete_traffic, enter_traffic]
    refine accounted.entered (.query query sent lock) front rfl
      (List.subset_append_left _ _) rfl rfl rfl rfl rfl fits (fun _ => ?_)
    exact Traffic.finished_called _ query.call message
  cases sent with
  | false =>
      cases sendError : outcome.sendError with
      | none =>
          simp only [runFront, front, sendError]
          exact @sends_accounted db rest accounted _ (.query query true lock) front
            ⟨some query.call, query.sql⟩ rfl ⟨fits.1, fun _ => by simp⟩
      | some message =>
          simp only [runFront, front, sendError]
          exact fails message
  | true =>
      cases consuming : outcome.consuming with
      | busy => simpa only [runFront, front, consuming] using accounted
      | failed message =>
          simp only [runFront, front, consuming]
          exact fails message
      | ready error =>
          simp only [runFront, front, consuming, giveResult_traffic]
          refine accounted.left front error ⟨⟨query.call, error⟩, List.mem_concat_self, rfl, ?_⟩
          obtain ⟨command, isSent⟩ := fits
          intro _ sql own
          have sameSql : some (some query.sql) = some (some sql) := command.symm.trans own
          obtain rfl := Option.some.inj (Option.some.inj sameSql)
          exact isSent rfl

theorem reader_accounted (accounted : db.traffic.Accounted) {call : Nat} {sql : String}
    {sent : Bool} {lock : ConnectionLock} (front : db.strand = .reader call sql sent lock :: rest)
    (outcome : TaskOutcome) : (db.runFront outcome).traffic.Accounted := by
  have fits := front_fits accounted front
  have reads : ({ db with strand := rest }.enter
      { lock := some lock,
        resume := .requeues (.reader call sql sent lock) }).traffic.Accounted := by
    rw [enter_traffic]
    refine accounted.entered (.reader call sql sent lock) front rfl (List.Subset.refl _) rfl
      rfl rfl rfl rfl fits ?_
    cases sent with
    | false => exact fun impossible => by cases impossible
    | true =>
        have finished : db.traffic.Finished call := Traffic.Fits.reader_finished fits
        exact fun _ => finished
  cases sent with
  | false =>
      cases sendError : outcome.sendError with
      | none =>
          simp only [runFront, front, sendError]
          exact @sends_accounted db rest accounted _ (.reader call sql true lock) front
            ⟨some call, sql⟩ rfl ⟨fits.1, fits.2.1, fun _ => by simp⟩
      | some message =>
          simp only [runFront, front, sendError]
          exact reads
  | true =>
      cases consuming : outcome.consuming with
      | busy => simpa only [runFront, front, consuming] using accounted
      | failed message =>
          simp only [runFront, front, consuming]
          exact reads
      | ready error =>
          simp only [runFront, front, consuming]
          cases outcome.exhausted with
          | false => exact reads
          | true =>
              have finished : db.traffic.Finished call := Traffic.Fits.reader_finished fits
              rw [enter_traffic]
              exact accounted.front front (List.Subset.refl _) (List.Subset.refl _) rfl
                rfl (List.Subset.refl _) (Or.inl finished)
                (fun other queued => Or.inl queued) (fun other runs => Or.inl runs)

theorem runFront_accounted (accounted : db.traffic.Accounted) (outcome : TaskOutcome) :
    (db.runFront outcome).traffic.Accounted := by
  cases front : db.strand with
  | nil => simpa only [runFront, front] using accounted
  | cons task rest =>
      cases task with
      | connect callback =>
          simp only [runFront, front]
          exact connect_accounted accounted front outcome
      | bound callback lock =>
          simp only [runFront, front]
          exact runCallback_accounted accounted front rfl rfl (front_fits accounted front) _
      | refused call message =>
          simp only [runFront, front]
          exact accounted.left front (some message) (Traffic.finished_called _ call message)
      | query query sent lock => exact query_accounted accounted front outcome
      | reader call sql sent lock => exact reader_accounted accounted front outcome

end

theorem resume_accounted {db : LockedDatabase} (frame : CallbackFrame)
    (accounted : ({ db.traffic with
      running := frame.resume.task.toList ++ db.traffic.running } : Traffic).Accounted)
    (next : Option (Option String)) : (db.resume frame next).traffic.Accounted := by
  have dropped : ∀ later : LockedDatabase, later.traffic.Accounted →
      (frame.lock.elim later later.dropLock).traffic.Accounted := by
    intro later known
    cases frame.lock with
    | none => exact known
    | some lock => simpa using known
  have queues : ∀ (task : LockedTask) (strand : List LockedTask),
      frame.resume.task = some task → (∀ other, other ∈ strand ↔ other = task ∨ other ∈ db.strand) →
      ({ db.traffic with strand } : Traffic).Accounted := by
    intro task strand behind member
    rw [behind] at accounted
    refine accounted.moved (List.Subset.refl _) (List.Subset.refl _) rfl (List.Subset.refl _) ?_
      (List.subset_append_right _ _)
    intro other
    simp only [Traffic.tasks, List.mem_append, member, Option.toList, List.mem_cons,
      List.not_mem_nil, or_false]
    rw [or_assoc, or_left_comm]
    rfl
  unfold resume
  apply dropped
  split
  · rename_i leaves
    rw [leaves] at accounted
    exact accounted
  · rename_i task requeues
    exact queues task (task :: db.strand) (by rw [requeues]; rfl) (by simp)
  · rename_i task pushes
    exact queues task (db.strand ++ [task]) (by rw [pushes]; rfl) (by simp [or_comm])
  · rename_i query lock error results
    rw [results] at accounted
    rw [giveResult_traffic]
    exact accounted.called query.call error
  · rename_i results
    rw [results] at accounted
    exact accounted

theorem returns_accounted {db : LockedDatabase} (accounted : db.traffic.Accounted)
    (keeps : Bool) (next : Option (Option String)) :
    (db.returns keeps next).traffic.Accounted := by
  unfold returns
  split
  · rename_i frame stack running
    have unchanged : ((if frame.resets then db.setLock none else db).keepLock keeps
        frame.lock).traffic = db.traffic := by
      rw [keepLock_traffic]
      split
      · exact db.setLock_traffic none
      · rfl
    generalize (if frame.resets then db.setLock none else db).keepLock keeps frame.lock = reset
      at unchanged ⊢
    have whole : db.traffic = { { reset with stack : LockedDatabase }.traffic with
        running := frame.resume.task.toList ++ stack.filterMap Activation.task } := by
      have tasks : db.traffic.running =
          frame.resume.task.toList ++ stack.filterMap Activation.task := by
        simp only [traffic, running]
        obtain ⟨lock, resets, resume⟩ := frame
        cases resume <;> rfl
      have befores : db.traffic.befores = stack.filterMap Activation.before := by
        simp only [traffic, running]
        rfl
      rw [← tasks]
      simp only [traffic, Traffic.mk.injEq] at unchanged befores ⊢
      exact ⟨unchanged.1.symm, trivial, unchanged.2.2.1.symm, unchanged.2.2.2.1.symm,
        unchanged.2.2.2.2.1.symm, befores⟩
    apply resume_accounted
    rw [whole] at accounted
    exact accounted
  · exact accounted

theorem call_accounted {db : LockedDatabase} (accounted : db.traffic.Accounted)
    (call : AsyncCall) : (db.call call).traffic.Accounted := by
  have queues : ∀ task : LockedTask, task.call = db.calls.length →
      ({ db.traffic with
        calls := db.calls ++ [call.command], strand := db.strand ++ [task] } : Traffic).Fits task →
      ({ db.traffic with
        calls := db.calls ++ [call.command], strand := db.strand ++ [task] } : Traffic).Accounted := by
    intro task number fits
    refine accounted.step ⟨List.Subset.refl _, List.Subset.refl _, List.prefix_append _ _,
      List.Subset.refl _⟩ ?_ ?_ ?_ (fun other runs => Or.inl runs)
    · intro new old made
      refine ⟨task, by simp [Traffic.tasks], number.trans ?_⟩
      simp only [List.length_append, List.length_singleton] at made
      exact Nat.le_antisymm old (Nat.le_of_lt_succ made)
    · intro other queued
      refine Or.inr ⟨other, ?_, rfl⟩
      rcases List.mem_append.mp queued with waits | runs
      · exact List.mem_append_left _ (List.mem_append_left _ waits)
      · exact List.mem_append_right _ runs
    · intro other queued
      rcases List.mem_append.mp queued with waits | runs
      · rcases List.mem_append.mp waits with old | new
        · exact Or.inl (List.mem_append_left _ old)
        · rw [List.mem_singleton.mp new]
          exact Or.inr fits
      · exact Or.inl (List.mem_append_right _ runs)
  have refuses : ∀ message, ({ db with calls := db.calls ++ [call.command] }.pushBack
      (.refused db.calls.length message)).traffic.Accounted := by
    intro message
    exact queues (.refused db.calls.length message) rfl (by simp [Traffic.Fits])
  have opens : ∀ callback : LockCallback, callback.call = db.calls.length →
      callback.command = call.command →
      ({ db with calls := db.calls ++ [call.command] }.openConnection callback).traffic.Accounted := by
    intro callback number command
    obtain ⟨task, same, carries, opened⟩ :=
      openConnection_traffic { db with calls := db.calls ++ [call.command] } callback
    rw [opened]
    refine queues task (same.trans number) (carries _ ?_)
    rw [number, command]
    simp
  unfold LockedDatabase.call
  cases call with
  | begin =>
      dsimp only
      split
      · exact refuses _
      · exact opens _ rfl rfl
  | endTransaction sql | savepoint sql =>
      dsimp only
      split
      · exact opens _ rfl rfl
      · exact refuses _
  | execute overload sql => exact opens _ rfl rfl
  | queryReader sql => exact opens _ rfl rfl
  | deallocatePrepared name => exact opens _ rfl rfl
  | openConnection => exact opens _ rfl rfl

theorem openConnectionSync_traffic (db : LockedDatabase) (outcome : SyncOutcome) :
    (db.openConnectionSync outcome).1.traffic = db.traffic := by
  unfold openConnectionSync
  split
  · rfl
  · split
    · rfl
    · dsimp only
      split
      · rw [reopen_traffic]
        rfl
      · rw [dropLock_traffic, reopen_traffic]
        rfl

theorem finish_traffic (db : LockedDatabase) (outcome : SyncOutcome) (command : SyncCommand) :
    ∃ more, (db.finish outcome command).1.traffic =
      { db.traffic with sent := db.traffic.sent ++ more } := by
  have opened := db.openConnectionSync_traffic outcome
  have unchanged : ∀ next : LockedDatabase, next.traffic = db.traffic →
      ∃ more, next.traffic = { db.traffic with sent := db.traffic.sent ++ more } := by
    intro next same
    exact ⟨[], by rw [same, List.append_nil]⟩
  have sends : ∀ (next : LockedDatabase) (sql : String), next.traffic = db.traffic →
      (next.sendSync sql).traffic =
        { db.traffic with sent := db.traffic.sent ++ [⟨none, sql⟩] } := by
    intro next sql same
    rw [← same]
    rfl
  cases command with
  | execute sql =>
      simp only [finish]
      generalize db.openConnectionSync outcome = result at opened ⊢
      obtain ⟨next, lock⟩ := result
      cases lock with
      | none => exact unchanged next opened
      | some lock =>
          dsimp only
          split
          · exact ⟨_, (dropLock_traffic _ lock).trans (sends next sql opened)⟩
          · exact unchanged _ ((dropLock_traffic _ lock).trans opened)
  | begin =>
      simp only [finish]
      generalize db.openConnectionSync outcome = result at opened ⊢
      obtain ⟨next, lock⟩ := result
      cases lock with
      | none => exact unchanged next opened
      | some lock =>
          have locked := (setLock_traffic next (some lock)).trans opened
          have reopened := (reopen_traffic _ outcome.beginReopened).trans locked
          dsimp only
          split
          · exact unchanged _ locked
          · split
            · exact ⟨_, (setInTransaction_traffic _ outcome.reply).trans
                (sends _ "BEGIN" reopened)⟩
            · exact unchanged _ reopened
  | endTransaction sql =>
      simp only [finish]
      split
      · split
        · refine ⟨[⟨none, sql⟩], ?_⟩
          rw [setLock_traffic, setInTransaction_traffic]
          exact sends db sql rfl
        · exact ⟨_, sends db sql rfl⟩
      · exact unchanged db rfl

@[simp] theorem freeLock_traffic (db : LockedDatabase) (lock : ConnectionLock) :
    (db.freeLock lock).traffic = db.traffic := by
  unfold freeLock
  split
  · exact dropLock_traffic _ lock
  · rfl

end LockedDatabase

end PqAsync
