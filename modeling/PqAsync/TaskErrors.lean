import PqAsync.TaskCore

/-!
How often a task gives its callback an error, and when a task that did leaves its strand.
-/

namespace PqAsync

namespace ConnectionTask

def errors (task : ConnectionTask) : Nat := task.calls.countP Option.isSome

structure FailsOnce (task : ConnectionTask) : Prop where
  once : task.errors ≤ 1
  leaves : 0 < task.errors → task.requeue = .none
  sends : task.sends ≤ 1

instance (task : ConnectionTask) : Decidable task.FailsOnce :=
  decidable_of_iff (task.errors ≤ 1 ∧ (0 < task.errors → task.requeue = .none) ∧ task.sends ≤ 1)
    ⟨fun ⟨once, leaves, sends⟩ => ⟨once, leaves, sends⟩,
      fun failsOnce => ⟨failsOnce.once, failsOnce.leaves, failsOnce.sends⟩⟩

def Unsent (task : ConnectionTask) : Prop :=
  task.cmdType = .query ∨ task.cmdType = .prepare ∨ task.cmdType = .queryPrepared

structure Waiting (task : ConnectionTask) : Prop where
  open_ : task.completed = false
  fresh : task.Unsent → task.sends = 0

def Answered (task : ConnectionTask) (answers : TaskAnswers) : Prop :=
  task.hasCallback = true →
    (task.Unsent → answers.sendError = none) ∧
    (task.cmdType = .cancel → answers.cancelError = none) ∧
    (task.cmdType = .sent → answers.receiving ≠ .failed)

instance (task : ConnectionTask) : Decidable task.Unsent :=
  inferInstanceAs (Decidable (_ ∨ _))

instance (task : ConnectionTask) (answers : TaskAnswers) : Decidable (task.Answered answers) :=
  inferInstanceAs (Decidable (_ → _))

theorem Waiting.errors {task : ConnectionTask} (waiting : task.Waiting)
    (failsOnce : task.FailsOnce) : task.errors = 0 := by
  by_contra some_
  have left := failsOnce.leaves (Nat.pos_of_ne_zero some_)
  simp [requeue, waiting.open_] at left

@[simp] theorem errors_call (task : ConnectionTask) (error : Option String) :
    (task.call error).errors = task.errors + error.toList.length := by
  cases error <;> simp [errors, call]

theorem not_failsOnce_call {task : ConnectionTask} (open_ : task.completed = false)
    (message : String) : ¬ (task.call (some message)).FailsOnce := by
  intro failsOnce
  have left := failsOnce.leaves (by simp)
  simp [requeue, call, open_] at left

theorem giveResults_frame (task : ConnectionTask) (results : List (Option String)) :
    (task.giveResults results).completed = task.completed ∧
      (task.giveResults results).sends = task.sends ∧
      (task.giveResults results).errors ≤ task.errors + 1 := by
  induction results generalizing task with
  | nil => exact ⟨rfl, rfl, Nat.le_succ _⟩
  | cons result results ih =>
      cases result with
      | none =>
          obtain ⟨completed, sends, errors⟩ := ih (task.call none)
          refine ⟨completed, sends, ?_⟩
          change ((task.call none).giveResults results).errors ≤ task.errors + 1
          simpa using errors
      | some thrown =>
          refine ⟨rfl, rfl, ?_⟩
          simp [giveResults, caught]

theorem send_failsOnce_iff {task : ConnectionTask} (waiting : task.Waiting)
    (failsOnce : task.FailsOnce) (unsent : task.Unsent) (error : Option String) :
    (task.send error).FailsOnce ↔ error = none := by
  have fresh := waiting.fresh unsent
  have none_ := waiting.errors failsOnce
  cases error with
  | none =>
      refine iff_of_true ⟨?_, ?_, ?_⟩ rfl
      · exact failsOnce.once
      · exact failsOnce.leaves
      · simp [send, fresh]
  | some message =>
      refine iff_of_false ?_ (by simp)
      exact @not_failsOnce_call { task with sends := task.sends + 1 } waiting.open_ message

theorem consumeData_failsOnce_iff {task : ConnectionTask} (waiting : task.Waiting)
    (failsOnce : task.FailsOnce) (receiving : Receiving) :
    (task.consumeData receiving).FailsOnce ↔ receiving ≠ .failed := by
  cases receiving with
  | failed =>
      refine iff_of_false ?_ (by simp)
      exact not_failsOnce_call waiting.open_ _
  | busy => exact iff_of_true failsOnce (by simp)
  | ready results =>
      refine iff_of_true ?_ (by simp)
      obtain ⟨completed, sends, errors⟩ :=
        giveResults_frame { task with completed := true } results
      have none_ := waiting.errors failsOnce
      refine ⟨?_, ?_, ?_⟩
      · exact Nat.le_trans errors (Nat.succ_le_succ (Nat.le_of_eq none_))
      · intro _
        exact if_pos completed
      · exact Nat.le_trans (Nat.le_of_eq sends) failsOnce.sends

theorem connect_failsOnce {task : ConnectionTask} (waiting : task.Waiting)
    (failsOnce : task.FailsOnce) (answers : TaskAnswers) :
    (task.connect answers).FailsOnce := by
  have none_ := waiting.errors failsOnce
  have completed : ({ task with completed := true } : ConnectionTask).errors = 0 := none_
  unfold connect
  cases answers.connecting with
  | unassigned => exact failsOnce
  | failed message =>
      refine ⟨?_, fun _ => rfl, failsOnce.sends⟩
      simp [completed]
  | ready =>
      cases answers.lockThrows with
      | none =>
          refine ⟨?_, fun _ => rfl, failsOnce.sends⟩
          simp [caught, completed]
      | some thrown =>
          refine ⟨?_, fun _ => rfl, failsOnce.sends⟩
          simp [caught, completed]

theorem runTask_failsOnce_iff {task : ConnectionTask} (waiting : task.Waiting)
    (failsOnce : task.FailsOnce) (answers : TaskAnswers) :
    (task.runTask answers).FailsOnce ↔ task.Answered answers := by
  unfold runTask Answered
  cases callback : task.hasCallback with
  | false => simp [failsOnce]
  | true =>
      simp only [if_true, true_implies]
      cases cmd : task.cmdType with
      | none => simp [failsOnce, Unsent, cmd]
      | connect => simp [connect_failsOnce waiting failsOnce, Unsent, cmd]
      | query =>
          have unsent : task.Unsent := Or.inl cmd
          simp [send_failsOnce_iff waiting failsOnce unsent, unsent]
      | prepare =>
          have unsent : task.Unsent := Or.inr (Or.inl cmd)
          simp [send_failsOnce_iff waiting failsOnce unsent, unsent]
      | queryPrepared =>
          have unsent : task.Unsent := Or.inr (Or.inr cmd)
          simp [send_failsOnce_iff waiting failsOnce unsent, unsent]
      | cancel =>
          have sent : ¬ task.Unsent := by simp [Unsent, cmd]
          cases answers.cancelError with
          | none =>
              refine iff_of_true ?_ (by simp [sent])
              exact ⟨failsOnce.once, failsOnce.leaves, failsOnce.sends⟩
          | some message =>
              refine iff_of_false ?_ (by simp)
              exact not_failsOnce_call waiting.open_ message
      | sent =>
          have sent : ¬ task.Unsent := by simp [Unsent, cmd]
          simp [consumeData_failsOnce_iff waiting failsOnce, sent]

theorem Waiting.runTask {task : ConnectionTask} (waiting : task.Waiting) {answers : TaskAnswers}
    (answered : task.Answered answers) (requeued : (task.runTask answers).requeue = .front) :
    (task.runTask answers).Waiting := by
  have open_ : (task.runTask answers).completed = false := by
    by_contra completed
    simp [requeue, completed] at requeued
  refine ⟨open_, ?_⟩
  intro unsent
  unfold ConnectionTask.runTask at unsent ⊢
  cases callback : task.hasCallback with
  | false =>
      simp only [callback, Bool.false_eq_true, if_false] at unsent ⊢
      exact waiting.fresh unsent
  | true =>
      have calls := answered callback
      simp only [callback, if_true] at unsent ⊢
      cases cmd : task.cmdType with
      | none =>
          simp only [cmd] at unsent ⊢
          exact waiting.fresh unsent
      | connect =>
          simp only [cmd, connect] at unsent
          cases connecting : answers.connecting <;> cases thrown : answers.lockThrows <;>
            simp [connecting, thrown, Unsent, cmd, call, caught] at unsent
      | query =>
          simp [cmd, send, calls.1 (Or.inl cmd), Unsent] at unsent
      | prepare =>
          simp [cmd, send, calls.1 (Or.inr (Or.inl cmd)), Unsent] at unsent
      | queryPrepared =>
          simp [cmd, send, calls.1 (Or.inr (Or.inr cmd)), Unsent] at unsent
      | cancel =>
          simp [cmd, cancelCommand, calls.2.1 cmd, Unsent] at unsent
      | sent =>
          unfold ConnectionTask.runTask at open_
          simp only [callback, if_true, cmd] at unsent open_
          cases received : answers.receiving with
          | failed => exact absurd received (calls.2.2 cmd)
          | busy => simp [received, consumeData, Unsent, cmd] at unsent
          | ready results =>
              have completed := (giveResults_frame { task with completed := true } results).1
              rw [received] at open_
              simp only [consumeData] at open_
              rw [completed] at open_
              simp at open_

theorem cancel_frame (task : ConnectionTask) :
    task.cancel.completed = task.completed ∧ task.cancel.sends = task.sends ∧
      task.cancel.calls = task.calls ∧ (task.cancel.Unsent → task.Unsent) := by
  unfold cancel
  split
  · exact ⟨rfl, rfl, rfl, id⟩
  · refine ⟨rfl, rfl, rfl, fun unsent => ?_⟩
    simp [Unsent] at unsent

theorem Waiting.cancel {task : ConnectionTask} (waiting : task.Waiting) : task.cancel.Waiting := by
  obtain ⟨completed, sends, _, unsent⟩ := task.cancel_frame
  constructor
  · rw [completed, waiting.open_]
  · intro isUnsent
    rw [sends, waiting.fresh (unsent isUnsent)]

theorem FailsOnce.cancel {task : ConnectionTask} (failsOnce : task.FailsOnce) :
    task.cancel.FailsOnce := by
  obtain ⟨completed, sends, calls, _⟩ := task.cancel_frame
  have errors : task.cancel.errors = task.errors := by rw [ConnectionTask.errors, calls]; rfl
  refine ⟨?_, ?_, ?_⟩
  · rw [errors]
    exact failsOnce.once
  · intro failed
    rw [errors] at failed
    rw [requeue, completed]
    exact failsOnce.leaves failed
  · rw [sends]
    exact failsOnce.sends

theorem task_waiting (request : Request) (hasCallback : Bool) :
    (request.task hasCallback).Waiting := ⟨rfl, fun _ => rfl⟩

theorem task_failsOnce (request : Request) (hasCallback : Bool) :
    (request.task hasCallback).FailsOnce := ⟨Nat.zero_le _, fun _ => by contradiction, Nat.zero_le _⟩

end ConnectionTask

namespace TaskStrand

/-- Every task that the strand has seen fails once at most, and one that failed is not in the
queue any more. -/
def FailOnce (strand : TaskStrand) : Prop :=
  (∀ task ∈ strand.queue, task.FailsOnce ∧ task.errors = 0) ∧
    ∀ task ∈ strand.finished, task.FailsOnce

def Waiting (strand : TaskStrand) : Prop := ∀ task ∈ strand.queue, task.Waiting

/-- A run of the front task does not see its send, its cancellation or `PQconsumeInput`
fail. -/
def Answered (strand : TaskStrand) : TaskEvent → Prop
  | .run answers => ∀ task ∈ strand.queue.head?, task.Answered answers
  | _ => True

instance (strand : TaskStrand) (event : TaskEvent) : Decidable (strand.Answered event) :=
  match event with
  | .pushBack _ _ => isTrue trivial
  | .pushFront _ _ => isTrue trivial
  | .cancel _ => isTrue trivial
  | .run _ => inferInstanceAs (Decidable (∀ task ∈ _, _))

theorem failOnce_iff {strand : TaskStrand} (waiting : strand.Waiting) :
    strand.FailOnce ↔ (∀ task ∈ strand.queue, task.FailsOnce) ∧
      ∀ task ∈ strand.finished, task.FailsOnce := by
  constructor
  · rintro ⟨queue, finished⟩
    exact ⟨fun task member => (queue task member).1, finished⟩
  · rintro ⟨queue, finished⟩
    exact ⟨fun task member => ⟨queue task member, (waiting task member).errors (queue task member)⟩,
      finished⟩

theorem runFront_failOnce_iff {strand : TaskStrand} (waiting : strand.Waiting)
    (failOnce : strand.FailOnce) (answers : TaskAnswers) :
    (strand.runFront answers).FailOnce ↔ strand.Answered (.run answers) := by
  obtain ⟨queued, finished⟩ := failOnce
  unfold runFront
  cases front : strand.queue with
  | nil =>
      refine iff_of_true ⟨queued, finished⟩ ?_
      simp [Answered, front]
  | cons task rest =>
      have parts := List.forall_mem_cons.mp (front ▸ queued)
      have waits : task.Waiting ∧ ∀ other ∈ rest, other.Waiting :=
        List.forall_mem_cons.mp fun other member => waiting other (front ▸ member)
      have here := ConnectionTask.runTask_failsOnce_iff waits.1 parts.1.1 answers
      have condition : strand.Answered (.run answers) ↔ task.Answered answers := by
        simp [Answered, front]
      rw [condition, ← here]
      cases leaves : (task.runTask answers).requeue with
      | none =>
          constructor
          · intro both
            exact both.2 _ (by simp [leaves])
          · intro failsOnce
            simp only [leaves]
            refine ⟨parts.2, fun other member => ?_⟩
            rcases List.mem_append.mp member with old | new
            · exact finished other old
            · rw [List.mem_singleton.mp new]
              exact failsOnce
      | front =>
          constructor
          · intro both
            exact (both.1 _ (by simp [leaves])).1
          · intro failsOnce
            have stays := waits.1.runTask (here.mp failsOnce) leaves
            simp only [leaves]
            refine ⟨fun other member => ?_, finished⟩
            rcases List.mem_cons.mp member with rfl | other_
            · exact ⟨failsOnce, stays.errors failsOnce⟩
            · exact parts.2 other other_

theorem Waiting.runFront {strand : TaskStrand} (waiting : strand.Waiting)
    {answers : TaskAnswers} (answered : strand.Answered (.run answers)) :
    (strand.runFront answers).Waiting := by
  unfold TaskStrand.runFront
  cases front : strand.queue with
  | nil =>
      intro task member
      exact waiting task member
  | cons task rest =>
      have waits : task.Waiting ∧ ∀ other ∈ rest, other.Waiting :=
        List.forall_mem_cons.mp fun other member => waiting other (front ▸ member)
      have here : task.Answered answers := answered task (by simp [front])
      cases leaves : (task.runTask answers).requeue with
      | none =>
          simp only [leaves]
          exact waits.2
      | front =>
          simp only [leaves]
          exact List.forall_mem_cons.mpr ⟨waits.1.runTask here leaves, waits.2⟩

theorem mem_modify_cancel {queue : List ConnectionTask} {position : Nat} {task : ConnectionTask}
    (member : task ∈ queue.modify position (·.cancel)) :
    ∃ old ∈ queue, task = old ∨ task = old.cancel := by
  obtain ⟨index, bound, found⟩ := List.getElem_of_mem member
  rw [List.getElem_modify] at found
  have inside : index < queue.length := by simpa using bound
  refine ⟨queue[index], List.getElem_mem inside, ?_⟩
  split at found
  · exact Or.inr found.symm
  · exact Or.inl found.symm

theorem Waiting.apply {strand : TaskStrand} (waiting : strand.Waiting) (event : TaskEvent)
    (answered : strand.Answered event) : (strand.apply event).Waiting := by
  cases event with
  | pushBack request hasCallback =>
      intro task member
      rcases List.mem_append.mp member with old | new
      · exact waiting task old
      · rw [List.mem_singleton.mp new]
        exact ConnectionTask.task_waiting request hasCallback
  | pushFront request hasCallback =>
      exact List.forall_mem_cons.mpr ⟨ConnectionTask.task_waiting request hasCallback, waiting⟩
  | cancel position =>
      intro task member
      obtain ⟨old, inQueue, rfl | rfl⟩ := mem_modify_cancel member
      · exact waiting task inQueue
      · exact (waiting old inQueue).cancel
  | run answers => exact waiting.runFront answered

theorem apply_failOnce_iff {strand : TaskStrand} (waiting : strand.Waiting)
    (failOnce : strand.FailOnce) (event : TaskEvent) :
    (strand.apply event).FailOnce ↔ strand.Answered event := by
  have both := (failOnce_iff waiting).mp failOnce
  cases event with
  | pushBack request hasCallback =>
      have next := waiting.apply (.pushBack request hasCallback) trivial
      refine iff_of_true ((failOnce_iff next).mpr ⟨?_, both.2⟩) trivial
      intro task member
      rcases List.mem_append.mp member with old | new
      · exact both.1 task old
      · rw [List.mem_singleton.mp new]
        exact ConnectionTask.task_failsOnce request hasCallback
  | pushFront request hasCallback =>
      have next := waiting.apply (.pushFront request hasCallback) trivial
      refine iff_of_true ((failOnce_iff next).mpr ⟨?_, both.2⟩) trivial
      exact List.forall_mem_cons.mpr ⟨ConnectionTask.task_failsOnce request hasCallback, both.1⟩
  | cancel position =>
      have next := waiting.apply (.cancel position) trivial
      refine iff_of_true ((failOnce_iff next).mpr ⟨?_, both.2⟩) trivial
      intro task member
      obtain ⟨old, inQueue, rfl | rfl⟩ := mem_modify_cancel member
      · exact both.1 task inQueue
      · exact (both.1 old inQueue).cancel
  | run answers => exact runFront_failOnce_iff waiting failOnce answers

/-- In all states of a run every task fails once at most, and leaves the queue when it does,
exactly when no run of a task sees a call of libpq fail. -/
theorem tasks_fail_once_iff (events : List TaskEvent) :
    (∀ reached, reached <+: events → (Runs.run apply initial reached).FailOnce) ↔
      Runs.Meets apply Answered initial events := by
  have preserved : ∀ (strand : TaskStrand) (event : TaskEvent), strand.Waiting →
      strand.FailOnce → strand.Answered event → (strand.apply event).Waiting := by
    intro strand event waiting _ answered
    exact waiting.apply event answered
  apply Runs.always_iff_meets preserved
  · intro strand event waiting failOnce
    exact apply_failOnce_iff waiting failOnce event
  · intro task member
    simp [initial] at member
  · constructor
    · intro task member
      simp [initial] at member
    · intro task member
      simp [initial] at member

def lostConnection : TaskAnswers :=
  { connecting := .ready, lockThrows := none, sendError := some "no connection to the server",
    cancelError := none, receiving := .failed }

theorem query_fails_twice :
    let events : List TaskEvent := [.pushBack .query true, .pushBack .query true,
      .run lostConnection, .run lostConnection]
    let strand := Runs.run apply initial events
    strand.queue.map ConnectionTask.errors = [2, 0] ∧
    strand.queue.map ConnectionTask.sends = [2, 0] ∧
    strand.queue.map ConnectionTask.requeue = [.front, .front] ∧
    strand.finished = [] ∧ ¬ ∀ task ∈ strand.queue, task.FailsOnce := by
  decide

end TaskStrand

end PqAsync
