import PqAsync.WaitTraffic

/-!
When `wait_for_sync()` keeps a synchronous call from overtaking the asynchronous calls that
are queued.
-/

namespace PqAsync

/-- The connection that was reserved, unless a lock on it was destroyed since, or the
database lost it. -/
def reservedConn : List LockNote → Option Nat
  | [] => none
  | .reserved conn :: _ => some conn
  | .stopped conn :: notes => if reservedConn notes = some conn then none else reservedConn notes
  | .lost :: _ => none

namespace Link

def Noted (link : Link) : Prop :=
  reservedConn link.notes = link.conn.filter fun conn => link.running conn != 0

theorem noted_reserve (link : Link) (conn : Nat) : (link.reserve conn).Noted := by
  simp [Noted, reserve, reservedConn, Option.filter_some]

theorem noted_reserve_startWork (link : Link) (conn : Nat) :
    ((link.reserve conn).startWork conn).Noted := by
  simp [Noted, reserve, startWork, reservedConn, Option.filter_some]

theorem noted_lose (link : Link) : link.lose.Noted := rfl

theorem Noted.stopWork {link : Link} (noted : link.Noted) (conn : Nat) :
    (link.stopWork conn).Noted := by
  unfold Noted at *
  simp only [Link.stopWork, reservedConn, noted]
  cases own : link.conn with
  | none => simp
  | some other =>
      by_cases same : other = conn
      · subst other
        by_cases running : link.running conn = 0 <;> simp [Option.filter_some, running]
      · by_cases running : link.running other = 0 <;> simp [Option.filter_some, same, running]

theorem Noted.reserved_iff_working {link : Link} (noted : link.Noted) :
    reservedConn link.notes ≠ none ↔ link.working = true := by
  rw [noted]
  unfold working
  cases link.conn with
  | none => simp
  | some conn => by_cases running : link.running conn = 0 <;> simp [Option.filter_some, running]

end Link

namespace LockedDatabase

theorem dropLock_noted {db : LockedDatabase} (noted : db.link.Noted) (lock : ConnectionLock) :
    (db.dropLock lock).link.Noted := by
  unfold dropLock
  split
  · exact noted
  · exact noted.stopWork lock.conn

theorem setLock_noted {db : LockedDatabase} (noted : db.link.Noted)
    (lock : Option ConnectionLock) : (db.setLock lock).link.Noted := by
  unfold setLock
  split
  · exact noted
  · apply dropLock_noted
    exact noted

@[simp] theorem setInTransaction_link (db : LockedDatabase) (value : Bool) :
    (db.setInTransaction value).link = db.link := by
  unfold setInTransaction
  split <;> rfl

@[simp] theorem reopen_link (db : LockedDatabase) (reopened : Bool) :
    (db.reopen reopened).link = db.link := by
  cases reopened <;> simp [reopen]

@[simp] theorem keepLock_link (db : LockedDatabase) (keeps : Bool)
    (lock : Option ConnectionLock) : (db.keepLock keeps lock).link = db.link := by
  cases keeps <;> rfl

theorem newLock_noted (db : LockedDatabase) (conn : Nat) (reopened : Bool) :
    (((db.reserve conn).1.reopen reopened).newLock (db.reserve conn).2).1.link.Noted := by
  change (((db.reserve conn).1.reopen reopened).link.startWork _).Noted
  rw [reopen_link]
  exact Link.noted_reserve_startWork _ _

@[simp] theorem openConnection_link (db : LockedDatabase) (callback : LockCallback) :
    (db.openConnection callback).link = db.link := by
  unfold openConnection
  split <;> rfl

theorem complete_noted {db : LockedDatabase} (noted : db.link.Noted) (query : Query)
    (error : Option String) : (db.complete query error).link.Noted := by
  unfold complete
  split
  · exact noted
  · exact setLock_noted noted none
  · simpa [callback] using noted
  · exact setLock_noted noted none
  · simpa [callback] using noted

theorem giveResult_noted {db : LockedDatabase} (noted : db.link.Noted) (query : Query)
    (lock : ConnectionLock) (error : Option String) :
    (db.giveResult query lock error).link.Noted := by
  apply complete_noted
  exact noted

theorem failCallback_noted {db : LockedDatabase} (noted : db.link.Noted) (message : String)
    (callback : LockCallback) : (db.failCallback message callback).link.Noted := by
  unfold failCallback
  split
  · apply complete_noted
    exact noted
  · exact noted

theorem runCallback_noted {db : LockedDatabase} (noted : db.link.Noted) (lock : ConnectionLock)
    (callback : LockCallback) : (db.runCallback lock callback).link.Noted := by
  cases callback with
  | statement continuation =>
      cases continuation with
      | sendQuery overload query =>
          cases overload with
          | variadic =>
              apply dropLock_noted
              exact noted
          | parameters =>
              apply dropLock_noted
              exact noted
      | begin call =>
          apply dropLock_noted
          rw [openConnection_link]
          exact setLock_noted noted _
  | deallocate call sql =>
      apply dropLock_noted
      rw [openConnection_link]
      exact noted
  | reader call sql => exact noted
  | caller call => exact noted

theorem runFront_noted {db : LockedDatabase} (noted : db.link.Noted) (outcome : TaskOutcome) :
    (db.runFront outcome).link.Noted := by
  unfold runFront
  split
  · exact noted
  · unfold connect
    split
    · exact noted
    · apply failCallback_noted
      exact noted
    · apply failCallback_noted
      rw [reopen_link]
      exact Link.noted_reserve _ _
    · apply runCallback_noted
      exact newLock_noted _ _ _
  · apply runCallback_noted
    exact noted
  · exact noted
  · split
    · exact noted
    · apply complete_noted
      exact noted
  · split
    · exact noted
    · apply complete_noted
      exact noted
    · apply giveResult_noted
      exact noted
  · split <;> exact noted
  · split <;> exact noted

theorem resume_noted {db : LockedDatabase} (noted : db.link.Noted) (frame : CallbackFrame)
    (next : Option (Option String)) : (db.resume frame next).link.Noted := by
  have dropped : ∀ later : LockedDatabase, later.link.Noted →
      (frame.lock.elim later later.dropLock).link.Noted := by
    intro later known
    cases frame.lock with
    | none => exact known
    | some lock => exact dropLock_noted known lock
  unfold resume
  apply dropped
  split
  · exact noted
  · exact noted
  · exact noted
  · exact giveResult_noted noted _ _ _
  · exact noted

theorem returns_noted {db : LockedDatabase} (noted : db.link.Noted) (keeps : Bool)
    (next : Option (Option String)) : (db.returns keeps next).link.Noted := by
  unfold returns
  split
  · apply resume_noted
    change ((if _ then _ else _ : LockedDatabase).keepLock keeps _).link.Noted
    rw [keepLock_link]
    split
    · exact setLock_noted noted none
    · exact noted
  · exact noted

theorem call_noted {db : LockedDatabase} (noted : db.link.Noted) (call : AsyncCall) :
    (db.call call).link.Noted := by
  unfold LockedDatabase.call
  cases call with
  | begin | endTransaction | savepoint =>
      dsimp only
      split
      · simpa [pushBack] using noted
      · simpa [pushBack] using noted
  | execute | queryReader | deallocatePrepared | openConnection => simpa using noted

theorem openConnectionSync_noted {db : LockedDatabase} (noted : db.link.Noted)
    (outcome : SyncOutcome) : (db.openConnectionSync outcome).1.link.Noted := by
  have ready : ∀ conn, ((db.reserve conn).1.newLock (db.reserve conn).2).1.link.Noted :=
    fun conn => Link.noted_reserve_startWork _ _
  unfold openConnectionSync
  split
  · exact noted
  · split
    · exact noted
    · dsimp only
      split
      · rw [reopen_link]
        exact ready _
      · apply dropLock_noted
        rw [reopen_link]
        exact ready _

theorem finish_noted {db : LockedDatabase} (noted : db.link.Noted) (outcome : SyncOutcome)
    (command : SyncCommand) : (db.finish outcome command).1.link.Noted := by
  have opened := openConnectionSync_noted noted outcome
  cases command with
  | execute sql =>
      simp only [finish]
      generalize db.openConnectionSync outcome = result at opened ⊢
      obtain ⟨next, lock⟩ := result
      cases lock with
      | none => exact opened
      | some lock =>
          dsimp only
          split
          · apply dropLock_noted
            exact opened
          · exact dropLock_noted opened lock
  | begin =>
      simp only [finish]
      generalize db.openConnectionSync outcome = result at opened ⊢
      obtain ⟨next, lock⟩ := result
      cases lock with
      | none => exact opened
      | some lock =>
          have locked := setLock_noted opened (some lock)
          dsimp only
          split
          · exact locked
          · split
            · simpa [sendSync] using locked
            · simpa using locked
  | endTransaction sql =>
      simp only [finish]
      split
      · split
        · apply setLock_noted
          simpa [sendSync] using noted
        · exact noted
      · exact noted

theorem freeLock_noted {db : LockedDatabase} (noted : db.link.Noted) (lock : ConnectionLock) :
    (db.freeLock lock).link.Noted := by
  unfold freeLock
  split
  · apply dropLock_noted
    exact noted
  · exact noted

/-- `open_connection()` finds `_lock`, or gets a connection that opens. -/
def Opens (db : LockedDatabase) (outcome : SyncOutcome) : Prop :=
  db.lock ≠ none ∨ (∃ conn, db.link.conn.or outcome.conn = some conn) ∧ outcome.opens = true

/-- `begin_transaction()` does not find the connection in a transaction. -/
def CanBegin (db : LockedDatabase) (outcome : SyncOutcome) : Prop :=
  match db.lock with
  | some _ => db.link.conn ≠ none ∧ db.inTransaction = false
  | none => ∃ conn, db.link.conn.or outcome.conn = some conn ∧
      (outcome.reopened = true ∨ db.isInTransaction conn = false)

def Sendable (db : LockedDatabase) (outcome : SyncOutcome) : SyncCommand → Prop
  | .execute _ => db.Opens outcome ∧ outcome.accepted = true
  | .begin => db.Opens outcome ∧ db.CanBegin outcome ∧
      outcome.beginOpens = true ∧ outcome.accepted = true
  | .endTransaction _ => db.inTransaction = true ∧ outcome.accepted = true

theorem setLock_inTransaction (db : LockedDatabase) (lock : Option ConnectionLock) :
    (db.setLock lock).link.conn = db.link.conn ∧
      (db.setLock lock).inTransaction = db.inTransaction := by
  have dropped : ∀ (next : LockedDatabase) (old : ConnectionLock),
      (next.dropLock old).link.conn = next.link.conn ∧
        (next.dropLock old).inTransaction = next.inTransaction := by
    intro next old
    unfold dropLock
    split
    · exact ⟨rfl, rfl⟩
    · exact ⟨rfl, rfl⟩
  unfold setLock
  split
  · exact ⟨rfl, rfl⟩
  · exact dropped _ _

theorem openConnectionSync_none_iff (db : LockedDatabase) (outcome : SyncOutcome) :
    (db.openConnectionSync outcome).2 ≠ none ↔ db.Opens outcome := by
  unfold openConnectionSync Opens
  cases db.lock with
  | some lock => simp
  | none =>
      cases db.link.conn.or outcome.conn with
      | none => simp
      | some conn => cases opens : outcome.opens <;> simp

theorem openConnectionSync_canBegin_iff {db : LockedDatabase} {outcome : SyncOutcome}
    (opens : db.Opens outcome) :
    (db.openConnectionSync outcome).1.link.conn ≠ none ∧
        (db.openConnectionSync outcome).1.inTransaction = false ↔ db.CanBegin outcome := by
  unfold openConnectionSync CanBegin
  unfold Opens at opens
  cases locked : db.lock with
  | some lock => rfl
  | none =>
      obtain ⟨⟨conn, given⟩, isOpen⟩ := opens.resolve_left (not_not.mpr locked)
      have own : ∀ conn', db.link.conn = some conn' → conn' = conn := by
        intro conn' held
        rw [held] at given
        exact Option.some.inj given
      have reserved : db.link.conn.getD conn = conn := by
        cases held : db.link.conn with
        | none => rfl
        | some conn' => exact own conn' held
      rw [given]
      cases reopened : outcome.reopened with
      | false =>
          simp [isOpen, reserve, reserved, newLock, reopen, inTransaction, Link.reserve,
            Link.startWork]
      | true =>
          simp [isOpen, reserve, reserved, newLock, reopen, inTransaction, setInTransaction,
            Link.reserve, Link.startWork]

theorem finish_sent_iff (db : LockedDatabase) (outcome : SyncOutcome) (command : SyncCommand) :
    (db.finish outcome command).2 = true ↔ db.Sendable outcome command := by
  have opens := db.openConnectionSync_none_iff outcome
  have begins : db.Opens outcome → _ := openConnectionSync_canBegin_iff
  cases command with
  | execute sql =>
      simp only [finish, Sendable]
      rw [← opens]
      generalize db.openConnectionSync outcome = result
      obtain ⟨next, lock⟩ := result
      cases lock with
      | none => simp
      | some lock => cases accepted : outcome.accepted <;> simp
  | begin =>
      simp only [finish, Sendable]
      rw [← opens] at begins ⊢
      generalize db.openConnectionSync outcome = result at begins ⊢
      obtain ⟨next, lock⟩ := result
      cases lock with
      | none => simp
      | some lock =>
          obtain ⟨conn, transaction⟩ := next.setLock_inTransaction (some lock)
          have free := begins (by simp)
          dsimp only at free ⊢
          rw [conn, transaction, ← free]
          by_cases busy : next.link.conn = none ∨ next.inTransaction = true
          · rw [if_pos busy]
            refine iff_of_false (by simp) ?_
            rintro ⟨_, ⟨held, idle⟩, _⟩
            rcases busy with none_ | open_
            · exact held none_
            · rw [idle] at open_
              cases open_
          · rw [if_neg busy]
            obtain ⟨held, idle⟩ := not_or.mp busy
            have idle_ : next.inTransaction = false := by simpa using idle
            cases beginOpens : outcome.beginOpens <;> cases accepted : outcome.accepted <;>
              simp [held, idle_]
  | endTransaction sql =>
      simp only [finish, Sendable]
      cases db.inTransaction <;> cases accepted : outcome.accepted <;> simp
      split <;> rfl

def sends (db : LockedDatabase) : LockEvent → Option SyncWait
  | .test outcome =>
      match db.stack with
      | .wait wait :: stack =>
          if !db.loops && ({ db with stack }.finish outcome wait.command).2 then some wait else none
      | _ => none
  | _ => none

/-- A synchronous command is sent when the earlier asynchronous calls are settled. -/
def NotOvertaken (db : LockedDatabase) (event : LockEvent) : Prop :=
  ∀ wait, db.sends event = some wait → ∀ call < wait.before, db.traffic.Settled call

/-- The condition of a test of the loop in a synchronous call that can send its command.
Where it finds an earlier call that is not settled, the connection was reserved last, and
since then no lock on it was destroyed and it was not lost. Where it finds the strand empty,
no callback that runs is going to queue a task of an earlier call that is not sent. -/
def LocksHeld (db : LockedDatabase) : LockEvent → Prop
  | .test outcome =>
      match db.stack with
      | .wait wait :: _ =>
          db.Sendable outcome wait.command →
            ((∃ call < wait.before, ¬ db.traffic.Settled call) →
              reservedConn db.link.notes ≠ none) ∧
            (db.strand = [] →
              ∀ task ∈ db.traffic.running, task.call < wait.before → task.unsent = false)
      | _ => True
  | _ => True

structure Consistent (db : LockedDatabase) : Prop where
  accounted : db.traffic.Accounted
  noted : db.link.Noted

theorem test_consistent {db : LockedDatabase} (consistent : db.Consistent)
    (outcome : SyncOutcome) : (db.test outcome).Consistent := by
  obtain ⟨accounted, noted⟩ := consistent
  unfold test
  split
  · rename_i wait stack waiting
    split
    · refine ⟨?_, noted⟩
      -- the call waits on, with the same calls before it
      have same : ({ db with stack := .wait { wait with running := true } :: stack } :
          LockedDatabase).traffic = db.traffic := by
        simp only [traffic, waiting]
        rfl
      rw [same]
      exact accounted
    · obtain ⟨more, finished⟩ := finish_traffic { db with stack } outcome wait.command
      refine ⟨?_, finish_noted (by exact noted) outcome _⟩
      rw [finished]
      apply Traffic.Accounted.sending
      refine accounted.moved (List.Subset.refl _) (List.Subset.refl _) rfl ?_ ?_ ?_
      · simp only [traffic, waiting]
        exact List.subset_cons_self _ _
      · simp only [Traffic.tasks, traffic, waiting]
        exact fun _ => Iff.rfl
      · simp only [traffic, waiting]
        exact List.Subset.refl _
  · exact ⟨accounted, noted⟩

theorem act_consistent {db : LockedDatabase} (consistent : db.Consistent) (event : LockEvent) :
    (db.act event).Consistent := by
  obtain ⟨accounted, noted⟩ := consistent
  cases event with
  | call call => exact ⟨call_accounted accounted call, call_noted noted call⟩
  | run outcome => exact ⟨runFront_accounted accounted outcome, runFront_noted noted outcome⟩
  | returns keeps next =>
      exact ⟨returns_accounted accounted keeps next, returns_noted noted keeps next⟩
  | sync command =>
      refine ⟨⟨accounted.queued, accounted.fits, accounted.ran, ?_⟩, noted⟩
      intro before waiting
      rcases List.mem_cons.mp waiting with rfl | earlier
      · exact Nat.le_refl _
      · exact accounted.made before earlier
  | test outcome => exact test_consistent ⟨accounted, noted⟩ outcome
  | free lock =>
      refine ⟨?_, freeLock_noted noted lock⟩
      simpa [act] using accounted
  | lose => exact ⟨accounted, db.link.noted_lose⟩

theorem apply_consistent {db : LockedDatabase} (consistent : db.Consistent)
    (event : LockEvent) : (db.apply event).Consistent := by
  unfold apply
  split
  · exact act_consistent consistent event
  · exact consistent

theorem initial_consistent : initial.Consistent := by
  refine ⟨⟨?_, ?_, ?_, ?_⟩, rfl⟩
  · intro call made
    exact absurd made (Nat.not_lt_zero call)
  · intro task queued
    cases queued
  · intro task runs
    cases runs
  · intro before waiting
    cases waiting

theorem Consistent.test_iff {db : LockedDatabase} (consistent : db.Consistent)
    {wait : SyncWait} {stack : List Activation} (waiting : db.stack = .wait wait :: stack)
    (outcome : SyncOutcome) :
    db.NotOvertaken (.test outcome) ↔ db.LocksHeld (.test outcome) := by
  have made : wait.before ≤ db.calls.length :=
    consistent.accounted.made wait.before (by simp [traffic, waiting, Activation.before])
  have sent : ({ db with stack }.finish outcome wait.command).2 = true ↔
      db.Sendable outcome wait.command := finish_sent_iff { db with stack } outcome _
  have working := consistent.noted.reserved_iff_working
  simp only [NotOvertaken, LocksHeld, sends, waiting, working, ← sent]
  constructor
  · intro settled isSent
    have ends : db.loops = false → ∀ call < wait.before, db.traffic.Settled call := by
      intro finished
      exact settled wait (if_pos (by simp [finished, isSent]))
    constructor
    · rintro ⟨call, earlier, pending⟩
      by_contra stopped
      exact pending (ends (by simp_all [loops, LockedDatabase.working]) call earlier)
    · intro empty task runs earlier
      have settled := ends (by simp [loops, empty]) task.call earlier
      exact settled.2 task (List.mem_append_right _ runs) rfl
  · intro held other sending call earlier
    obtain ⟨leaves, same⟩ := Option.ite_none_right_eq_some.mp sending
    obtain rfl := Option.some.inj same
    obtain ⟨finished, isSent⟩ := Bool.and_eq_true_iff.mp leaves
    obtain ⟨reserved, idle⟩ := held isSent
    by_contra pending
    have running := reserved ⟨call, earlier, pending⟩
    -- the loop ends with tasks in the strand only when nothing is running
    have empty : db.strand = [] := by
      simpa [loops, LockedDatabase.working, running] using finished
    refine pending (consistent.accounted.settled_of_empty empty
      (Nat.lt_of_lt_of_le earlier made) ?_)
    intro task runs same
    exact idle empty task runs (same ▸ earlier)

theorem Consistent.notOvertaken_iff {db : LockedDatabase} (consistent : db.Consistent)
    (event : LockEvent) : db.NotOvertaken event ↔ db.LocksHeld event := by
  cases event with
  | test outcome =>
      cases waiting : db.stack with
      | nil => simp [NotOvertaken, LocksHeld, sends, waiting]
      | cons top stack =>
          cases top with
          | callback frame => simp [NotOvertaken, LocksHeld, sends, waiting]
          | wait wait => exact consistent.test_iff waiting outcome
  | call | run | returns | sync | free | lose => simp [NotOvertaken, LocksHeld, sends]

/-- No synchronous command of a run overtakes an earlier asynchronous call exactly if every
loop that could send one meets the condition when it is tested. -/
theorem sync_after_async_iff (events : List LockEvent) :
    Runs.Meets apply NotOvertaken initial events ↔ Runs.Meets apply LocksHeld initial events :=
  Runs.meets_congr Consistent (fun _ event consistent => apply_consistent consistent event)
    (fun _ event consistent => consistent.notOvertaken_iff event) initial_consistent events

/-- A new database, and one whose first call has its connection when the synchronous one is
made: the lock of the first call goes away before the second call has its own. -/
theorem execute_overtakes_queued :
    let first : List LockEvent := [.call (.execute .variadic "insert into t values (1)")]
    let second : List LockEvent := [.call (.execute .variadic "insert into t values (2)")]
    let run : LockEvent := .run ⟨.ready 0 false, none, .ready none, false⟩
    let opens : SyncOutcome := ⟨some 0, false, true, false, true, true, true⟩
    let count : List LockEvent := [.sync (.execute "select count(*) from t"), .test opens]
    let waited := Runs.run apply initial
      (first ++ second ++ [run] ++ count ++ [run, run, .returns false none, .test opens])
    ¬ Runs.Meets apply NotOvertaken initial (first ++ count) ∧
      waited.sent = [⟨some 0, "insert into t values (1)"⟩, ⟨none, "select count(*) from t"⟩] ∧
      waited.callbacks = [⟨0, none⟩] := by
  refine ⟨?_, by decide, by decide⟩
  rintro ⟨_, _, overtakes, _⟩
  obtain ⟨⟨callback, called, _⟩, _⟩ := overtakes _ rfl 0 (by decide)
  cases called

end LockedDatabase

end PqAsync
