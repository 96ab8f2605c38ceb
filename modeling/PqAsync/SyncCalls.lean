import PqAsync.Library.Since
import PqAsync.PoolHolders
import PqAsync.SyncCore

/-!
When the synchronous calls find the `_conn` that they dereference null.
-/

namespace PqAsync

namespace Connection

@[simp] theorem savepoint_owner (conn : Connection) (now : Int) (reply : Bool) :
    (conn.savepoint now reply).1.owner = conn.owner := rfl

@[simp] theorem rollbackSavepoint_owner (conn : Connection) (now : Int) :
    (conn.rollbackSavepoint now).1.owner = conn.owner := rfl

end Connection

namespace Pool

theorem onConn_nullConn_iff (pool : Pool) (db : Nat) (change : Connection → Connection × Bool) :
    (pool.onConn db change).2 = .nullConn ↔ (pool.dbs db).conn = none := by
  unfold onConn
  cases (pool.dbs db).conn with
  | none => simp
  | some conn =>
      dsimp only
      split <;> simp

theorem onConn_sameLinks (pool : Pool) (db : Nat) (change : Connection → Connection × Bool)
    (keeps : ∀ conn, (change conn).1.owner = conn.owner) :
    pool.SameLinks (pool.onConn db change).1 := by
  unfold onConn
  split
  next => exact .refl pool
  next conn _ => exact modify_sameLinks pool conn (fun conn => (change conn).1) (keeps _)

theorem endTransactionSync_nullConn_iff (pool : Pool) (db : Nat) (now : Int) (reply : Bool) :
    (pool.endTransactionSync db now reply).2 = .nullConn ↔ (pool.dbs db).conn = none := by
  rw [← onConn_nullConn_iff pool db (·.endTransaction now reply)]
  unfold endTransactionSync
  generalize pool.onConn db (·.endTransaction now reply) = ended
  obtain ⟨next, ending⟩ := ended
  cases ending <;> rfl

theorem endTransactionSync_sameLinks (pool : Pool) (db : Nat) (now : Int) (reply : Bool) :
    pool.SameLinks (pool.endTransactionSync db now reply).1 := by
  have same := pool.onConn_sameLinks db (·.endTransaction now reply) (by simp)
  unfold endTransactionSync
  generalize pool.onConn db (·.endTransaction now reply) = ended at same ⊢
  obtain ⟨next, ending⟩ := ended
  cases ending with
  | returned => exact same.trans (setLock_sameLinks next db none now)
  | threw => exact same
  | nullConn => exact same

theorem beginSync_pool (pool : Pool) (db : Nat) (now : Int) (dial : Dial) (reply : Bool) :
    (pool.beginSync db now dial reply).1 = pool.begin db now dial reply := by
  unfold beginSync begin
  generalize pool.openConnection db now dial = opened
  obtain ⟨next, lock⟩ := opened
  cases lock with
  | none => rfl
  | some lock =>
      dsimp only [onConn]
      cases (((next.setLock db (some lock) now).dbs db).conn) <;> rfl

theorem openConnection_conn {pool : Pool} {db lock : Nat} {now : Int} {dial : Dial}
    (unlocked : (pool.dbs db).lock = none)
    (opened : (pool.openConnection db now dial).2 = some lock) :
    ((pool.openConnection db now dial).1.dbs db).conn ≠ none := by
  rw [(openConnection_sameLinks unlocked now dial).conn]
  obtain ⟨_, step⟩ | ⟨conn, assigned, _⟩ := openConnection_cases unlocked now dial
  · rw [step] at opened
    cases opened
  · rw [assign_conn assigned]
    simp

theorem beginSync_nullConn_iff (pool : Pool) (db : Nat) (now : Int) (dial : Dial) (reply : Bool) :
    (pool.beginSync db now dial reply).2 = .nullConn ↔
      (pool.dbs db).lock ≠ none ∧ (pool.dbs db).conn = none := by
  unfold beginSync
  cases locked : (pool.dbs db).lock with
  | some lock =>
      have same := (copyLock_sameLinks pool lock).trans (setLock_sameLinks _ db (some lock) now)
      simp only [openConnection, locked, onConn_nullConn_iff, same.conn]
      simp
  | none =>
      have opens : ∀ lock, (pool.openConnection db now dial).2 = some lock →
          ((pool.openConnection db now dial).1.dbs db).conn ≠ none :=
        fun _ opened => openConnection_conn locked opened
      generalize pool.openConnection db now dial = opened at opens ⊢
      obtain ⟨next, lock⟩ := opened
      cases lock with
      | none => simp
      | some lock =>
          have held := opens lock rfl
          rw [← (setLock_sameLinks next db (some lock) now).conn] at held
          simp only [onConn_nullConn_iff, held, ne_eq, not_true_eq_false, false_and]

theorem beginSync_returned_conn {pool : Pool} {db : Nat} {now : Int} {dial : Dial} {reply : Bool}
    (returned : (pool.beginSync db now dial reply).2 = .returned) :
    ((pool.beginSync db now dial reply).1.dbs db).conn ≠ none := by
  unfold beginSync at returned ⊢
  generalize pool.openConnection db now dial = opened at returned ⊢
  obtain ⟨next, lock⟩ := opened
  cases lock with
  | none => cases returned
  | some lock =>
      dsimp only at returned ⊢
      rw [(onConn_sameLinks _ db (·.beginTransaction now dial reply) (by simp)).conn]
      intro free
      rw [← onConn_nullConn_iff _ _ (·.beginTransaction now dial reply), returned] at free
      cases free

theorem execStatements_ne_nullConn {pool : Pool} {db : Nat} (held : (pool.dbs db).conn ≠ none)
    (statements : List Bool) : pool.execStatements db statements ≠ .nullConn := by
  obtain ⟨conn, found⟩ := Option.ne_none_iff_exists'.mp held
  induction statements with
  | nil => simp [execStatements]
  | cons accepted statements ih => cases accepted <;> simp [execStatements, found, ih]

theorem advance_nullConn_iff (pool : Pool) (db : Nat) (answers : SyncAnswers)
    (stage : SyncStage) :
    (pool.advance db answers stage).2 = .ended .nullConn ↔
      ¬ (stage = .execBegin ∧ (pool.dbs db).lock = none) ∧ (pool.dbs db).conn = none := by
  cases stage with
  | start call =>
      simp only [reduceCtorEq, false_and, not_false_eq_true, true_and]
      cases call with
      | commit | rollback =>
          simp [advance, endTransactionSync_nullConn_iff]
      | setSavepoint | releaseSavepoint | rollbackSavepoint =>
          simp [advance, onConn_nullConn_iff]
      | execQueries =>
          unfold advance
          cases held : (pool.dbs db).conn with
          | none => simp
          | some conn =>
              have some_ : (pool.dbs db).conn ≠ none := by simp [held]
              have statements := execStatements_ne_nullConn some_ answers.statements
              dsimp only
              split <;> simp [statements]
  | execBegin =>
      have null := pool.beginSync_nullConn_iff db answers.now answers.dial answers.reply
      have conn : (pool.beginSync db answers.now answers.dial answers.reply).2 = .returned →
        _ := beginSync_returned_conn
      simp only [true_and, ← ne_eq, ← null]
      unfold advance
      generalize pool.beginSync db answers.now answers.dial answers.reply = begun at conn ⊢
      obtain ⟨next, ending⟩ := begun
      cases ending with
      | returned =>
          have statements := execStatements_ne_nullConn (conn rfl) answers.statements
          dsimp only at statements ⊢
          split <;> simp_all
      | threw => simp
      | nullConn => simp
  | execCommit => simp [advance, endTransactionSync_nullConn_iff]

theorem advance_sameLinks (pool : Pool) (db : Nat) (answers : SyncAnswers) (stage : SyncStage) :
    Pool.SameLinks
      (if stage = .execBegin then pool.begin db answers.now answers.dial answers.reply else pool)
      (pool.advance db answers stage).1 := by
  cases stage with
  | start call =>
      simp only [reduceCtorEq, if_false]
      cases call with
      | commit | rollback => exact pool.endTransactionSync_sameLinks db answers.now answers.reply
      | setSavepoint | releaseSavepoint =>
          exact pool.onConn_sameLinks db (·.savepoint answers.now answers.reply) (by simp)
      | rollbackSavepoint =>
          exact pool.onConn_sameLinks db (·.rollbackSavepoint answers.now) (by simp)
      | execQueries =>
          simp only [advance]
          split
          · exact .refl pool
          · split <;> exact .refl pool
  | execBegin =>
      rw [if_pos rfl, ← beginSync_pool]
      unfold advance
      generalize pool.beginSync db answers.now answers.dial answers.reply = begun
      obtain ⟨next, ending⟩ := begun
      cases ending with
      | returned =>
          dsimp only
          split <;> exact .refl next
      | threw => exact .refl next
      | nullConn => exact .refl next
  | execCommit => exact pool.endTransactionSync_sameLinks db answers.now answers.reply

end Pool

namespace SyncState

def leaving (state : SyncState) (strandEmpty : Bool) : Option Frame :=
  match state.frames with
  | [] => none
  | frame :: _ =>
      if .nullConn ∈ state.endings ∨ (state.pool.working frame.db && !strandEmpty) = true then none
      else some frame

/-- The database whose `_conn` an event dereferences, unless a `begin()` without lock has
just given it a connection. -/
def accesses (state : SyncState) : SyncEvent → Option Nat
  | .event _ => none
  | .call _ _ => none
  | .test strandEmpty _ =>
      match state.leaving strandEmpty with
      | none => none
      | some frame =>
          if frame.stage = .execBegin ∧ (state.pool.dbs frame.db).lock = none then none
          else some frame.db

/-- What is done with a database in an event, by something else or by the `begin()` of
`exec_queries`. -/
def poolEvent (state : SyncState) : SyncEvent → Option PoolEvent
  | .event other => if state.callable then some other else none
  | .call _ _ => none
  | .test strandEmpty answers =>
      match state.leaving strandEmpty with
      | none => none
      | some frame =>
          if frame.stage = .execBegin then
            some (.begin frame.db answers.now answers.dial answers.reply)
          else none

def Connected (db : Nat) (state : SyncState) : Prop := (state.pool.dbs db).conn ≠ none

def Alive (state : SyncState) : Prop := .nullConn ∉ state.endings

def Gives (db : Nat) (state : SyncState) (event : SyncEvent) : Prop :=
  ∃ given, state.poolEvent event = some given ∧ state.pool.Gives db given

def Takes (db : Nat) (state : SyncState) (event : SyncEvent) : Prop :=
  ∃ taken, state.poolEvent event = some taken ∧ state.pool.Takes db taken

theorem apply_test_waiting {state : SyncState} {strandEmpty : Bool}
    (waits : state.leaving strandEmpty = none) (answers : SyncAnswers) :
    (state.apply (.test strandEmpty answers)).pool = state.pool ∧
      (state.apply (.test strandEmpty answers)).endings = state.endings := by
  unfold leaving at waits
  unfold apply test
  cases frames : state.frames with
  | nil => simp
  | cons frame rest =>
      by_cases crashed : .nullConn ∈ state.endings
      · simp [crashed]
      · rw [frames] at waits
        have loops : (state.pool.working frame.db && !strandEmpty) = true := by
          simpa [crashed] using waits
        simp [crashed, loops]

theorem apply_test_leaving {state : SyncState} {strandEmpty : Bool} {frame : Frame}
    (leaves : state.leaving strandEmpty = some frame) (answers : SyncAnswers) :
    (state.apply (.test strandEmpty answers)).pool =
        (state.pool.advance frame.db answers frame.stage).1 ∧
      (.nullConn ∈ (state.apply (.test strandEmpty answers)).endings ↔
        (state.pool.advance frame.db answers frame.stage).2 = .ended .nullConn) := by
  unfold leaving at leaves
  unfold apply test
  cases frames : state.frames with
  | nil =>
      rw [frames] at leaves
      cases leaves
  | cons first rest =>
      rw [frames] at leaves
      obtain ⟨ends, same⟩ := Option.ite_none_left_eq_some.mp leaves
      obtain rfl := Option.some.inj same
      obtain ⟨alive, stops⟩ := not_or.mp ends
      simp only [alive, not_false_eq_true, if_true, stops]
      generalize state.pool.advance first.db answers first.stage = advanced
      obtain ⟨pool, progress⟩ := advanced
      cases progress with
      | ended ending => simp [alive, eq_comm]
      | waits stage => simp [alive]

theorem apply_conn (state : SyncState) (event : SyncEvent) (db : Nat) :
    ((state.apply event).pool.dbs db).conn =
      match state.poolEvent event with
      | some given => ((state.pool.apply given).dbs db).conn
      | none => (state.pool.dbs db).conn := by
  cases event with
  | event other =>
      simp only [apply, poolEvent]
      by_cases callable : state.callable = true
      · simp only [callable, if_true]
      · simp only [callable]
        rfl
  | call called call =>
      simp only [apply, poolEvent]
      split <;> rfl
  | test strandEmpty answers =>
      cases left : state.leaving strandEmpty with
      | none => simp only [poolEvent, left, (apply_test_waiting left answers).1]
      | some frame =>
          rw [(apply_test_leaving left answers).1,
            (state.pool.advance_sameLinks frame.db answers frame.stage).conn]
          simp only [poolEvent, left]
          split <;> rfl

theorem connected_apply_iff (db : Nat) (state : SyncState) (event : SyncEvent) :
    Connected db (state.apply event) ↔
      Gives db state event ∨ Connected db state ∧ ¬ Takes db state event := by
  unfold Connected Gives Takes
  rw [apply_conn]
  cases state.poolEvent event with
  | none => simp
  | some given => simpa using state.pool.apply_conn_ne_none_iff given db

theorem alive_apply_iff {state : SyncState} (alive : state.Alive) (event : SyncEvent) :
    (state.apply event).Alive ↔
      ∀ db, state.accesses event = some db → Connected db state := by
  unfold Alive Connected at *
  cases event with
  | event other =>
      refine iff_of_true ?_ (by simp [accesses])
      simp only [apply]
      split <;> exact alive
  | call called call =>
      refine iff_of_true ?_ (by simp [accesses])
      simp only [apply]
      split <;> exact alive
  | test strandEmpty answers =>
      cases left : state.leaving strandEmpty with
      | none =>
          rw [(apply_test_waiting left answers).2]
          exact iff_of_true alive (by simp [accesses, left])
      | some frame =>
          rw [(apply_test_leaving left answers).2, Pool.advance_nullConn_iff]
          by_cases begins : frame.stage = .execBegin ∧ (state.pool.dbs frame.db).lock = none
          · simp [accesses, left, begins]
          · simp [accesses, left, begins]

theorem not_alive_apply {state : SyncState} (ended : ¬ state.Alive) (event : SyncEvent) :
    ¬ (state.apply event).Alive := by
  have crashed : .nullConn ∈ state.endings := not_not.mp ended
  apply not_not.mpr
  have stopped : state.callable = false := by simp [callable, crashed]
  cases event with
  | event other => simpa [apply, stopped] using crashed
  | call called call => simpa [apply, stopped] using crashed
  | test strandEmpty answers => simp [apply, crashed]

/-- The synchronous calls of a run dereference no null `_conn` exactly if each database of
which they dereference it was given a connection that was not taken from it since. -/
theorem no_null_conn_iff (maxConn : Nat) (events : List SyncEvent) :
    .nullConn ∉ (Runs.run apply (initial maxConn) events).endings ↔
      ∀ before event after db, events = before ++ event :: after →
        (Runs.run apply (initial maxConn) before).accesses event = some db →
          Runs.Since apply (Gives db) (Takes db) (initial maxConn) before := by
  have connected : ∀ before db, Connected db (Runs.run apply (initial maxConn) before) ↔
      Runs.Since apply (Gives db) (Takes db) (initial maxConn) before := by
    intro before db
    exact Runs.flag_iff_since (connected_apply_iff db) (not_not.mpr rfl) before
  have kept : ∀ (state : SyncState) (event : SyncEvent), True → True → state.Alive →
      ((state.apply event).Alive ↔
        ∀ db, state.accesses event = some db → Connected db state) := by
    intro state event _ _ alive
    exact alive_apply_iff alive event
  have alive := Runs.good_iff_meets (fun _ _ _ _ => trivial) kept
    (fun _ event _ _ ended => not_alive_apply ended event) trivial
    (Runs.meets_true (initial maxConn) events)
  change (Runs.run apply (initial maxConn) events).Alive ↔ _
  rw [alive, and_iff_right (by simp [Alive, initial]), Runs.meets_iff_forall]
  constructor
  · intro all before event after db split accessed
    exact (connected before db).mp (all before event after split db accessed)
  · intro all before event after split db accessed
    exact (connected before db).mpr (all before event after db split accessed)

theorem commit_on_null_conn :
    let answers : SyncAnswers := ⟨100, Pool.answering, true, []⟩
    let commits : List SyncEvent := [.call 0 .commit, .test true answers]
    let stolen : List SyncEvent := [.event (.openConnection 0 100 Pool.answering),
      .event (.dropHeld 0 100), .event (.openConnection 1 100 Pool.answering)]
    (Runs.run apply (initial 1) commits).endings = [.nullConn] ∧
      (Runs.run apply (initial 1) (stolen ++ commits)).endings = [.nullConn] := by
  decide

end SyncState

end PqAsync
