import PqAsync.PreparedCore

/-!
A prepared statement inside and outside of a transaction: inside, nothing that other databases do
takes its session from under it; outside, its lock does not keep the connection from being stolen.
-/

namespace PqAsync

namespace PreparedState

@[simp] theorem applyPool_pool (this : PreparedState) (event : PoolEvent) :
    (this.applyPool event).pool = this.pool.apply event := rfl

/-- Who opens a connection in an event other than one of the pool. -/
def opens (this : PreparedState) : PreparedEvent → Option (Nat × Int × Dial)
  | .pool _ => none
  | .prepare call now dial => some (call.db, now, dial)
  | .execute index answers =>
      (this.handles[index]?).join.map fun prepared => (prepared.db, answers.now, answers.dial)
  | .deallocate db _ now dial => some (db, now, dial)
  | .destroy index now dial =>
      (this.handles[index]?).join.bind fun prepared =>
        if prepared.autoDeallocate then some (prepared.db, now, dial) else none
  | .resume answers =>
      this.waiting.head?.map fun wait => (wait.db, answers.now, answers.dial)

def issues (this : PreparedState) : PreparedEvent → Option (Nat × StatementCommand)
  | .execute index _ =>
      (this.handles[index]?).join.map fun prepared => (prepared.db, .execute prepared.name)
  | .resume _ => this.waiting.head?.map fun wait => (wait.db, wait.command)
  | _ => none

structure KeptBy (inv : PreparedState → Prop) (this : PreparedState) (event : PreparedEvent) :
    Prop where
  pool : ∀ pooled, event = .pool pooled → inv (this.applyPool pooled)
  opened : ∀ next actor now dial, this.opens event = some (actor, now, dial) →
    next.pool = this.pool → inv next → inv (next.applyPool (.openConnection actor now dial))
  sends : ∀ next actor conn command, this.issues event = some (actor, command) →
    (next.pool.dbs actor).conn = some conn → inv next → inv (next.send conn command)
  drops : ∀ next lock now, inv next → inv (next.dropLock lock now)
  makes : ∀ next prepared, inv next → inv (next.addHandle prepared)
  destroys : ∀ next index, inv next → inv { next with handles := next.handles.set index none }
  waits : ∀ next waiting, inv next → inv (next.wait waiting)
  ends : ∀ next, inv next → inv next.terminate

theorem dropLock_conn {this : PreparedState} {lock : Nat} {now : Int} {db : Nat} :
    ((this.dropLock lock now).pool.dbs db).conn = (this.pool.dbs db).conn :=
  congrArg (fun dbs => (dbs db).conn) Pool.dropHeld_dbs

namespace KeptBy

variable {inv : PreparedState → Prop} {this : PreparedState} {event : PreparedEvent}

theorem prepare {call : PrepareCall} {now : Int} {dial : Dial} (start : inv this)
    (kept : KeptBy inv this (.prepare call now dial)) : inv (this.prepare call now dial) := by
  have opened := kept.opened this _ _ _ rfl rfl start
  unfold PreparedState.prepare PreparedState.openConnection
  split
  · rename_i result
    rw [← (Prod.mk.inj result).1]
    exact opened
  · rename_i next lock result
    rw [← (Prod.mk.inj result).1]
    exact kept.waits _ _ opened

theorem refuse (kept : KeptBy inv this event) {next : PreparedState} (holds : inv next)
    (own : Option Nat) : inv (next.refuse own) := by
  unfold PreparedState.refuse
  split
  · exact kept.ends _ holds
  · exact holds

theorem resumePrepare {call : PrepareCall} {lock : Nat} {waiting : List PreparedWait}
    {answers : PreparedAnswers} (start : inv this) (top : this.waiting = .prepare call lock :: waiting)
    (kept : KeptBy inv this (.resume answers)) :
    inv ((this.wait waiting).resumePrepare call lock answers) := by
  have issuing : this.issues (.resume answers) = some (call.db, .prepare call.name call.sql) := by
    simp [issues, top, PreparedWait.db, PreparedWait.command]
  have opened := kept.opened (this.wait waiting) call.db answers.now answers.dial
    (by simp [opens, top, PreparedWait.db]) rfl (kept.waits _ _ start)
  unfold PreparedState.resumePrepare PreparedState.openConnection
  split
  · rename_i result
    rw [← (Prod.mk.inj result).1]
    exact kept.drops _ lock _ opened
  · rename_i next query result
    obtain ⟨rfl, _⟩ := Prod.mk.inj result
    split
    · exact kept.ends _ opened
    · rename_i conn held
      have dropped := kept.drops _ query answers.now opened
      unfold sendPrepare
      dsimp only
      split
      · exact kept.drops _ lock _ dropped
      · exact kept.makes _ _ dropped
      · split
        · have sent := kept.sends _ _ conn _ issuing (dropLock_conn.trans held) dropped
          split
          · exact kept.makes _ _ sent
          · exact kept.drops _ lock _ sent
        · exact kept.drops _ lock _ dropped

theorem execute {index : Nat} {answers : PreparedAnswers} (start : inv this)
    (kept : KeptBy inv this (.execute index answers)) : inv (this.execute index answers).1 := by
  unfold PreparedState.execute PreparedState.openConnection
  split
  · exact start
  · rename_i prepared handle
    have opened := kept.opened this prepared.db answers.now answers.dial
      (by simp [opens, handle]) rfl start
    split
    · rename_i result
      rw [← (Prod.mk.inj result).1]
      exact opened
    · rename_i next lock result
      obtain ⟨rfl, _⟩ := Prod.mk.inj result
      split
      · exact kept.ends _ opened
      · rename_i conn held
        split
        · apply kept.drops
          exact kept.sends _ _ conn _ (by simp [issues, handle]) held opened
        · exact kept.drops _ lock _ opened

theorem deallocatePrepared {next : PreparedState} {db : Nat} {name : List Char}
    {own : Option Nat} {now : Int} {dial : Dial} (kept : KeptBy inv this event)
    (opening : this.opens event = some (db, now, dial)) (same : next.pool = this.pool)
    (start : inv next) : inv (next.deallocatePrepared db name own now dial) := by
  have opened := kept.opened next db now dial opening same start
  unfold PreparedState.deallocatePrepared PreparedState.openConnection
  split
  · rename_i result
    rw [← (Prod.mk.inj result).1]
    exact kept.refuse opened own
  · rename_i _ lock result
    obtain ⟨rfl, _⟩ := Prod.mk.inj result
    split
    · exact kept.ends _ opened
    · exact kept.waits _ _ (kept.drops _ lock _ opened)

theorem resumeDeallocate {db : Nat} {name : List Char} {own : Option Nat}
    {waiting : List PreparedWait} {answers : PreparedAnswers} (start : inv this)
    (top : this.waiting = .deallocate db name own :: waiting)
    (kept : KeptBy inv this (.resume answers)) :
    inv ((this.wait waiting).resumeDeallocate db name own answers) := by
  have opened := kept.opened (this.wait waiting) db answers.now answers.dial
    (by simp [opens, top, PreparedWait.db]) rfl (kept.waits _ _ start)
  unfold PreparedState.resumeDeallocate PreparedState.openConnection
  split
  · rename_i result
    rw [← (Prod.mk.inj result).1]
    exact kept.refuse opened own
  · rename_i next lock result
    obtain ⟨rfl, _⟩ := Prod.mk.inj result
    split
    · exact kept.ends _ opened
    · rename_i conn held
      have sent := kept.sends _ db conn (.deallocate (deallocatedName name))
        (by simp [issues, top, PreparedWait.db, PreparedWait.command]) held opened
      have dropped : ∀ {later : PreparedState}, inv later → inv
          (if answers.taken && answers.accepted then
            own.elim (later.dropLock lock answers.now)
              fun lock' => (later.dropLock lock answers.now).dropLock lock' answers.now
          else (later.dropLock lock answers.now).refuse own) := by
        intro later holds
        have after := kept.drops _ lock answers.now holds
        split
        · cases own with
          | none => exact after
          | some own => exact kept.drops _ own _ after
        · exact kept.refuse after own
      dsimp only
      apply dropped
      split
      · exact sent
      · exact opened

theorem destroy {index : Nat} {now : Int} {dial : Dial} (start : inv this)
    (kept : KeptBy inv this (.destroy index now dial)) : inv (this.destroy index now dial) := by
  unfold PreparedState.destroy
  split
  · exact start
  · rename_i prepared handle
    have erased := kept.destroys _ index start
    dsimp only
    split
    · rename_i auto
      exact kept.deallocatePrepared (by simp [opens, handle, auto]) rfl erased
    · exact kept.drops _ _ _ erased

theorem step (kept : KeptBy inv this event) (start : inv this) : inv (this.step event) := by
  unfold PreparedState.step
  split
  · exact start
  · cases event with
    | pool event =>
        dsimp only
        split
        · exact kept.pool event rfl
        · exact start
    | prepare call now dial => exact kept.prepare start
    | execute index answers => exact kept.execute start
    | deallocate db name now dial => exact kept.deallocatePrepared rfl rfl start
    | destroy index now dial => exact kept.destroy start
    | resume answers =>
        dsimp only
        unfold PreparedState.resume
        split
        · exact start
        · rename_i call lock waiting top
          exact kept.resumePrepare start top
        · rename_i db name own waiting top
          exact kept.resumeDeallocate start top

end KeptBy

/-- Nobody is handed a connection to which another database points. -/
def Free (this : PreparedState) (event : PreparedEvent) : Prop :=
  (∀ pooled, event = .pool pooled → this.pool.HandsOutFree pooled) ∧
    ∀ actor now dial, this.opens event = some (actor, now, dial) →
      this.pool.HandsOutFree (.openConnection actor now dial)

/-- The database stays in its transaction, its `PGconn` works, and it does not deallocate the
name. -/
structure Quiet (db : Nat) (name : List Char) (this : PreparedState) (event : PreparedEvent) :
    Prop where
  pool : ∀ pooled, event = .pool pooled → pooled.Quiet db
  opens : ∀ now dial, this.opens event = some (db, now, dial) → dial.broken = false
  keeps : this.issues event ≠ some (db, .deallocate name)

theorem free_pool {this : PreparedState} {pooled : PoolEvent}
    (free : this.pool.HandsOutFree pooled) : this.Free (.pool pooled) := by
  constructor
  · rintro other ⟨rfl⟩
    exact free
  · intro actor now dial opening
    cases opening

theorem exclusive_step {this : PreparedState} (exclusive : this.pool.Exclusive)
    {event : PreparedEvent} (free : this.Free event) : (this.step event).pool.Exclusive := by
  refine @KeptBy.step (fun next => next.pool.Exclusive) _ _ ⟨?_, ?_, ?_, ?_, ?_, ?_, ?_, ?_⟩ exclusive
  · intro pooled isPooled
    exact exclusive.apply (free.1 pooled isPooled)
  · intro next actor now dial opening same exclusive
    exact exclusive.apply (same ▸ free.2 actor now dial opening)
  · intro next actor conn command _ _ exclusive
    exact exclusive
  · intro next lock now exclusive
    exact exclusive.apply (Pool.handsOutFree_dropHeld lock now)
  · intro next prepared exclusive
    exact exclusive
  · intro next index exclusive
    exact exclusive
  · intro next waiting exclusive
    exact exclusive
  · intro next exclusive
    exact exclusive

/-- A database is in a transaction in a session to which, of the commands behind the first
`count`, no `DEALLOCATE` of the name was sent. -/
structure Guarded (db : Nat) (session : Session) (name : List Char) (count : Nat)
    (this : PreparedState) : Prop where
  exclusive : this.pool.Exclusive
  inside : this.pool.InTransaction db session.conn
  same : this.session session.conn = session
  counted : count ≤ this.sent.length
  kept : (session, .deallocate name) ∉ this.sent.drop count

namespace Guarded

variable {db count : Nat} {session : Session} {name : List Char} {this : PreparedState}

theorem applyPool (guarded : this.Guarded db session name count) {event : PoolEvent}
    (free : this.pool.HandsOutFree event) (quiet : event.Quiet db) :
    (this.applyPool event).Guarded db session name count := by
  have exclusive := guarded.exclusive.apply free
  have inside := guarded.inside.apply guarded.exclusive free quiet
  refine ⟨exclusive, inside, ?_, guarded.counted, guarded.kept⟩
  rw [← guarded.same]
  exact congrArg (Session.mk session.conn) (if_pos (survives_inside exclusive inside quiet))

theorem send (guarded : this.Guarded db session name count) {actor conn : Nat}
    {command : StatementCommand} (held : (this.pool.dbs actor).conn = some conn)
    (keeps : actor = db → command ≠ .deallocate name) :
    (this.send conn command).Guarded db session name count := by
  refine ⟨guarded.exclusive, guarded.inside, guarded.same, ?_, ?_⟩
  · rw [PreparedState.send, List.length_append]
    exact Nat.le_add_right_of_le guarded.counted
  · rw [PreparedState.send, List.drop_append_of_le_length guarded.counted, List.mem_append,
      List.mem_singleton]
    rintro (old | new)
    · exact guarded.kept old
    · obtain ⟨place, rfl⟩ := Prod.mk.inj new
      have own : session.conn = conn := congrArg Session.conn place
      have actorIs := guarded.exclusive.unshared actor db conn held (own ▸ guarded.inside.held)
      exact keeps actorIs rfl

theorem step (guarded : this.Guarded db session name count) {event : PreparedEvent}
    (free : this.Free event) (quiet : this.Quiet db name event) :
    (this.step event).Guarded db session name count := by
  refine KeptBy.step ⟨?_, ?_, ?_, ?_, ?_, ?_, ?_, ?_⟩ guarded
  · intro pooled isPooled
    exact guarded.applyPool (free.1 pooled isPooled) (quiet.pool pooled isPooled)
  · intro next actor now dial opening same guarded
    refine guarded.applyPool (same ▸ free.2 actor now dial opening) ?_
    exact opening_quiet fun own => quiet.opens now dial (own ▸ opening)
  · intro next actor conn command issuing held guarded
    refine guarded.send held ?_
    rintro rfl rfl
    exact quiet.keeps issuing
  · intro next lock now guarded
    exact guarded.applyPool (Pool.handsOutFree_dropHeld lock now) fun acts => by cases acts
  · intro next prepared guarded
    exact ⟨guarded.exclusive, guarded.inside, guarded.same, guarded.counted, guarded.kept⟩
  · intro next index guarded
    exact ⟨guarded.exclusive, guarded.inside, guarded.same, guarded.counted, guarded.kept⟩
  · intro next waiting guarded
    exact ⟨guarded.exclusive, guarded.inside, guarded.same, guarded.counted, guarded.kept⟩
  · intro next guarded
    exact ⟨guarded.exclusive, guarded.inside, guarded.same, guarded.counted, guarded.kept⟩

theorem run (guarded : this.Guarded db session name count) {events : List PreparedEvent}
    (free : Runs.Meets PreparedState.step Free this events)
    (quiet : Runs.Meets PreparedState.step (Quiet db name) this events) :
    (Runs.run PreparedState.step this events).Guarded db session name count := by
  induction events generalizing this with
  | nil => exact guarded
  | cons event events ih => exact ih (guarded.step free.1 quiet.1) free.2 quiet.2

theorem executes (guarded : this.Guarded db session name count) {index : Nat}
    {prepared : Prepared} (handle : (this.handles[index]?).join = some prepared)
    (own : prepared.db = db) {answers : PreparedAnswers} (calm : answers.dial = Pool.calm) :
    (this.execute index answers).2 = if answers.taken then some session else none := by
  subst own
  obtain ⟨lock, opened⟩ := @Pool.openConnection_returns _ _ _ answers.now answers.dial
    guarded.inside.held (by rw [calm]; rfl) (by rw [calm]; rfl)
  have held := @Pool.openConnection_held _ _ _ answers.now answers.dial guarded.inside.held
  have unasked : this.pool.asks (.openConnection prepared.db answers.now answers.dial) = none := by
    simp [Pool.asks, guarded.inside.held]
  have same := (guarded.applyPool (Pool.handsOutFree_unasked unasked)
    (opening_quiet fun _ => by rw [calm]; rfl)).same
  simp only [execute, handle, openConnection, opened, applyPool_pool, held, same]
  split <;> rfl

end Guarded

/-- What a `prepare` that makes an object has done behind its wait. -/
structure Made (call : PrepareCall) (answers : PreparedAnswers) (query : Nat)
    (prepared : Prepared) (this next : PreparedState) : Prop where
  db : prepared.db = call.db
  name : prepared.name = call.name
  opened : (this.pool.openConnection call.db answers.now answers.dial).2 = some query
  pool : next.pool = (this.pool.apply (.openConnection call.db answers.now answers.dial)).apply
    (.dropHeld query answers.now)
  session : ∃ conn, (next.pool.dbs call.db).conn = some conn ∧ prepared.session = next.session conn

theorem resumePrepare_made {this : PreparedState} {call : PrepareCall} {lock : Nat}
    {answers : PreparedAnswers} {prepared : Prepared}
    (made : (this.resumePrepare call lock answers).handles = this.handles ++ [some prepared]) :
    prepared.lock = lock ∧
      ∃ query, Made call answers query prepared this (this.resumePrepare call lock answers) := by
  have none_ : this.handles ≠ this.handles ++ [some prepared] := by simp
  unfold resumePrepare openConnection at made ⊢
  split at made
  · rename_i result
    rw [← (Prod.mk.inj result).1] at made
    exact absurd made none_
  · rename_i first query result
    obtain ⟨rfl, opened⟩ := Prod.mk.inj result
    split at made
    · exact absurd made none_
    · rename_i conn held
      have object : ∀ next : PreparedState,
          next.pool = ((this.applyPool
            (.openConnection call.db answers.now answers.dial)).dropLock query answers.now).pool →
          (∀ other, next.session other = ((this.applyPool
            (.openConnection call.db answers.now answers.dial)).dropLock query answers.now).session
              other) →
          some prepared = some (call.newPrepared lock (((this.applyPool
            (.openConnection call.db answers.now answers.dial)).dropLock query answers.now).session
              conn)) →
          prepared.lock = lock ∧ ∃ query, Made call answers query prepared this next := by
        intro next pool session same
        obtain rfl := Option.some.inj same
        refine ⟨rfl, query, rfl, rfl, opened, pool, conn, ?_, (session conn).symm⟩
        rw [pool]
        exact dropLock_conn.trans held
      unfold sendPrepare at made ⊢
      dsimp only at made ⊢
      split at made
      · exact absurd made none_
      · exact object _ rfl (fun _ => rfl)
          (List.singleton_inj.mp (List.append_cancel_left made)).symm
      · split at made
        · rename_i taken
          rw [if_pos taken]
          split at made
          · rename_i accepted
            rw [if_pos accepted]
            exact object _ rfl (fun _ => rfl)
              (List.singleton_inj.mp (List.append_cancel_left made)).symm
          · exact absurd made none_
        · exact absurd made none_

theorem resumeDeallocate_handles (this : PreparedState) (db : Nat) (name : List Char)
    (own : Option Nat) (answers : PreparedAnswers) :
    (this.resumeDeallocate db name own answers).handles = this.handles := by
  have refused : ∀ next : PreparedState, (next.refuse own).handles = next.handles := by
    intro next
    unfold refuse
    split <;> rfl
  have dropped : ∀ next : PreparedState,
      (own.elim next fun lock => next.dropLock lock answers.now).handles = next.handles := by
    intro next
    cases own <;> rfl
  unfold resumeDeallocate openConnection
  split
  · rename_i result
    rw [← (Prod.mk.inj result).1, refused]
    rfl
  · rename_i next lock result
    obtain ⟨rfl, _⟩ := Prod.mk.inj result
    split
    · rfl
    · dsimp only
      split
      · rw [dropped]
        split <;> rfl
      · rw [refused]
        split <;> rfl

theorem resume_made {this : PreparedState} {answers : PreparedAnswers} {prepared : Prepared}
    (made : (this.step (.resume answers)).handles = this.handles ++ [some prepared]) :
    ∃ call waiting query, this.waiting = .prepare call prepared.lock :: waiting ∧
      Made call answers query prepared this (this.step (.resume answers)) := by
  have none_ : this.handles ≠ this.handles ++ [some prepared] := by simp
  unfold step at made ⊢
  split at made
  · exact absurd made none_
  · rename_i running
    rw [if_neg running]
    dsimp only at made ⊢
    unfold resume at made ⊢
    split at made
    · exact absurd made none_
    · rename_i call lock waiting top
      obtain ⟨rfl, query, result⟩ := resumePrepare_made made
      exact ⟨call, waiting, query, top, result.db, result.name, result.opened, result.pool,
        result.session⟩
    · rw [resumeDeallocate_handles] at made
      exact absurd made none_

/-- A `PGconn` that works, and a server that does what it is told. -/
def calmAnswers : PreparedAnswers :=
  { now := 0, dial := Pool.calm, listed := some false, taken := true, accepted := true }

def calmCall : PrepareCall :=
  { db := 0, name := ['a'], sql := ['1'], autoDeallocate := false, typed := true }

/-- What is prepared in a transaction is executed in the transaction and on the `PGconn` that it was
prepared in, until the transaction ends, and nothing deallocates it there: whatever the other
databases of the pool do, while no connection is shared, and whatever the database itself does,
unless it deallocates the name or loses its `PGconn`. -/
theorem executes_in_session {maxConn conn : Nat} {before after : List PreparedEvent}
    {made answers : PreparedAnswers} {prepared : Prepared}
    (free : Runs.Meets step Free (initial maxConn) (before ++ .resume made :: after))
    (inside : (Runs.run step (initial maxConn) before).pool.InTransaction prepared.db conn)
    (makes : (Runs.run step (initial maxConn) (before ++ [.resume made])).handles =
      (Runs.run step (initial maxConn) before).handles ++ [some prepared])
    (quiet : Runs.Meets step (Quiet prepared.db prepared.name)
      (Runs.run step (initial maxConn) before) (.resume made :: after))
    {index : Nat} (handle : ((Runs.run step (initial maxConn)
      (before ++ .resume made :: after)).handles[index]?).join = some prepared)
    (calm : answers.dial = Pool.calm) :
    let reached := Runs.run step (initial maxConn) (before ++ .resume made :: after)
    (reached.execute index answers).2 = (if answers.taken then some prepared.session else none) ∧
      (prepared.session, .deallocate prepared.name) ∉ reached.sent.drop
        (Runs.run step (initial maxConn) before).sent.length := by
  obtain ⟨earlier, later⟩ := Runs.meets_append.mp free
  have exclusive : (Runs.run step (initial maxConn) before).pool.Exclusive :=
    earlier.invariant (fun this => this.pool.Exclusive)
      (fun this event exclusive free => exclusive_step exclusive free)
      (Pool.initial_exclusive maxConn)
  rw [Runs.run_append] at makes handle
  rw [Runs.run_append]
  clear free earlier
  generalize Runs.run step (initial maxConn) before = this at *
  rw [Runs.run_cons, Runs.run_nil] at makes
  have begun : this.Guarded prepared.db (this.session conn) prepared.name this.sent.length :=
    ⟨exclusive, inside, rfl, Nat.le_refl _, by simp⟩
  have resumed := begun.step later.1 quiet.1
  -- the object is for the session that the database is in
  obtain ⟨call, _, _, _, result⟩ := resume_made makes
  obtain ⟨own, held, session⟩ := result.session
  have place : prepared.session = this.session conn := by
    have same : own = conn := by
      rw [← result.db, resumed.inside.held] at held
      exact (Option.some.inj held).symm
    rw [session, same]
    exact resumed.same
  have guarded := begun.run later quiet
  rw [← place] at guarded
  exact ⟨guarded.executes handle rfl calm, guarded.kept⟩

theorem one_prepared_executes :
    let events : List PreparedEvent :=
      [.pool (.begin 0 0 Pool.calm true), .prepare calmCall 0 Pool.calm] ++
        .resume calmAnswers :: [.pool (.openConnection 1 0 Pool.calm)]
    let reached := Runs.run step (initial 2) events
    (reached.execute 0 calmAnswers).2 = some ⟨0, 0⟩ ∧
      (⟨0, 0⟩, .deallocate ['a']) ∉ reached.sent.drop 0 := by
  have begins : (initial 2).Free (.pool (.begin 0 0 Pool.calm true)) :=
    free_pool ((Pool.initial_known 2).handsOutFree fun _ _ conn _ _ => Nat.zero_le conn)
  have began := exclusive_step (Pool.initial_exclusive 2) begins
  -- a database that has its connection asks for no other
  have opens : ∀ (this : PreparedState) (event : PreparedEvent),
      (∀ pooled, event ≠ .pool pooled) → this.opens event = some (0, 0, Pool.calm) →
      (this.pool.dbs 0).conn = some 0 → this.Free event := by
    intro this event own opening held
    refine ⟨fun pooled isPooled => absurd isPooled (own pooled), fun actor now dial asks => ?_⟩
    obtain ⟨rfl, rfl, rfl⟩ : 0 = actor ∧ 0 = now ∧ Pool.calm = dial := by
      simpa using opening.symm.trans asks
    exact Pool.handsOutFree_unasked (by simp [Pool.asks, held])
  have quiet : ∀ (this : PreparedState) (event : PreparedEvent),
      (∀ pooled, event ≠ .pool pooled) → this.opens event = some (0, 0, Pool.calm) →
      this.issues event ≠ some (0, .deallocate ['a']) → Quiet 0 ['a'] this event := by
    intro this event own opening keeps
    refine ⟨fun pooled isPooled => absurd isPooled (own pooled), fun now dial asks => ?_, keeps⟩
    obtain ⟨rfl, rfl⟩ : 0 = now ∧ Pool.calm = dial := by simpa using opening.symm.trans asks
    rfl
  let first := (initial 2).step (.pool (.begin 0 0 Pool.calm true))
  let second := first.step (.prepare calmCall 0 Pool.calm)
  have prepares : first.Free (.prepare calmCall 0 Pool.calm) :=
    opens first _ (fun _ same => by cases same) rfl rfl
  have prepared := exclusive_step began prepares
  have resumes : second.Free (.resume calmAnswers) :=
    opens second _ (fun _ same => by cases same) rfl rfl
  have known := (exclusive_step prepared resumes).known
  refine @executes_in_session 2 0
    [.pool (.begin 0 0 Pool.calm true), .prepare calmCall 0 Pool.calm]
    [.pool (.openConnection 1 0 Pool.calm)] calmAnswers calmAnswers
    { db := 0, name := ['a'], autoDeallocate := false, lock := 0, session := ⟨0, 0⟩ }
    ⟨begins, prepares, resumes, free_pool (known.handsOutFree ?_), trivial⟩ ⟨rfl, rfl⟩ rfl
    ⟨quiet second _ (fun _ same => by cases same) rfl (fun same => by cases same),
      ⟨?_, ?_, ?_⟩, trivial⟩ 0 rfl rfl
  · intro owner now conn asks got
    obtain ⟨rfl, rfl⟩ : 1 = owner ∧ 0 = now := Prod.mk.inj (Option.some.inj asks)
    obtain rfl : 1 = conn := Option.some.inj got
    exact Nat.le_refl 1
  · rintro pooled ⟨rfl⟩ acts
    cases acts
  · intro now dial opening
    cases opening
  · intro issuing
    cases issuing

end PreparedState

end PqAsync
