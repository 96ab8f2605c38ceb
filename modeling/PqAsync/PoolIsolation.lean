import PqAsync.PoolSharing

/-!
A transaction of one database among the events of the others: while no connection is shared, no
other database takes its connection, uses it, or ends what is open on it.
-/

namespace PqAsync

/-- The database whose call an event is; a lock that is dropped, and a count, are nobody's. -/
def PoolEvent.actor : PoolEvent → Option Nat
  | .openConnection db _ _ => some db
  | .connect db _ _ _ => some db
  | .dropHeld _ _ => none
  | .keepLock db _ _ => some db
  | .begin db _ _ _ => some db
  | .endTransaction db _ _ => some db
  | .began db _ _ => some db
  | .ended db _ _ => some db
  | .close db _ _ => some db
  | .count _ => none

namespace Pool

structure InTransaction (pool : Pool) (db conn : Nat) : Prop where
  held : (pool.dbs db).conn = some conn
  inside : (pool.mem conn).isInTransaction = true

structure SameSession (pool next : Pool) (conn : Nat) : Prop where
  isInTransaction : (next.mem conn).isInTransaction = (pool.mem conn).isInTransaction
  opened : (next.mem conn).opened = (pool.mem conn).opened

namespace SameSession

theorem refl (pool : Pool) (conn : Nat) : pool.SameSession pool conn := ⟨rfl, rfl⟩

theorem trans {first second third : Pool} {conn : Nat} (left : first.SameSession second conn)
    (right : second.SameSession third conn) : first.SameSession third conn :=
  ⟨right.isInTransaction.trans left.isInTransaction, right.opened.trans left.opened⟩

theorem of_mem {pool next : Pool} (same : next.mem = pool.mem) (conn : Nat) :
    pool.SameSession next conn :=
  ⟨by rw [same], by rw [same]⟩

end SameSession

theorem modify_other_sameSession (pool : Pool) {changed conn : Nat} (other : conn ≠ changed)
    (change : Connection → Connection) : pool.SameSession (pool.modify changed change) conn := by
  constructor
  · simp [modify, other]
  · simp [modify, other]

theorem modify_sameSession (pool : Pool) (changed conn : Nat) (change : Connection → Connection)
    (inside : (change (pool.mem changed)).isInTransaction = (pool.mem changed).isInTransaction)
    (opened : (change (pool.mem changed)).opened = (pool.mem changed).opened) :
    pool.SameSession (pool.modify changed change) conn := by
  by_cases same : conn = changed
  · subst conn
    exact ⟨by simpa [modify] using inside, by simpa [modify] using opened⟩
  · exact pool.modify_other_sameSession same change

theorem startWork_session (conn : Connection) (now : Int) :
    (conn.startWork now).isInTransaction = conn.isInTransaction ∧
      (conn.startWork now).opened = conn.opened := by
  unfold Connection.startWork
  split <;> exact ⟨rfl, rfl⟩

theorem lock_session (conn : Connection) (now : Int) :
    (conn.lock now).1.isInTransaction = conn.isInTransaction ∧
      (conn.lock now).1.opened = conn.opened := by
  unfold Connection.lock
  split <;> exact ⟨rfl, rfl⟩

theorem locked_sameSession (pool : Pool) (locked conn : Nat) (now : Int) :
    pool.SameSession (pool.locked locked now) conn := by
  have work := startWork_session (pool.mem locked) now
  have same := pool.modify_sameSession locked conn (·.startWork now) work.1 work.2
  exact ⟨same.isInTransaction, same.opened⟩

theorem dropLock_sameSession (pool : Pool) (lock conn : Nat) (now : Int) :
    pool.SameSession (pool.dropLock lock now) conn := by
  have counted : pool.SameSession { pool with
      locks := Function.update pool.locks lock
        { pool.locks lock with uses := (pool.locks lock).uses - 1 } } conn := ⟨rfl, rfl⟩
  unfold dropLock
  dsimp only
  split
  · exact counted.trans (modify_sameSession _ _ conn (·.stopWork now) rfl rfl)
  · exact counted

theorem setLock_sameSession (pool : Pool) (db : Nat) (lock : Option Nat) (now : Int)
    (conn : Nat) : pool.SameSession (pool.setLock db lock now) conn := by
  have moved : pool.SameSession { pool with
      dbs := Function.update pool.dbs db { pool.dbs db with lock } } conn := ⟨rfl, rfl⟩
  unfold setLock
  dsimp only
  split
  · exact moved.trans (dropLock_sameSession _ _ conn now)
  · exact moved

theorem cleanup_sameSession (pool : Pool) (now : Int) (conn : Nat) :
    pool.SameSession (pool.cleanup now) conn :=
  .of_mem (pool.cleanup_frame now).1 conn

theorem setOwner_sameSession (pool : Pool) (owned owner conn : Nat) :
    pool.SameSession (pool.setOwner owned owner) conn :=
  pool.modify_sameSession owned conn _ rfl rfl

theorem poolLock_sameSession (pool : Pool) (locked conn : Nat) (now : Int) :
    pool.SameSession (pool.lock locked now) conn := by
  have kept := lock_session (pool.mem locked) now
  exact pool.modify_sameSession locked conn (fun conn => (conn.lock now).1) kept.1 kept.2

theorem create_sameSession {pool : Pool} {conn : Nat} (below : conn < pool.nextId) (now : Int) :
    pool.SameSession (pool.create now) conn := by
  have old : conn ≠ pool.nextId := Nat.ne_of_lt below
  constructor
  · simp [create, old]
  · simp [create, old]

theorem getConnection_sameSession {pool : Pool} {conn : Nat} (below : conn < pool.nextId)
    (owner : Nat) (now : Int) : pool.SameSession (pool.getConnection owner now).1 conn := by
  have clean := pool.cleanup_sameSession now conn
  have belowClean : conn < (pool.cleanup now).nextId := by
    rw [(pool.cleanup_frame now).2.1]
    exact below
  have created := create_sameSession belowClean now
  refine clean.trans ?_
  obtain ⟨_, step⟩ | ⟨found, _, _, _, step⟩ | ⟨_, _, _, step⟩ | ⟨_, _, step⟩ :=
    pool.getConnection_cases owner now
  · rw [step]
    exact (created.trans (poolLock_sameSession _ _ conn now)).trans (setOwner_sameSession _ _ _ _)
  · rw [step]
    exact (poolLock_sameSession _ _ conn now).trans (setOwner_sameSession _ _ _ _)
  · rw [step]
    exact created.trans (poolLock_sameSession _ _ conn now)
  · rw [step]
    obtain ⟨stolen, _, _, took⟩ | ⟨_, refused⟩ := (pool.cleanup now).steal_cases owner now
    · rw [took]
      have detached := SameSession.of_mem ((pool.cleanup now).detachOwner_mem stolen) conn
      have owned := setOwner_sameSession ((pool.cleanup now).detachOwner stolen) stolen owner conn
      have reserved := modify_sameSession
        (((pool.cleanup now).detachOwner stolen).setOwner stolen owner) stolen conn
        (·.reserve now) rfl rfl
      have all := (detached.trans owned).trans reserved
      exact ⟨all.isInTransaction, all.opened⟩
    · rw [refused]
      exact cleanup_sameSession _ now conn

theorem assign_sameSession {pool : Pool} {conn : Nat} (below : conn < pool.nextId) (db : Nat)
    (now : Int) : pool.SameSession (pool.assign db now).1 conn := by
  cases own : (pool.dbs db).conn with
  | some assigned =>
      rw [assign_of_own own]
      exact .refl pool conn
  | none =>
      rw [assign_of_free own]
      have got := getConnection_sameSession below db now
      unfold stored
      split
      · exact ⟨got.isInTransaction, got.opened⟩
      · exact got

section

variable {pool : Pool} {actor conn : Nat}

theorem opening_sameSession (below : conn < pool.nextId) (now : Int) (dial : Dial) :
    ((pool.dbs actor).lock = none →
      ((pool.openConnection actor now dial).1.dbs actor).conn ≠ some conn →
      pool.SameSession (pool.openConnection actor now dial).1 conn) ∧
    (((pool.connect actor false now dial).1.dbs actor).conn ≠ some conn →
      pool.SameSession (pool.connect actor false now dial).1 conn) := by
  have assigned := assign_sameSession below actor now
  have opening : ∀ taken, (pool.assign actor now).2 = some taken → taken ≠ conn →
      pool.SameSession ((pool.reserved actor taken now).locked taken now) conn ∧
      pool.SameSession (pool.reserved actor taken now) conn ∧
      ∀ next : Pool, next.SameSession (next.openOn taken now dial).1 conn := by
    intro taken _ different
    have reserved : pool.SameSession (pool.reserved actor taken now) conn :=
      assigned.trans (modify_sameSession _ taken conn (·.reserve now) rfl rfl)
    exact ⟨reserved.trans (locked_sameSession _ _ _ _), reserved,
      fun next => next.modify_other_sameSession (Ne.symm different)
        fun conn => (conn.openConnection now dial).1⟩
  have different {next : Pool} {taken : Nat} (result : (pool.assign actor now).2 = some taken)
      (links : (pool.assign actor now).1.SameLinks next)
      (notHeld : (next.dbs actor).conn ≠ some conn) : taken ≠ conn := by
    rw [links.conn, assign_conn result] at notHeld
    exact fun same => notHeld (congrArg some same)
  constructor
  · intro unlocked notHeld
    have links := openConnection_sameLinks unlocked now dial
    obtain ⟨_, step⟩ | ⟨taken, result, ⟨_, step⟩ | ⟨_, step⟩⟩ :=
      openConnection_cases unlocked now dial
    · rw [step]
      exact assigned
    · obtain ⟨reserved, _, opens⟩ := opening taken result (different result links notHeld)
      rw [step]
      exact reserved.trans (opens _)
    · obtain ⟨reserved, _, opens⟩ := opening taken result (different result links notHeld)
      rw [step]
      exact (reserved.trans (opens _)).trans (dropLock_sameSession _ _ _ _)
  · intro notHeld
    have links := connect_sameLinks pool actor now dial
    obtain ⟨_, step⟩ | ⟨taken, result, ⟨_, step⟩ | ⟨_, step⟩⟩ := pool.connect_cases actor now dial
    · rw [step]
      exact assigned
    · obtain ⟨_, reserved, opens⟩ := opening taken result (different result links notHeld)
      rw [step]
      exact reserved.trans (opens _)
    · obtain ⟨_, reserved, opens⟩ := opening taken result (different result links notHeld)
      rw [step]
      exact (reserved.trans (opens _)).trans (locked_sameSession _ _ _ _)

theorem openConnection_sameSession (below : conn < pool.nextId) (now : Int) (dial : Dial)
    (notHeld : ((pool.openConnection actor now dial).1.dbs actor).conn ≠ some conn) :
    pool.SameSession (pool.openConnection actor now dial).1 conn := by
  cases locked : (pool.dbs actor).lock with
  | none => exact (opening_sameSession below now dial).1 locked notHeld
  | some lock =>
      simp only [openConnection, locked]
      exact ⟨rfl, rfl⟩

theorem begin_sameSession (below : conn < pool.nextId) (now : Int) (dial : Dial) (reply : Bool)
    (notHeld : ((pool.begin actor now dial reply).dbs actor).conn ≠ some conn) :
    pool.SameSession (pool.begin actor now dial reply) conn := by
  have opened := @openConnection_sameSession pool actor conn below now dial
  rw [(begin_sameLinks pool actor now dial reply).conn] at notHeld
  refine (opened notHeld).trans ?_
  unfold begin
  generalize pool.openConnection actor now dial = opening at notHeld
  obtain ⟨next, lock⟩ := opening
  cases lock with
  | none => exact .refl next conn
  | some lock =>
      have stored := next.setLock_sameSession actor (some lock) now conn
      have links := setLock_sameLinks next actor (some lock) now
      refine stored.trans ?_
      dsimp only
      split
      · exact .refl _ conn
      · rename_i taken held
        rw [links.conn] at held
        refine modify_other_sameSession _ ?_ _
        rintro rfl
        exact notHeld held

theorem transaction_sameSession (notHeld : (pool.dbs actor).conn ≠ some conn) (now : Int)
    (reply : Bool) : pool.SameSession (pool.endTransaction actor now reply) conn ∧
      pool.SameSession (pool.began actor now reply) conn ∧
      pool.SameSession (pool.ended actor now reply) conn := by
  have different : ∀ taken, (pool.dbs actor).conn = some taken → conn ≠ taken := by
    rintro taken held rfl
    exact notHeld held
  have unlocks := fun next : Pool => next.setLock_sameSession actor none now conn
  refine ⟨?_, ?_, ?_⟩
  · unfold endTransaction
    split
    · exact .refl pool conn
    · rename_i taken held
      have ended := pool.modify_other_sameSession (different taken held)
        fun conn => (conn.endTransaction now reply).1
      dsimp only
      split
      · exact ended.trans (unlocks _)
      · exact ended
  · unfold began
    split
    · split
      · exact .refl pool conn
      · rename_i taken held
        exact pool.modify_other_sameSession (different taken held) _
    · exact unlocks pool
  · unfold ended
    split
    · exact unlocks pool
    · exact .refl pool conn
    · rename_i taken held
      exact (pool.modify_other_sameSession (different taken held) _).trans (unlocks _)

theorem close_sameSession (notHeld : (pool.dbs actor).conn ≠ some conn) (now : Int)
    (reply : Bool) : pool.SameSession (pool.close actor now reply) conn := by
  unfold close
  split
  · exact .refl pool conn
  · rename_i taken held
    have different : conn ≠ taken := by
      rintro rfl
      exact notHeld held
    have released := pool.modify_other_sameSession different fun conn => (conn.release now reply).1
    dsimp only
    split
    · exact ⟨released.isInTransaction, released.opened⟩
    · exact released

end

@[simp] theorem dropLock_dbs (pool : Pool) (lock : Nat) (now : Int) :
    (pool.dropLock lock now).dbs = pool.dbs := by
  unfold dropLock
  dsimp only
  split <;> rfl

theorem setLock_other_lock (pool : Pool) {db actor : Nat} (other : db ≠ actor)
    (lock : Option Nat) (now : Int) :
    ((pool.setLock actor lock now).dbs db).lock = (pool.dbs db).lock := by
  have moved : (Function.update pool.dbs actor { pool.dbs actor with lock } db).lock =
      (pool.dbs db).lock := by rw [Function.update_of_ne other]
  unfold setLock
  dsimp only
  split
  · rw [dropLock_dbs]
    exact moved
  · exact moved

theorem opening_lock (pool : Pool) (actor : Nat) (now : Int) (dial : Dial) (db : Nat) :
    ((pool.openConnection actor now dial).1.dbs db).lock = (pool.dbs db).lock ∧
      ((pool.connect actor false now dial).1.dbs db).lock = (pool.dbs db).lock := by
  have assigned := (pool.assign_assigned actor now).locks.lock db
  constructor
  · cases locked : (pool.dbs actor).lock with
    | some lock =>
        simp only [openConnection, locked]
        rfl
    | none =>
        obtain ⟨_, step⟩ | ⟨taken, _, ⟨_, step⟩ | ⟨_, step⟩⟩ :=
          openConnection_cases locked now dial
        · rw [step]
          exact assigned
        · rw [step]
          exact assigned
        · rw [step, dropLock_dbs]
          exact assigned
  · obtain ⟨_, step⟩ | ⟨taken, _, ⟨_, step⟩ | ⟨_, step⟩⟩ := pool.connect_cases actor now dial
    · rw [step]
      exact assigned
    · rw [step]
      exact assigned
    · rw [step]
      exact assigned

theorem apply_lock (pool : Pool) {event : PoolEvent} {db : Nat} (other : event.actor ≠ some db) :
    ((pool.apply event).dbs db).lock = (pool.dbs db).lock := by
  have unlocks {actor : Nat} (different : db ≠ actor) (next : Pool) (now : Int) :=
    next.setLock_other_lock different none now
  cases event with
  | openConnection actor now dial => exact (pool.opening_lock actor now dial db).1
  | connect actor timedOut now dial =>
      cases timedOut with
      | true => rfl
      | false => exact (pool.opening_lock actor now dial db).2
  | dropHeld lock now =>
      simp only [apply]
      split
      · rw [dropLock_dbs]
      · rfl
  | keepLock actor lock now =>
      have different : db ≠ actor := fun same => other (congrArg some same.symm)
      simp only [apply]
      split
      · exact setLock_other_lock _ different (some lock) now
      · rfl
  | begin actor now dial reply =>
      have different : db ≠ actor := fun same => other (congrArg some same.symm)
      have opened := (pool.opening_lock actor now dial db).1
      obtain ⟨_, step⟩ | ⟨lock, _, step | ⟨conn, step⟩⟩ := pool.begin_cases actor now dial reply
      · rw [apply, step]
        exact opened
      · rw [apply, step, setLock_other_lock _ different]
        exact opened
      · rw [apply, step]
        exact (setLock_other_lock _ different (some lock) now).trans opened
  | endTransaction actor now reply =>
      have different : db ≠ actor := fun same => other (congrArg some same.symm)
      simp only [apply, endTransaction]
      split
      · rfl
      · split
        · exact unlocks different _ now
        · rfl
  | began actor now reply =>
      have different : db ≠ actor := fun same => other (congrArg some same.symm)
      simp only [apply, began]
      split
      · split <;> rfl
      · exact unlocks different _ now
  | ended actor now reply =>
      have different : db ≠ actor := fun same => other (congrArg some same.symm)
      simp only [apply, ended]
      split
      · exact unlocks different _ now
      · rfl
      · exact unlocks different _ now
  | close actor now reply =>
      simp only [apply, close]
      split
      · rfl
      · split
        · exact (setConn_sameLocks _ actor none).lock db
        · rfl
  | count now => exact (pool.cleanup_sameLocks now).lock db

theorem InTransaction.not_takes {pool : Pool} {db conn : Nat} (inside : pool.InTransaction db conn)
    (owned : pool.Owned) {event : PoolEvent} (other : event.actor ≠ some db) :
    ¬ pool.Takes db event := by
  have own : ∀ taken ∈ pool.cons, (pool.mem taken).owner = some db → taken = conn := by
    intro taken inPool owner
    have held := owned.held inPool owner
    rw [inside.held] at held
    exact (Option.some.inj held).symm
  have noCleanup : ∀ now, ¬ pool.CleansUp now db := by
    rintro now ⟨taken, later, dead, owner⟩
    obtain rfl := own taken (List.mem_of_mem_drop later) owner
    simp [Connection.isDead, inside.inside] at dead
  have noSteal : ∀ now, ¬ pool.Steals now db := by
    rintro now ⟨_, _, taken, found, owner⟩
    have stolen : (pool.mem taken).canBeStolen = true := by simpa using List.find?_some found
    have inPool : taken ∈ pool.cons := by
      have survived := (mem_stealable _ _).mp (List.mem_of_find?_eq_some found)
      rw [cleanup_cons, survivors] at survived
      rcases List.mem_append.mp survived with early | late
      · exact List.mem_of_mem_take early
      · exact List.mem_of_mem_drop (List.mem_of_mem_filter late)
    obtain rfl := own taken inPool owner
    simp [Connection.canBeStolen, inside.inside] at stolen
  have noAsk : ¬ ∃ owner now, pool.asks event = some (owner, now) ∧
      (pool.CleansUp now db ∨ pool.Steals now db) := by
    rintro ⟨_, now, _, cleaned | stolen⟩
    · exact noCleanup now cleaned
    · exact noSteal now stolen
  cases event with
  | close actor now reply =>
      rintro ⟨rfl, _⟩
      exact other rfl
  | count now => exact noCleanup now
  | openConnection | connect | begin => exact noAsk
  | dropHeld | keepLock | endTransaction | began | ended => exact noAsk

theorem apply_conn_some (pool : Pool) {event : PoolEvent} {db conn : Nat}
    (other : event.actor ≠ some db) (held : ((pool.apply event).dbs db).conn = some conn) :
    (pool.dbs db).conn = some conn := by
  by_cases isClose : ∃ closed now reply, event = .close closed now reply
  · obtain ⟨closed, now, reply, rfl⟩ := isClose
    have different : db ≠ closed := fun same => other (congrArg some same.symm)
    simp only [apply, close] at held
    split at held
    · exact held
    · split at held
      · simpa [setConn, modify, different] using held
      · exact held
  by_cases isCount : ∃ now, event = .count now
  · obtain ⟨now, rfl⟩ := isCount
    exact cleanup_conn_some held
  · have notClose : ∀ closed now reply, event ≠ .close closed now reply :=
      fun closed now reply same => isClose ⟨closed, now, reply, same⟩
    have notCount : ∀ now, event ≠ .count now := fun now same => isCount ⟨now, same⟩
    cases asked : pool.asks event with
    | none =>
        rw [(unasked_sameLinks asked notClose notCount).conn] at held
        exact held
    | some call =>
        obtain ⟨owner, now⟩ := call
        obtain ⟨_, same⟩ := asked_sameLinks asked
        have different : db ≠ owner := by
          rintro rfl
          have acts : event.actor = some db := by
            cases event with
            | openConnection actor clock dial =>
                obtain ⟨_, pair⟩ := Option.ite_none_right_eq_some.mp asked
                exact congrArg some (Prod.mk.inj (Option.some.inj pair)).1
            | begin actor clock dial reply =>
                obtain ⟨_, pair⟩ := Option.ite_none_right_eq_some.mp asked
                exact congrArg some (Prod.mk.inj (Option.some.inj pair)).1
            | connect actor timedOut clock dial =>
                obtain ⟨_, pair⟩ := Option.ite_none_right_eq_some.mp asked
                exact congrArg some (Prod.mk.inj (Option.some.inj pair)).1
            | dropHeld | keepLock | endTransaction | began | ended | close | count => cases asked
          exact other acts
        rw [same.conn] at held
        unfold stored at held
        split at held
        · simp only [setConn, Function.update_of_ne different] at held
          exact getConnection_conn_some held
        · exact getConnection_conn_some held

theorem apply_sameSession {pool : Pool} {event : PoolEvent} {conn : Nat}
    (below : conn < pool.nextId)
    (before : ∀ actor, event.actor = some actor → (pool.dbs actor).conn ≠ some conn)
    (after : ∀ actor, event.actor = some actor →
      ((pool.apply event).dbs actor).conn ≠ some conn) :
    pool.SameSession (pool.apply event) conn := by
  cases event with
  | openConnection actor now dial =>
      have opened := openConnection_sameSession below now dial (after actor rfl)
      exact ⟨opened.isInTransaction, opened.opened⟩
  | connect actor timedOut now dial =>
      cases timedOut with
      | true => exact ⟨rfl, rfl⟩
      | false =>
          have connected := (opening_sameSession below now dial).2 (after actor rfl)
          exact ⟨connected.isInTransaction, connected.opened⟩
  | dropHeld lock now =>
      simp only [apply]
      split
      · have dropped := dropLock_sameSession { pool with held := pool.held.erase lock } lock conn now
        exact ⟨dropped.isInTransaction, dropped.opened⟩
      · exact .refl pool conn
  | keepLock actor lock now =>
      simp only [apply]
      split
      · have kept := setLock_sameSession (pool.copyLock lock) actor (some lock) now conn
        exact ⟨kept.isInTransaction, kept.opened⟩
      · exact .refl pool conn
  | begin actor now dial reply => exact begin_sameSession below now dial reply (after actor rfl)
  | endTransaction actor now reply =>
      exact (transaction_sameSession (before actor rfl) now reply).1
  | began actor now reply => exact (transaction_sameSession (before actor rfl) now reply).2.1
  | ended actor now reply => exact (transaction_sameSession (before actor rfl) now reply).2.2
  | close actor now reply => exact close_sameSession (before actor rfl) now reply
  | count now => exact cleanup_sameSession pool now conn

/-- What the other databases leave of a transaction: all of it. -/
structure Kept (pool next : Pool) (db conn : Nat) : Prop where
  holder : (next.dbs db).conn = (pool.dbs db).conn
  lock : (next.dbs db).lock = (pool.dbs db).lock
  session : pool.SameSession next conn

theorem Kept.refl (pool : Pool) (db conn : Nat) : pool.Kept pool db conn :=
  ⟨rfl, rfl, .refl pool conn⟩

theorem Kept.trans {first second third : Pool} {db conn : Nat} (left : first.Kept second db conn)
    (right : second.Kept third db conn) : first.Kept third db conn :=
  ⟨right.holder.trans left.holder, right.lock.trans left.lock, left.session.trans right.session⟩

theorem Kept.inTransaction {pool next : Pool} {db conn : Nat} (kept : pool.Kept next db conn)
    (inside : pool.InTransaction db conn) : next.InTransaction db conn :=
  ⟨kept.holder.trans inside.held, kept.session.isInTransaction.trans inside.inside⟩

structure Exclusive (pool : Pool) : Prop where
  owned : pool.Owned
  counted : pool.Counted
  known : pool.Known
  unshared : pool.Unshared

theorem Exclusive.apply {pool : Pool} (exclusive : pool.Exclusive) {event : PoolEvent}
    (free : pool.HandsOutFree event) : (pool.apply event).Exclusive where
  owned := exclusive.owned.apply event
  counted := exclusive.counted.apply event
  known := exclusive.known.apply exclusive.counted event
  unshared := (exclusive.owned.unshared_iff exclusive.known exclusive.unshared event).mpr free

theorem initial_exclusive (maxConn : Nat) : (initial maxConn).Exclusive :=
  ⟨initial_owned maxConn, initial_counted maxConn, initial_known maxConn, initial_unshared maxConn⟩

theorem Exclusive.run {pool : Pool} (exclusive : pool.Exclusive) {events : List PoolEvent}
    (free : Runs.Meets Pool.apply HandsOutFree pool events) :
    (Runs.run Pool.apply pool events).Exclusive :=
  free.invariant Exclusive (fun _ _ exclusive free => exclusive.apply free) exclusive

theorem InTransaction.kept {pool : Pool} {db conn : Nat} (inside : pool.InTransaction db conn)
    (exclusive : pool.Exclusive) {event : PoolEvent} (free : pool.HandsOutFree event)
    (other : event.actor ≠ some db) : pool.Kept (pool.apply event) db conn := by
  have next := (exclusive.apply free).unshared
  have still : ((pool.apply event).dbs db).conn ≠ none :=
    (pool.apply_conn_ne_none_iff event db).mpr
      (Or.inr ⟨by simp [inside.held], inside.not_takes exclusive.owned other⟩)
  obtain ⟨found, held⟩ := Option.ne_none_iff_exists'.mp still
  have before := pool.apply_conn_some other held
  rw [inside.held, Option.some.injEq] at before
  subst found
  refine ⟨held.trans inside.held.symm, pool.apply_lock other, ?_⟩
  apply apply_sameSession (exclusive.known.conn db conn inside.held)
  · rintro actor acts shared
    obtain rfl := exclusive.unshared db actor conn inside.held shared
    exact other acts
  · rintro actor acts shared
    obtain rfl := next db actor conn held shared
    exact other acts

theorem InTransaction.run_kept {pool : Pool} {db conn : Nat} (inside : pool.InTransaction db conn)
    (exclusive : pool.Exclusive) {events : List PoolEvent}
    (free : Runs.Meets apply HandsOutFree pool events)
    (others : ∀ event ∈ events, event.actor ≠ some db) :
    pool.Kept (Runs.run apply pool events) db conn := by
  induction events generalizing pool with
  | nil => exact .refl pool db conn
  | cons event events ih =>
      obtain ⟨other, others⟩ := List.forall_mem_cons.mp others
      have kept := inside.kept exclusive free.1 other
      exact kept.trans (ih (kept.inTransaction inside) (exclusive.apply free.1) free.2 others)

theorem Known.handsOutFree {pool : Pool} (known : pool.Known) {event : PoolEvent}
    (fresh : ∀ owner now conn, pool.asks event = some (owner, now) →
      (pool.getConnection owner now).2 = some conn → pool.nextId ≤ conn) :
    pool.HandsOutFree event := by
  intro owner now conn asked got other held
  exact absurd (known.conn other conn held) (Nat.not_lt.mpr (fresh owner now conn asked got))

/-- While no connection is shared, a transaction is isolated from all events of the other
databases: its database keeps the connection and the lock, the connection stays in the
transaction and open as it was, and nobody else has it. -/
theorem transaction_isolated {maxConn db conn : Nat} {before after : List PoolEvent}
    (free : Runs.Meets apply HandsOutFree (initial maxConn) (before ++ after))
    (inside : (Runs.run apply (initial maxConn) before).InTransaction db conn)
    (others : ∀ event ∈ after, event.actor ≠ some db) :
    let pool := Runs.run apply (initial maxConn) before
    let reached := Runs.run apply (initial maxConn) (before ++ after)
    reached.InTransaction db conn ∧ pool.Kept reached db conn ∧
      ∀ other, (reached.dbs other).conn = some conn → other = db := by
  intro pool reached
  obtain ⟨earlier, later⟩ := Runs.meets_append.mp free
  have exclusive := (initial_exclusive maxConn).run earlier
  have kept := inside.run_kept exclusive later others
  have next := exclusive.run later
  have same : reached = Runs.run apply pool after := Runs.run_append _ before after
  rw [same]
  have still := kept.inTransaction inside
  exact ⟨still, kept, fun other shared => next.unshared other db conn shared still.held⟩

def calm : Dial := { broken := false, connects := true, nonBlocking := true }

theorem second_database_isolated :
    let pool := Runs.run apply (initial 2) [.begin 0 0 calm true]
    let reached := Runs.run apply (initial 2) [.begin 0 0 calm true, .openConnection 1 0 calm]
    reached.InTransaction 0 0 ∧ pool.Kept reached 0 0 ∧
      ∀ other, (reached.dbs other).conn = some 0 → other = 0 := by
  have known : ((initial 2).apply (.begin 0 0 calm true)).Known :=
    (initial_known 2).apply (initial_counted 2) _
  refine @transaction_isolated 2 0 0 [.begin 0 0 calm true] [.openConnection 1 0 calm] ⟨?_, ?_, ?_⟩
    ⟨rfl, rfl⟩ (by decide)
  · exact (initial_known 2).handsOutFree fun _ _ conn _ _ => Nat.zero_le conn
  · apply known.handsOutFree
    intro owner now conn asks got
    obtain ⟨rfl, rfl⟩ : 1 = owner ∧ 0 = now := Prod.mk.inj (Option.some.inj asks)
    obtain rfl : 1 = conn := Option.some.inj got
    decide
  · trivial

end Pool

end PqAsync
