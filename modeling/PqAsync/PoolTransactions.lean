import PqAsync.PoolIsolation

/-!
What the events of a pool leave of the transaction of a database, also its own events.
-/

namespace PqAsync

def PoolEvent.dials : PoolEvent → Option (Nat × Dial)
  | .openConnection db _ dial => some (db, dial)
  | .connect db _ _ dial => some (db, dial)
  | .begin db _ dial _ => some (db, dial)
  | _ => none

theorem PoolEvent.actor_of_dials {event : PoolEvent} {dialed : Nat × Dial}
    (dials : dialed ∈ event.dials) : event.actor = some dialed.1 := by
  cases event <;> cases dials <;> rfl

/-- A transaction on a `PGconn`. The number grows with every event that leaves the connection in no
transaction, and whenever its `PGconn` is replaced. -/
structure Session where
  conn : Nat
  transaction : Nat
  deriving DecidableEq, Repr

/-- The transaction of a connection goes on behind an event of the pool. -/
def PoolEvent.survives (event : PoolEvent) (next : Pool) (conn : Nat) : Bool :=
  (next.mem conn).isInTransaction &&
    !event.dials.any fun dialed => dialed.2.broken && (next.dbs dialed.1).conn == some conn

def PoolEvent.counted (event : PoolEvent) (next : Pool) (transaction : Nat → Nat) (conn : Nat) :
    Nat :=
  if event.survives next conn then transaction conn else transaction conn + 1

def PoolEvent.ends : PoolEvent → Bool
  | .endTransaction _ _ _ => true
  | .ended _ _ _ => true
  | .close _ _ _ => true
  | _ => false

/-- A database stays in its transaction, and its `PGconn` works. -/
def PoolEvent.Quiet (db : Nat) (event : PoolEvent) : Prop :=
  event.actor = some db → event.ends = false ∧ ∀ dialed ∈ event.dials, dialed.2.broken = false

theorem Connection.openConnection_inside {conn : Connection} (inside : conn.isInTransaction = true)
    {dial : Dial} (unbroken : dial.broken = false) (now : Int) :
    (conn.openConnection now dial).1.isInTransaction = true := by
  simp only [openConnection, unbroken, Bool.and_false, Bool.false_eq_true, if_false]
  split <;> exact inside

namespace Pool

section

variable {pool : Pool} {db conn : Nat}

theorem InTransaction.modify (inside : pool.InTransaction db conn) (taken : Nat)
    {change : Connection → Connection}
    (kept : ∀ conn : Connection, conn.isInTransaction = true →
      (change conn).isInTransaction = true) : (pool.modify taken change).InTransaction db conn := by
  refine ⟨inside.held, ?_⟩
  by_cases same : conn = taken
  · subst conn
    simpa [Pool.modify] using kept _ inside.inside
  · simpa [Pool.modify, same] using inside.inside

theorem InTransaction.locked (inside : pool.InTransaction db conn) (taken : Nat) (now : Int) :
    (pool.locked taken now).InTransaction db conn :=
  ⟨inside.held, (locked_sameSession pool taken conn now).isInTransaction.trans inside.inside⟩

theorem InTransaction.dropLock (inside : pool.InTransaction db conn) (lock : Nat) (now : Int) :
    (pool.dropLock lock now).InTransaction db conn :=
  ⟨by rw [dropLock_dbs]; exact inside.held,
    (dropLock_sameSession pool lock conn now).isInTransaction.trans inside.inside⟩

theorem InTransaction.openOn (inside : pool.InTransaction db conn) (taken : Nat) (now : Int)
    {dial : Dial} (unbroken : dial.broken = false) :
    (pool.openOn taken now dial).1.InTransaction db conn :=
  inside.modify taken fun _ held => Connection.openConnection_inside held unbroken now

theorem InTransaction.reserved (inside : pool.InTransaction db conn) (taken : Nat) (now : Int) :
    (pool.reserved db taken now).InTransaction db conn := by
  have assigned : (pool.assign db now).1.InTransaction db conn := by
    rw [assign_of_own inside.held]
    exact inside
  exact assigned.modify taken fun _ held => held

/-- Opening the connection of a database again does not end what is open on it. -/
theorem InTransaction.opening (inside : pool.InTransaction db conn) {now : Int} {dial : Dial}
    (unbroken : dial.broken = false) :
    (pool.openConnection db now dial).1.InTransaction db conn ∧
      (pool.connect db false now dial).1.InTransaction db conn := by
  have assigned : (pool.assign db now).1.InTransaction db conn := by
    rw [assign_of_own inside.held]
    exact inside
  constructor
  · cases locked : (pool.dbs db).lock with
    | some lock =>
        simp only [openConnection, locked]
        exact ⟨inside.held, inside.inside⟩
    | none =>
        obtain ⟨_, step⟩ | ⟨taken, _, ⟨_, step⟩ | ⟨_, step⟩⟩ := openConnection_cases locked now dial
        · rw [step]
          exact assigned
        · rw [step]
          exact ((inside.reserved taken now).locked taken now).openOn taken now unbroken
        · rw [step]
          exact (((inside.reserved taken now).locked taken now).openOn taken now unbroken).dropLock
            _ now
  · obtain ⟨_, step⟩ | ⟨taken, _, ⟨_, step⟩ | ⟨_, step⟩⟩ := pool.connect_cases db now dial
    · rw [step]
      exact assigned
    · rw [step]
      exact (inside.reserved taken now).openOn taken now unbroken
    · rw [step]
      exact ((inside.reserved taken now).openOn taken now unbroken).locked taken now

theorem InTransaction.setLock (inside : pool.InTransaction db conn) (lock : Option Nat)
    (now : Int) : (pool.setLock db lock now).InTransaction db conn :=
  ⟨((setLock_sameLinks pool db lock now).conn db).trans inside.held,
    (setLock_sameSession pool db lock now conn).isInTransaction.trans inside.inside⟩

theorem InTransaction.own (inside : pool.InTransaction db conn) {event : PoolEvent}
    (acts : event.actor = some db) (quiet : event.Quiet db) :
    (pool.apply event).InTransaction db conn := by
  obtain ⟨stays, unbroken⟩ := quiet acts
  cases event with
  | openConnection actor now dial =>
      obtain rfl := Option.some.inj acts
      have opened := (@InTransaction.opening _ _ _ inside now _ (unbroken _ rfl)).1
      exact ⟨opened.held, opened.inside⟩
  | connect actor timedOut now dial =>
      obtain rfl := Option.some.inj acts
      cases timedOut with
      | true => exact ⟨inside.held, inside.inside⟩
      | false =>
          have connected := (@InTransaction.opening _ _ _ inside now _ (unbroken _ rfl)).2
          exact ⟨connected.held, connected.inside⟩
  | dropHeld | count => cases acts
  | endTransaction | ended | close => cases stays
  | keepLock actor lock now =>
      obtain rfl := Option.some.inj acts
      simp only [apply]
      split
      · exact @InTransaction.setLock (pool.copyLock lock) _ _ ⟨inside.held, inside.inside⟩ _ now
      · exact inside
  | begin actor now dial reply =>
      obtain rfl := Option.some.inj acts
      have opened := (@InTransaction.opening _ _ _ inside now _ (unbroken _ rfl)).1
      simp only [apply, begin]
      generalize pool.openConnection actor now dial = result at opened ⊢
      obtain ⟨next, lock⟩ := result
      cases lock with
      | none => exact opened
      | some lock =>
          have stored := opened.setLock (some lock) now
          dsimp only
          rw [stored.held]
          exact stored.modify conn fun _ held => by simp [Connection.beginTransaction, held]
  | began actor now reply =>
      obtain rfl := Option.some.inj acts
      simp only [apply, began]
      split
      · rw [inside.held]
        exact inside.modify conn fun _ _ => rfl
      · exact inside.setLock none now

theorem InTransaction.apply (inside : pool.InTransaction db conn) (exclusive : pool.Exclusive)
    {event : PoolEvent} (free : pool.HandsOutFree event) (quiet : event.Quiet db) :
    (pool.apply event).InTransaction db conn := by
  by_cases acts : event.actor = some db
  · exact inside.own acts quiet
  · exact (inside.kept exclusive free acts).inTransaction inside

theorem openConnection_newLock {now : Int} {dial : Dial} {lock : Nat}
    (unlocked : (pool.dbs db).lock = none)
    (opened : (pool.openConnection db now dial).2 = some lock) :
    ∃ conn, let next := pool.apply (.openConnection db now dial)
      (next.dbs db).conn = some conn ∧ (next.dbs db).lock = none ∧ lock ∈ next.held ∧
        lock = pool.nextLock ∧ next.nextLock = pool.nextLock + 1 ∧
        next.locks = Function.update pool.locks lock { conn, uses := 1 } := by
  have assigned := pool.assign_assigned db now
  have links := openConnection_sameLinks unlocked now dial
  have same := (pool.opening_lock db now dial db).1
  obtain ⟨_, step⟩ | ⟨conn, result, ⟨_, step⟩ | ⟨_, step⟩⟩ := openConnection_cases unlocked now dial
  · rw [step] at opened
    cases opened
  · have isNew : pool.nextLock = lock := by
      rw [step] at opened
      exact assigned.locks.nextLock.symm.trans (Option.some.inj opened)
    refine ⟨conn, (links.conn db).trans (assign_conn result), same.trans unlocked, ?_, isNew.symm,
      ?_, ?_⟩
    · simp [apply, hold, opened]
    · simp only [apply, hold, step]
      exact congrArg (· + 1) assigned.locks.nextLock
    · simp only [apply, hold, step, ← isNew]
      rw [← assigned.locks.locks, ← assigned.locks.nextLock]
      rfl
  · rw [step] at opened
    cases opened

theorem dropHeld_last {lock : Nat} {now : Int} (held : lock ∈ pool.held)
    (last : pool.locks lock = { conn, uses := 1 }) :
    let next := pool.apply (.dropHeld lock now)
    (next.mem conn).running = 0 ∧
      next.locks = Function.update pool.locks lock { conn, uses := 0 } := by
  simp [apply, held, dropLock, last, modify, Connection.stopWork, Connection.touch]

theorem handsOutFree_unasked {event : PoolEvent} (unasked : pool.asks event = none) :
    pool.HandsOutFree event := by
  intro owner now conn asked
  rw [unasked] at asked
  cases asked

theorem handsOutFree_dropHeld (lock : Nat) (now : Int) :
    pool.HandsOutFree (.dropHeld lock now) :=
  handsOutFree_unasked rfl

end

section

variable {pool : Pool} {db conn : Nat} {now : Int} {dial : Dial}

theorem openConnection_held (held : (pool.dbs db).conn = some conn) :
    ((pool.apply (.openConnection db now dial)).dbs db).conn = some conn := by
  have own : ¬ ((pool.dbs db).lock = none ∧ (pool.dbs db).conn = none) := by simp [held]
  have same := (Pool.openConnection_own_sameLinks own now dial).trans (Pool.hold_sameLinks _)
  exact (same.conn db).trans held

theorem openConnection_returns (held : (pool.dbs db).conn = some conn)
    (connects : dial.connects = true) (nonBlocking : dial.nonBlocking = true) :
    ∃ lock, (pool.openConnection db now dial).2 = some lock := by
  cases locked : (pool.dbs db).lock with
  | some lock => exact ⟨lock, by simp [Pool.openConnection, locked]⟩
  | none =>
      obtain ⟨refused, _⟩ | ⟨taken, _, ⟨_, step⟩ | ⟨closed, _⟩⟩ :=
        Pool.openConnection_cases locked now dial
      · rw [Pool.assign_of_own held] at refused
        cases refused
      · exact ⟨_, by rw [step]⟩
      · simp [Pool.openOn, Connection.openConnection_opens, Connection.opens, connects,
          nonBlocking] at closed

end

section

variable {pool : Pool} {lock : Nat} {now : Int}

theorem dropHeld_dbs : (pool.apply (.dropHeld lock now)).dbs = pool.dbs := by
  simp only [Pool.apply]
  split
  · rw [Pool.dropLock_dbs]
  · rfl

end

end Pool

theorem survives_inside {event : PoolEvent} {next : Pool} (exclusive : next.Exclusive)
    {db conn : Nat} (inside : next.InTransaction db conn) (quiet : event.Quiet db) :
    event.survives next conn = true := by
  have kept : event.dials.any (fun dialed =>
      dialed.2.broken && (next.dbs dialed.1).conn == some conn) = false := by
    rw [Option.any_eq_false]
    intro dialed dials
    by_cases held : (next.dbs dialed.1).conn = some conn
    · have own := exclusive.unshared db dialed.1 conn inside.held held
      have unbroken := (quiet (by rw [PoolEvent.actor_of_dials dials, own])).2 dialed dials
      simp [unbroken]
    · simp [held]
  simp [PoolEvent.survives, inside.inside, kept]

theorem opening_quiet {db actor : Nat} {now : Int} {dial : Dial}
    (unbroken : actor = db → dial.broken = false) :
    (PoolEvent.openConnection actor now dial).Quiet db := by
  intro acts
  refine ⟨rfl, fun dialed isDialed => ?_⟩
  obtain rfl := Option.some.inj isDialed
  exact unbroken (Option.some.inj acts)

end PqAsync
