import PqAsync.PoolCore

/-!
What the operations of a database do to its pool, step by step.
-/

namespace PqAsync

namespace Connection

@[simp] theorem touch_owner (conn : Connection) (now : Int) :
    (conn.touch now).owner = conn.owner := rfl

@[simp] theorem reserve_owner (conn : Connection) (now : Int) :
    (conn.reserve now).owner = conn.owner := rfl

@[simp] theorem stopWork_owner (conn : Connection) (now : Int) :
    (conn.stopWork now).owner = conn.owner := rfl

@[simp] theorem startWork_owner (conn : Connection) (now : Int) :
    (conn.startWork now).owner = conn.owner := by
  unfold startWork
  split <;> rfl

@[simp] theorem lock_owner (conn : Connection) (now : Int) :
    (conn.lock now).1.owner = conn.owner := by
  unfold lock
  split <;> rfl

@[simp] theorem closeConnection_owner (conn : Connection) (now : Int) :
    (conn.closeConnection now).owner = conn.owner := by
  simp only [closeConnection]
  split <;> rfl

@[simp] theorem openConnection_owner (conn : Connection) (now : Int) (dial : Dial) :
    (conn.openConnection now dial).1.owner = conn.owner := by
  simp only [openConnection]
  split <;> split <;> simp

@[simp] theorem beginTransaction_owner (conn : Connection) (now : Int) (dial : Dial)
    (reply : Bool) : (conn.beginTransaction now dial reply).1.owner = conn.owner := by
  simp only [beginTransaction]
  split
  · rfl
  · split <;> simp

@[simp] theorem endTransaction_owner (conn : Connection) (now : Int) (reply : Bool) :
    (conn.endTransaction now reply).1.owner = conn.owner := by
  simp only [endTransaction]
  split <;> rfl

@[simp] theorem touch_running (conn : Connection) (now : Int) :
    (conn.touch now).running = conn.running := rfl

@[simp] theorem openConnection_running (conn : Connection) (now : Int) (dial : Dial) :
    (conn.openConnection now dial).1.running = conn.running := by
  unfold openConnection closeConnection
  cases opened : conn.opened <;> cases broken : dial.broken <;> simp [opened, touch]

@[simp] theorem beginTransaction_running (conn : Connection) (now : Int) (dial : Dial)
    (reply : Bool) : (conn.beginTransaction now dial reply).1.running = conn.running := by
  simp only [beginTransaction]
  split
  · rfl
  · split <;> simp

@[simp] theorem endTransaction_running (conn : Connection) (now : Int) (reply : Bool) :
    (conn.endTransaction now reply).1.running = conn.running := by
  simp only [endTransaction]
  split <;> rfl

theorem release_returns_iff (conn : Connection) (now : Int) (reply : Bool) :
    (conn.release now reply).2 = true ↔ (conn.isInTransaction = true → reply = true) := by
  simp only [release]
  cases conn.isInTransaction <;> cases reply <;> simp

end Connection

namespace Pool

theorem modify_running (pool : Pool) (conn : Nat) (change : Connection → Connection)
    (other : Nat) : ((pool.modify conn change).mem other).running =
      if other = conn then (change (pool.mem conn)).running else (pool.mem other).running := by
  by_cases same : other = conn
  · subst other
    simp [modify]
  · simp [modify, same]

theorem modify_keeps_running (pool : Pool) (conn : Nat) (change : Connection → Connection)
    (keeps : (change (pool.mem conn)).running = (pool.mem conn).running) (other : Nat) :
    ((pool.modify conn change).mem other).running = (pool.mem other).running := by
  rw [modify_running]
  split
  next same => rw [keeps, same]
  next different => rfl

/-- `new connection_lock_t(conn)` where it does not throw. -/
def locked (pool : Pool) (conn : Nat) (now : Int) : Pool :=
  { pool.modify conn (·.startWork now) with
    locks := Function.update pool.locks pool.nextLock { conn, uses := 1 }
    nextLock := pool.nextLock + 1 }

theorem newLock_of_reserved {pool : Pool} {conn : Nat} (reserved : (pool.mem conn).running = 2)
    (now : Int) : pool.newLock conn now = (pool.locked conn now, some pool.nextLock) := by
  simp [newLock, reserved, locked, modify]

/-- The connection of a database, reserved, and what else `open_connection()` and `_connect`
find in the pool then. -/
def reserved (pool : Pool) (db conn : Nat) (now : Int) : Pool :=
  (pool.assign db now).1.modify conn (·.reserve now)

theorem reserved_running (pool : Pool) (db conn : Nat) (now : Int) :
    ((pool.reserved db conn now).mem conn).running = 2 := by
  simp [reserved, modify, Connection.reserve]

theorem openConnection_cases {pool : Pool} {db : Nat} (unlocked : (pool.dbs db).lock = none)
    (now : Int) (dial : Dial) :
    ((pool.assign db now).2 = none ∧
      pool.openConnection db now dial = ((pool.assign db now).1, none)) ∨
    ∃ conn, (pool.assign db now).2 = some conn ∧
      let opened := ((pool.reserved db conn now).locked conn now).openOn conn now dial
      (opened.2 = true ∧
        pool.openConnection db now dial = (opened.1, some (pool.reserved db conn now).nextLock) ∨
      opened.2 = false ∧ pool.openConnection db now dial =
        (opened.1.dropLock (pool.reserved db conn now).nextLock now, none)) := by
  have running := fun conn => pool.reserved_running db conn now
  simp only [openConnection, unlocked]
  simp only [reserved] at running ⊢
  generalize pool.assign db now = assigned at running ⊢
  obtain ⟨next, conn⟩ := assigned
  cases conn with
  | none => exact Or.inl ⟨rfl, rfl⟩
  | some conn =>
      right
      refine ⟨conn, rfl, ?_⟩
      dsimp only
      rw [newLock_of_reserved (running conn)]
      dsimp only
      generalize ((next.modify conn (·.reserve now)).locked conn now).openOn conn now dial = opened
      obtain ⟨last, isOpen⟩ := opened
      cases isOpen with
      | true => exact Or.inl ⟨rfl, rfl⟩
      | false => exact Or.inr ⟨rfl, rfl⟩

theorem connect_cases (pool : Pool) (db : Nat) (now : Int) (dial : Dial) :
    ((pool.assign db now).2 = none ∧
      pool.connect db false now dial = ((pool.assign db now).1, none)) ∨
    ∃ conn, (pool.assign db now).2 = some conn ∧
      let opened := (pool.reserved db conn now).openOn conn now dial
      (opened.2 = false ∧ pool.connect db false now dial = (opened.1, none) ∨
      opened.2 = true ∧ pool.connect db false now dial =
        (opened.1.locked conn now, some opened.1.nextLock)) := by
  have running := fun conn => pool.reserved_running db conn now
  simp only [connect, Bool.false_eq_true, ↓reduceIte]
  simp only [reserved] at running ⊢
  generalize pool.assign db now = assigned at running ⊢
  obtain ⟨next, conn⟩ := assigned
  cases conn with
  | none => exact Or.inl ⟨rfl, rfl⟩
  | some conn =>
      right
      refine ⟨conn, rfl, ?_⟩
      have opening : ((((next.modify conn (·.reserve now)).openOn conn now dial).1).mem
          conn).running = 2 := by
        simp only [openOn]
        rw [modify_keeps_running _ _ _ (by simp)]
        exact running conn
      dsimp only at opening ⊢
      generalize (next.modify conn (·.reserve now)).openOn conn now dial = opened at opening ⊢
      obtain ⟨last, isOpen⟩ := opened
      cases isOpen with
      | true => exact Or.inr ⟨rfl, newLock_of_reserved opening now⟩
      | false => exact Or.inl ⟨rfl, rfl⟩

theorem opening_induction {inv : Pool → Prop}
    (changes : ∀ (pool : Pool) (conn : Nat) (change : Connection → Connection),
      (∀ conn, (change conn).owner = conn.owner) → inv pool → inv (pool.modify conn change))
    (locks : ∀ (pool : Pool) (conn : Nat) (now : Int), inv pool → inv (pool.locked conn now))
    (drops : ∀ (pool : Pool) (lock : Nat) (now : Int), inv pool → inv (pool.dropLock lock now))
    {pool : Pool} {db : Nat} {now : Int} (assigned : inv (pool.assign db now).1) (dial : Dial) :
    ((pool.dbs db).lock = none → inv (pool.openConnection db now dial).1) ∧
      inv (pool.connect db false now dial).1 := by
  have reserves : ∀ conn, inv (pool.reserved db conn now) := by
    intro conn
    exact changes _ conn (·.reserve now) (by simp) assigned
  have opens : ∀ (next : Pool) (conn : Nat), inv next → inv (next.openOn conn now dial).1 := by
    intro next conn
    exact changes next conn (fun conn => (conn.openConnection now dial).1) (by simp)
  constructor
  · intro unlocked
    obtain ⟨_, step⟩ | ⟨conn, _, ⟨_, step⟩ | ⟨_, step⟩⟩ := openConnection_cases unlocked now dial
    · rw [step]
      exact assigned
    · rw [step]
      exact opens _ conn (locks _ conn now (reserves conn))
    · rw [step]
      exact drops _ _ now (opens _ conn (locks _ conn now (reserves conn)))
  · obtain ⟨_, step⟩ | ⟨conn, _, ⟨_, step⟩ | ⟨_, step⟩⟩ := pool.connect_cases db now dial
    · rw [step]
      exact assigned
    · rw [step]
      exact opens _ conn (reserves conn)
    · rw [step]
      exact locks _ conn now (opens _ conn (reserves conn))

theorem begin_cases (pool : Pool) (db : Nat) (now : Int) (dial : Dial) (reply : Bool) :
    let opened := pool.openConnection db now dial
    (opened.2 = none ∧ pool.begin db now dial reply = opened.1) ∨
    ∃ lock, opened.2 = some lock ∧
      (pool.begin db now dial reply = opened.1.setLock db (some lock) now ∨
      ∃ conn, pool.begin db now dial reply = (opened.1.setLock db (some lock) now).modify conn
        fun conn => (conn.beginTransaction now dial reply).1) := by
  simp only [begin]
  generalize pool.openConnection db now dial = opened
  obtain ⟨next, lock⟩ := opened
  cases lock with
  | none => exact Or.inl ⟨rfl, rfl⟩
  | some lock =>
      right
      refine ⟨lock, rfl, ?_⟩
      dsimp only
      split
      · exact Or.inl rfl
      · rename_i conn _
        exact Or.inr ⟨conn, rfl⟩

theorem transaction_induction {inv : Pool → Prop}
    (changes : ∀ (pool : Pool) (conn : Nat) (change : Connection → Connection),
      (∀ conn, (change conn).owner = conn.owner ∧ (change conn).running = conn.running) →
      inv pool → inv (pool.modify conn change))
    (unlocks : ∀ (pool : Pool) (db : Nat) (now : Int), inv pool → inv (pool.setLock db none now))
    {pool : Pool} (start : inv pool) (db : Nat) (now : Int) (reply : Bool) :
    inv (pool.endTransaction db now reply) ∧ inv (pool.began db now reply) ∧
      inv (pool.ended db now reply) := by
  refine ⟨?_, ?_, ?_⟩
  · unfold endTransaction
    split
    · exact start
    · rename_i conn _
      have changed := changes pool conn (fun conn => (conn.endTransaction now reply).1)
        (by simp) start
      dsimp only
      split
      · exact unlocks _ db now changed
      · exact changed
  · unfold began
    split
    · split
      · exact start
      · exact changes _ _ _ (fun _ => ⟨rfl, rfl⟩) start
    · exact unlocks _ db now start
  · unfold ended
    split
    · exact unlocks _ db now start
    · exact start
    · exact unlocks _ db now (changes _ _ _ (fun _ => ⟨rfl, rfl⟩) start)

end Pool

end PqAsync
