import PqAsync.PoolLinks

/-!
How many connections a pool holds, and when `_get_connection` gives up.
-/

namespace PqAsync

/-- The calls that reach a pool: `_get_connection` and `release` themselves, and whatever
else the databases of the pool do. -/
inductive PoolCall
  | getConnection (owner : Nat) (now : Int)
  | release (conn : Nat) (now : Int) (reply : Bool)
  | event (event : PoolEvent)

namespace Pool

def release (pool : Pool) (conn : Nat) (now : Int) (reply : Bool) : Pool :=
  pool.modify conn fun conn => (conn.release now reply).1

def applyCall (pool : Pool) : PoolCall → Pool
  | .getConnection owner now => (pool.getConnection owner now).1
  | .release conn now reply => pool.release conn now reply
  | .event event => pool.apply event

@[simp] theorem dropLock_maxConn (pool : Pool) (lock : Nat) (now : Int) :
    (pool.dropLock lock now).maxConn = pool.maxConn := by
  simp only [dropLock]
  split <;> rfl

@[simp] theorem copyLock_maxConn (pool : Pool) (lock : Nat) :
    (pool.copyLock lock).maxConn = pool.maxConn := rfl

@[simp] theorem setLock_maxConn (pool : Pool) (db : Nat) (lock : Option Nat) (now : Int) :
    (pool.setLock db lock now).maxConn = pool.maxConn := by
  simp only [setLock]
  split
  · simp
  · rfl

@[simp] theorem cleanup_maxConn (pool : Pool) (now : Int) :
    (pool.cleanup now).maxConn = pool.maxConn :=
  (pool.cleanup_frame now).2.2

theorem getConnection_cases (pool : Pool) (owner : Nat) (now : Int) :
    let clean := pool.cleanup now
    (clean.cons = [] ∧ pool.getConnection owner now =
      (((clean.create now).lock clean.nextId now).setOwner clean.nextId owner,
        some clean.nextId)) ∨
    (∃ conn, (clean.cons.find? fun conn => (clean.mem conn).res = 0) = some conn ∧
      clean.cons.length < clean.maxConn ∧ clean.cons ≠ [] ∧
      pool.getConnection owner now = ((clean.lock conn now).setOwner conn owner, some conn)) ∨
    (clean.cons ≠ [] ∧ clean.cons.length < clean.maxConn ∧
      (∀ conn ∈ clean.cons, (clean.mem conn).res ≠ 0) ∧ pool.getConnection owner now =
        ((clean.create now).lock clean.nextId now, some clean.nextId)) ∨
    (clean.cons ≠ [] ∧ clean.maxConn ≤ clean.cons.length ∧
      pool.getConnection owner now = clean.steal owner now) := by
  intro clean
  by_cases empty : clean.cons = []
  · left
    refine ⟨empty, ?_⟩
    have none_ : clean.cons.length = 0 := by simp [empty]
    exact if_pos none_
  · right
    have some_ : ¬ clean.cons.length = 0 := by simpa using empty
    by_cases room : clean.cons.length < clean.maxConn
    · have step : pool.getConnection owner now = _ := (if_neg some_).trans (if_pos room)
      cases found : clean.cons.find? fun conn => (clean.mem conn).res = 0 with
      | some conn =>
          left
          rw [found] at step
          exact ⟨conn, rfl, room, empty, step⟩
      | none =>
          right; left
          rw [found] at step
          refine ⟨empty, room, ?_, step⟩
          intro conn inPool
          simpa using List.find?_eq_none.mp found conn inPool
    · right; right
      exact ⟨empty, Nat.le_of_not_lt room, (if_neg some_).trans (if_neg room)⟩

theorem mem_stealable (pool : Pool) (conn : Nat) : conn ∈ pool.stealable ↔ conn ∈ pool.cons := by
  simp only [stealable, List.mem_append, List.mem_filter, decide_eq_true_eq]
  constructor
  · rintro (⟨inPool, _⟩ | ⟨inPool, _⟩) <;> exact inPool
  · intro inPool
    by_cases higher : pool.lastStolenConnId < connectionId conn
    · exact Or.inl ⟨inPool, higher⟩
    · exact Or.inr ⟨inPool, not_lt.mp higher⟩

theorem steal_cases (pool : Pool) (owner : Nat) (now : Int) :
    (∃ conn ∈ pool.cons, (pool.mem conn).canBeStolen = true ∧ pool.steal owner now =
      ({ ((pool.detachOwner conn).setOwner conn owner).modify conn (·.reserve now) with
          lastStolenConnId := connectionId conn }, some conn)) ∨
    ((∀ conn ∈ pool.cons, (pool.mem conn).canBeStolen = false) ∧
      pool.steal owner now = ((pool.cleanup now), none)) := by
  unfold steal
  cases found : pool.stealable.find? fun conn => (pool.mem conn).canBeStolen with
  | some conn =>
      left
      have inPool := (pool.mem_stealable conn).mp (List.mem_of_find?_eq_some found)
      exact ⟨conn, inPool, by simpa using List.find?_some found, rfl⟩
  | none =>
      right
      refine ⟨fun conn inPool => ?_, rfl⟩
      simpa using List.find?_eq_none.mp found conn ((pool.mem_stealable conn).mpr inPool)

@[simp] theorem detachOwner_setOwner_cons (pool : Pool) (conn owner : Nat) :
    ((pool.detachOwner conn).setOwner conn owner).cons = pool.cons :=
  detachOwner_cons pool conn

theorem steal_frame (pool : Pool) (owner : Nat) (now : Int) :
    (pool.steal owner now).1.cons.length ≤ pool.cons.length ∧
      (pool.steal owner now).1.maxConn = pool.maxConn := by
  obtain ⟨conn, _, _, stolen⟩ | ⟨_, refused⟩ := pool.steal_cases owner now
  · rw [stolen]
    constructor
    · exact Nat.le_of_eq (congrArg List.length (detachOwner_cons pool conn))
    · exact detachOwner_maxConn pool conn
  · rw [refused]
    constructor
    · rw [cleanup_cons, survivors, List.length_append]
      have kept := List.length_filter_le (fun conn => !(pool.mem conn).isDead now)
        (pool.cons.drop 5)
      simp only [List.length_take, List.length_drop] at kept ⊢
      omega
    · exact cleanup_maxConn pool now

structure Bounded (maxConn : Nat) (pool : Pool) : Prop where
  limit : pool.maxConn = maxConn
  size : pool.cons.length ≤ maxConn

theorem SameLinks.bounded {maxConn : Nat} {pool next : Pool} (same : pool.SameLinks next)
    (limit : next.maxConn = pool.maxConn) (bounded : pool.Bounded maxConn) :
    next.Bounded maxConn := by
  constructor
  · exact limit.trans bounded.limit
  · rw [same.cons]
    exact bounded.size

theorem Bounded.cleanup {maxConn : Nat} {pool : Pool} (bounded : pool.Bounded maxConn)
    (now : Int) : (pool.cleanup now).Bounded maxConn := by
  constructor
  · rw [cleanup_maxConn, bounded.limit]
  · have small := bounded.size
    have kept := List.length_filter_le (fun conn => !(pool.mem conn).isDead now)
      (pool.cons.drop 5)
    simp only [cleanup_cons, survivors, List.length_append, List.length_take,
      List.length_drop] at kept ⊢
    omega

theorem Bounded.getConnection {maxConn : Nat} {pool : Pool} (bounded : pool.Bounded maxConn)
    (positive : 1 ≤ maxConn) (owner : Nat) (now : Int) :
    (pool.getConnection owner now).1.Bounded maxConn := by
  have clean := bounded.cleanup now
  obtain ⟨empty, step⟩ | ⟨conn, _, _, _, step⟩ | ⟨_, room, _, step⟩ | ⟨_, _, step⟩ :=
    pool.getConnection_cases owner now
  · rw [step]
    constructor
    · exact clean.limit
    · change ((pool.cleanup now).cons ++ [_]).length ≤ maxConn
      rw [empty]
      exact positive
  · rw [step]
    exact ⟨clean.limit, clean.size⟩
  · rw [step]
    constructor
    · exact clean.limit
    · change ((pool.cleanup now).cons ++ [_]).length ≤ maxConn
      rw [clean.limit] at room
      simp only [List.length_append, List.length_singleton]
      omega
  · rw [step]
    obtain ⟨length, limit⟩ := (pool.cleanup now).steal_frame owner now
    exact ⟨limit.trans clean.limit, Nat.le_trans length clean.size⟩

theorem Bounded.assign {maxConn : Nat} {pool : Pool} (bounded : pool.Bounded maxConn)
    (positive : 1 ≤ maxConn) (db : Nat) (now : Int) :
    (pool.assign db now).1.Bounded maxConn := by
  cases conn : (pool.dbs db).conn with
  | some conn => simpa [Pool.assign, conn] using bounded
  | none =>
      have got := bounded.getConnection positive db now
      rw [assign_of_free conn, stored]
      split
      · exact ⟨got.limit, got.size⟩
      · exact got

theorem Bounded.opening {maxConn : Nat} {pool : Pool} (bounded : pool.Bounded maxConn)
    (positive : 1 ≤ maxConn) (db : Nat) (now : Int) (dial : Dial) :
    ((pool.dbs db).lock = none → (pool.openConnection db now dial).1.Bounded maxConn) ∧
      (pool.connect db false now dial).1.Bounded maxConn := by
  apply opening_induction
  · intro next conn change keeps bounded
    exact (modify_sameLinks next conn change (keeps _)).bounded rfl bounded
  · intro next conn now bounded
    exact (locked_sameLinks next conn now).bounded rfl bounded
  · intro next lock now bounded
    exact (dropLock_sameLinks next lock now).bounded (dropLock_maxConn _ _ _) bounded
  · exact bounded.assign positive db now

theorem Bounded.openConnection {maxConn : Nat} {pool : Pool} (bounded : pool.Bounded maxConn)
    (positive : 1 ≤ maxConn) (db : Nat) (now : Int) (dial : Dial) :
    (pool.openConnection db now dial).1.Bounded maxConn := by
  cases locked : (pool.dbs db).lock with
  | some lock =>
      simp only [Pool.openConnection, locked]
      exact (copyLock_sameLinks pool lock).bounded rfl bounded
  | none => exact (bounded.opening positive db now dial).1 locked

theorem Bounded.begin {maxConn : Nat} {pool : Pool} (bounded : pool.Bounded maxConn)
    (positive : 1 ≤ maxConn) (db : Nat) (now : Int) (dial : Dial) (reply : Bool) :
    (pool.begin db now dial reply).Bounded maxConn := by
  have opened := bounded.openConnection positive db now dial
  obtain ⟨_, step⟩ | ⟨lock, _, step⟩ := pool.begin_cases db now dial reply
  · rwa [step]
  · have stored := (setLock_sameLinks _ db (some lock) now).bounded (setLock_maxConn _ _ _ _) opened
    obtain step | ⟨conn, step⟩ := step
    · rwa [step]
    · rw [step]
      exact (modify_sameLinks _ _ _ (by simp)).bounded rfl stored

theorem Bounded.transaction {maxConn : Nat} {pool : Pool} (bounded : pool.Bounded maxConn)
    (db : Nat) (now : Int) (reply : Bool) :
    (pool.endTransaction db now reply).Bounded maxConn ∧
      (pool.began db now reply).Bounded maxConn ∧ (pool.ended db now reply).Bounded maxConn := by
  apply transaction_induction
  · intro next conn change keeps bounded
    exact (modify_sameLinks next conn change (keeps _).1).bounded rfl bounded
  · intro next db now bounded
    exact (setLock_sameLinks next db none now).bounded (setLock_maxConn _ _ _ _) bounded
  · exact bounded

theorem Bounded.apply {maxConn : Nat} {pool : Pool} (bounded : pool.Bounded maxConn)
    (positive : 1 ≤ maxConn) (event : PoolEvent) : (pool.apply event).Bounded maxConn := by
  cases event with
  | openConnection db now dial =>
      exact (hold_sameLinks _).bounded rfl (bounded.openConnection positive db now dial)
  | connect db timedOut now dial =>
      apply (hold_sameLinks _).bounded rfl
      cases timedOut with
      | true => simpa [Pool.connect] using bounded
      | false => exact (bounded.opening positive db now dial).2
  | begin db now dial reply => exact bounded.begin positive db now dial reply
  | close db now reply =>
      simp only [Pool.apply, Pool.close]
      split
      · exact bounded
      · split
        · exact ⟨bounded.limit, bounded.size⟩
        · exact ⟨bounded.limit, bounded.size⟩
  | dropHeld lock now =>
      simp only [Pool.apply]
      split
      · exact (dropLock_sameLinks _ lock now).bounded (dropLock_maxConn _ _ _)
          ⟨bounded.limit, bounded.size⟩
      · exact bounded
  | keepLock db lock now =>
      simp only [Pool.apply]
      split
      · exact ((copyLock_sameLinks pool lock).trans (setLock_sameLinks _ _ _ _)).bounded
          (by simp) bounded
      · exact bounded
  | endTransaction db now reply => exact (bounded.transaction db now reply).1
  | began db now reply => exact (bounded.transaction db now reply).2.1
  | ended db now reply => exact (bounded.transaction db now reply).2.2
  | count now => exact bounded.cleanup now

theorem Bounded.applyCall {maxConn : Nat} {pool : Pool} (bounded : pool.Bounded maxConn)
    (positive : 1 ≤ maxConn) (call : PoolCall) : (pool.applyCall call).Bounded maxConn := by
  cases call with
  | getConnection owner now => exact bounded.getConnection positive owner now
  | release conn now reply => exact ⟨bounded.limit, bounded.size⟩
  | event event => exact bounded.apply positive event

theorem run_bounded {maxConn : Nat} (positive : 1 ≤ maxConn) (calls : List PoolCall) :
    (Runs.run applyCall (initial maxConn) calls).Bounded maxConn := by
  apply Runs.invariant (Bounded maxConn)
  · intro pool call bounded
    exact bounded.applyCall positive call
  · exact ⟨rfl, Nat.zero_le _⟩

theorem Bounded.getConnection_none_iff {maxConn : Nat} {pool : Pool}
    (bounded : pool.Bounded maxConn) (positive : 1 ≤ maxConn) (owner : Nat) (now : Int) :
    (pool.getConnection owner now).2 = none ↔
      (pool.cleanup now).cons.length = maxConn ∧
        ∀ conn ∈ (pool.cleanup now).cons, ((pool.cleanup now).mem conn).running ≠ 0 ∨
          ((pool.cleanup now).mem conn).isInTransaction = true := by
  have clean := bounded.cleanup now
  have limit := clean.limit
  have size := clean.size
  obtain ⟨empty, step⟩ | ⟨conn, _, room, _, step⟩ | ⟨_, room, _, step⟩ | ⟨_, full, step⟩ :=
    pool.getConnection_cases owner now
  · rw [step, empty]
    refine iff_of_false (by simp) ?_
    rintro ⟨length, _⟩
    simp only [List.length_nil] at length
    omega
  · rw [step]
    refine iff_of_false (by simp) ?_
    rintro ⟨length, _⟩
    omega
  · rw [step]
    refine iff_of_false (by simp) ?_
    rintro ⟨length, _⟩
    omega
  · rw [step]
    have length : (pool.cleanup now).cons.length = maxConn := by omega
    obtain ⟨conn, inPool, free, stolen⟩ | ⟨busy, refused⟩ :=
      (pool.cleanup now).steal_cases owner now
    · rw [stolen]
      refine iff_of_false (by simp) ?_
      rintro ⟨_, all⟩
      have used := all conn inPool
      simp only [Connection.canBeStolen, Bool.and_eq_true, Bool.not_eq_true',
        beq_iff_eq] at free
      rcases used with running | open_
      · exact running free.2
      · rw [free.1] at open_
        simp at open_
    · rw [refused]
      refine iff_of_true rfl ⟨length, fun conn inPool => ?_⟩
      have used := busy conn inPool
      simp only [Connection.canBeStolen, Bool.and_eq_false_iff, Bool.not_eq_false',
        beq_eq_false_iff_ne] at used
      exact used.symm

theorem getConnection_some {pool : Pool} {owner conn : Nat} {now : Int}
    (got : (pool.getConnection owner now).2 = some conn) :
    conn ∈ (pool.getConnection owner now).1.cons ∧
      ((pool.getConnection owner now).1.cons = (pool.cleanup now).cons ∨
        (pool.getConnection owner now).1.cons = (pool.cleanup now).cons ++ [conn] ∧
          ((pool.cleanup now).cons = [] ∨
            (pool.cleanup now).cons.length < (pool.cleanup now).maxConn) ∧
          ∀ other ∈ (pool.cleanup now).cons, ((pool.cleanup now).mem other).res ≠ 0) := by
  obtain ⟨empty, step⟩ | ⟨conn, found, _, _, step⟩ | ⟨_, room, reserved, step⟩ | ⟨_, _, step⟩ :=
    pool.getConnection_cases owner now
  · rw [step] at got ⊢
    obtain rfl := Option.some.inj got
    refine ⟨List.mem_append_right _ (List.mem_singleton_self _), Or.inr ⟨rfl, Or.inl empty, ?_⟩⟩
    intro other inPool
    rw [empty] at inPool
    simp at inPool
  · rw [step] at got ⊢
    obtain rfl := Option.some.inj got
    exact ⟨List.mem_of_find?_eq_some found, Or.inl rfl⟩
  · rw [step] at got ⊢
    obtain rfl := Option.some.inj got
    exact ⟨List.mem_append_right _ (List.mem_singleton_self _),
      Or.inr ⟨rfl, Or.inr room, reserved⟩⟩
  · rw [step] at got ⊢
    obtain ⟨stolen, inPool, _, result⟩ | ⟨_, refused⟩ := (pool.cleanup now).steal_cases owner now
    · rw [result] at got ⊢
      obtain rfl := Option.some.inj got
      have same := detachOwner_setOwner_cons (pool.cleanup now) stolen owner
      refine ⟨?_, Or.inl same⟩
      exact same.symm ▸ inPool
    · rw [refused] at got
      simp at got

/-- A pool never holds more than `_max_conn` connections. `_get_connection` throws exactly
when there are that many and none is idle; otherwise it returns one of the pool's
connections, a new one only when there is room and all others are reserved. -/
theorem pool_bounded (maxConn : Nat) (positive : 1 ≤ maxConn) (calls : List PoolCall)
    (owner : Nat) (now : Int) :
    let pool := Runs.run applyCall (initial maxConn) calls
    let clean := pool.cleanup now
    let got := pool.getConnection owner now
    pool.cons.length ≤ maxConn ∧
    (got.2 = none ↔ clean.cons.length = maxConn ∧ ∀ conn ∈ clean.cons,
      (clean.mem conn).running ≠ 0 ∨ (clean.mem conn).isInTransaction = true) ∧
    ∀ conn, got.2 = some conn → conn ∈ got.1.cons ∧ (got.1.cons = clean.cons ∨
      got.1.cons = clean.cons ++ [conn] ∧ clean.cons.length < maxConn ∧
        ∀ other ∈ clean.cons, (clean.mem other).res ≠ 0) := by
  intro pool clean got
  have bounded : pool.Bounded maxConn := run_bounded positive calls
  refine ⟨bounded.size, bounded.getConnection_none_iff positive owner now, ?_⟩
  intro conn result
  have limit : clean.maxConn = maxConn := (bounded.cleanup now).limit
  obtain ⟨inPool, same | ⟨created, room, reserved⟩⟩ := getConnection_some result
  · exact ⟨inPool, Or.inl same⟩
  · refine ⟨inPool, Or.inr ⟨created, ?_, reserved⟩⟩
    rcases room with empty | room
    · have none_ : clean.cons = [] := empty
      rw [none_]
      exact positive
    · rw [← limit]
      exact room

theorem pool_bounded_one :
    let pool := Runs.run applyCall (initial 1) [.getConnection 0 0, .getConnection 1 0]
    pool.cons.length ≤ 1 ∧ (pool.getConnection 2 0).2 = none := by
  have bound := pool_bounded 1 (by decide) [.getConnection 0 0, .getConnection 1 0] 2 0
  exact ⟨bound.1, bound.2.1.mpr (by decide)⟩

end Pool

end PqAsync
