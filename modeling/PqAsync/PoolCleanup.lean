import PqAsync.PoolLocks

/-!
Which connections the clean-up of a pool deletes, and when all of them are out of use.
-/

namespace PqAsync

namespace Connection

def cleanupDelay : Int := 15 * 1000000000

theorem isDead_iff (conn : Connection) (now : Int) :
    conn.isDead now = true ↔ conn.res ≤ 0 ∧ conn.isInTransaction = false ∧
      conn.lastModificationDate < now + cleanupDelay := by
  unfold isDead cleanupDelay
  cases conn.isInTransaction with
  | true => simp
  | false =>
      by_cases reserved : conn.res > 0
      · simp only [reserved, decide_true, Bool.or_true, ↓reduceIte, Bool.false_eq_true,
          false_iff]
        omega
      · simp only [reserved, decide_false, Bool.or_false, Bool.false_eq_true, ↓reduceIte,
          decide_eq_true_eq, true_and]
        omega

end Connection

namespace Pool

/-- The connection is not running, not in a transaction, last modified more than 15 seconds
ago, without a living lock, and given to no database, by `lock()` or by stealing. -/
structure Unused (pool : Pool) (now : Int) (conn : Nat) : Prop where
  running : (pool.mem conn).running = 0
  outside : (pool.mem conn).isInTransaction = false
  old : (pool.mem conn).lastModificationDate < now - Connection.cleanupDelay
  unlocked : ¬ pool.Locked conn
  free : ∀ db, (pool.dbs db).conn ≠ some conn

def cleansAt (pool : Pool) : PoolCall → Option Int
  | .getConnection _ now => some now
  | .event (.count now) => some now
  | .event (.openConnection db now _) =>
      if (pool.dbs db).lock = none ∧ (pool.dbs db).conn = none then some now else none
  | .event (.begin db now _ _) =>
      if (pool.dbs db).lock = none ∧ (pool.dbs db).conn = none then some now else none
  | .event (.connect db timedOut now _) =>
      if timedOut = false ∧ (pool.dbs db).conn = none then some now else none
  | _ => none

def DeletesUnused (pool : Pool) (call : PoolCall) : Prop :=
  ∀ conn ∈ pool.cons, conn ∉ (pool.applyCall call).cons →
    ∃ now, pool.cleansAt call = some now ∧ pool.Unused now conn

/-- When the clean-up runs, the connections from the sixth on that are not reserved by
`lock()`, not in a transaction and not modified 15 seconds later are out of use. -/
def CleanupSafe (pool : Pool) (call : PoolCall) : Prop :=
  ∀ now, pool.cleansAt call = some now → ∀ conn ∈ pool.cons.drop 5,
    (pool.mem conn).res ≤ 0 → (pool.mem conn).isInTransaction = false →
    (pool.mem conn).lastModificationDate < now + Connection.cleanupDelay →
      (pool.mem conn).running = 0 ∧
      (pool.mem conn).lastModificationDate < now - Connection.cleanupDelay ∧
      ¬ pool.Locked conn ∧ ∀ db, (pool.dbs db).conn ≠ some conn

theorem Allocated.notMem_survivors_iff {pool : Pool} (allocated : pool.Allocated) (now : Int)
    {conn : Nat} (inPool : conn ∈ pool.cons) :
    conn ∉ pool.survivors now ↔
      conn ∈ pool.cons.drop 5 ∧ (pool.mem conn).isDead now = true := by
  have parts := List.take_append_drop 5 pool.cons
  have apart := allocated.nodup
  rw [← parts] at apart inPool
  have disjoint := (List.nodup_append.mp apart).2.2
  simp only [survivors, List.mem_append, List.mem_filter, Bool.not_eq_true', not_or, not_and,
    Bool.not_eq_false]
  constructor
  · rintro ⟨notFirst, dead⟩
    have later := (List.mem_append.mp inPool).resolve_left notFirst
    exact ⟨later, dead later⟩
  · rintro ⟨later, dead⟩
    exact ⟨fun first => disjoint conn first conn later rfl, fun _ => dead⟩

theorem survivors_idem (pool : Pool) (now : Int) :
    (pool.cleanup now).survivors now = pool.survivors now := by
  obtain ⟨mem, _, _⟩ := pool.cleanup_frame now
  have cons := pool.cleanup_cons now
  simp only [survivors] at cons ⊢
  rw [mem, cons]
  by_cases small : pool.cons.length ≤ 5
  · rw [List.drop_of_length_le small, List.take_of_length_le small]
    simp [List.drop_of_length_le small, List.take_of_length_le small]
  · have five : (pool.cons.take 5).length = 5 := by
      rw [List.length_take]
      omega
    rw [List.take_append_of_le_length (by omega), List.drop_append_of_le_length (by omega),
      List.take_of_length_le (by omega), List.drop_of_length_le (by omega)]
    simp [List.filter_filter]

/-- `_get_connection` deletes what the clean-up deletes, and no more where it cleans up
again because nothing can be stolen. -/
theorem getConnection_cons (pool : Pool) (owner : Nat) (now : Int) :
    (pool.getConnection owner now).1.cons = pool.survivors now ∨
      (pool.getConnection owner now).1.cons = pool.survivors now ++ [pool.nextId] := by
  obtain ⟨_, nextId, _⟩ := pool.cleanup_frame now
  have cons := pool.cleanup_cons now
  obtain ⟨_, step⟩ | ⟨conn, _, _, _, step⟩ | ⟨_, _, _, step⟩ | ⟨_, _, step⟩ :=
    pool.getConnection_cases owner now
  · right
    rw [step, ← cons, ← nextId]
    rfl
  · left
    rw [step, ← cons]
    rfl
  · right
    rw [step, ← cons, ← nextId]
    rfl
  · left
    rw [step]
    obtain ⟨conn, _, _, stolen⟩ | ⟨_, refused⟩ := (pool.cleanup now).steal_cases owner now
    · rw [stolen, ← cons]
      exact detachOwner_setOwner_cons _ conn owner
    · rw [refused]
      exact (cleanup_cons _ now).trans (pool.survivors_idem now)

theorem Allocated.notMem_getConnection_iff {pool : Pool} (allocated : pool.Allocated)
    (owner : Nat) (now : Int) {conn : Nat} (inPool : conn ∈ pool.cons) :
    conn ∉ (pool.getConnection owner now).1.cons ↔ conn ∉ pool.survivors now := by
  have older := allocated.below conn inPool
  obtain same | added := pool.getConnection_cons owner now
  · rw [same]
  · rw [added, List.mem_append, List.mem_singleton]
    constructor
    · intro absent kept
      exact absent (Or.inl kept)
    · rintro absent (kept | rfl)
      · exact absent kept
      · omega

theorem assign_cons_of_free {pool : Pool} {db : Nat} (free : (pool.dbs db).conn = none)
    (now : Int) : (pool.assign db now).1.cons = (pool.getConnection db now).1.cons := by
  rw [assign_of_free free, stored]
  split <;> rfl

theorem assign_cons_of_held {pool : Pool} {db : Nat} (held : (pool.dbs db).conn ≠ none)
    (now : Int) : (pool.assign db now).1.cons = pool.cons := by
  obtain ⟨conn, own⟩ := Option.ne_none_iff_exists'.mp held
  simp [assign, own]

theorem openConnection_cons (pool : Pool) (db : Nat) (now : Int) (dial : Dial) :
    (pool.openConnection db now dial).1.cons =
      if (pool.dbs db).lock = none ∧ (pool.dbs db).conn = none then
        (pool.getConnection db now).1.cons
      else pool.cons := by
  by_cases unlocked : (pool.dbs db).lock = none
  · rw [(openConnection_sameLinks unlocked now dial).cons]
    split
    next both => exact assign_cons_of_free both.2 now
    next held => exact assign_cons_of_held (fun free => held ⟨unlocked, free⟩) now
  · rw [if_neg (fun both => unlocked both.1)]
    obtain ⟨lock, locked⟩ := Option.ne_none_iff_exists'.mp unlocked
    simp only [openConnection, locked]
    rfl

theorem connect_cons (pool : Pool) (db : Nat) (timedOut : Bool) (now : Int) (dial : Dial) :
    (pool.connect db timedOut now dial).1.cons =
      if timedOut = false ∧ (pool.dbs db).conn = none then (pool.getConnection db now).1.cons
      else pool.cons := by
  cases timedOut with
  | true => rfl
  | false =>
      rw [(connect_sameLinks pool db now dial).cons]
      split
      next both => exact assign_cons_of_free both.2 now
      next held => exact assign_cons_of_held (fun free => held ⟨rfl, free⟩) now

theorem Allocated.notMem_applyCall_iff {pool : Pool} (allocated : pool.Allocated)
    (call : PoolCall) {conn : Nat} (inPool : conn ∈ pool.cons) :
    conn ∉ (pool.applyCall call).cons ↔
      ∃ now, pool.cleansAt call = some now ∧ conn ∉ pool.survivors now := by
  have guarded : ∀ (condition : Prop) [Decidable condition] (owner : Nat) (now : Int),
      conn ∉ (if condition then (pool.getConnection owner now).1.cons else pool.cons) ↔
        ∃ clock, (if condition then some now else none) = some clock ∧
          conn ∉ pool.survivors clock := by
    intro condition _ owner now
    split
    · rw [allocated.notMem_getConnection_iff owner now inPool]
      simp
    · simp [inPool]
  have kept : ∀ next : Pool, next.cons = pool.cons → pool.cleansAt call = none →
      (conn ∉ next.cons ↔ ∃ now, pool.cleansAt call = some now ∧ conn ∉ pool.survivors now) := by
    intro next same quiet
    rw [same, quiet]
    simp [inPool]
  cases call with
  | getConnection owner now =>
      rw [applyCall, allocated.notMem_getConnection_iff owner now inPool]
      simp [cleansAt]
  | release other now reply => exact kept _ rfl rfl
  | event event =>
      cases event with
      | openConnection db now dial =>
          change conn ∉ (pool.openConnection db now dial).1.cons ↔ _
          rw [openConnection_cons]
          exact guarded _ db now
      | begin db now dial reply =>
          change conn ∉ (pool.begin db now dial reply).cons ↔ _
          rw [(begin_sameLinks pool db now dial reply).cons, openConnection_cons]
          exact guarded _ db now
      | connect db timedOut now dial =>
          change conn ∉ (pool.connect db timedOut now dial).1.cons ↔ _
          rw [connect_cons]
          exact guarded _ db now
      | count now =>
          change conn ∉ (pool.cleanup now).cons ↔ _
          rw [cleanup_cons]
          simp [cleansAt]
      | close db now reply =>
          have same : (pool.close db now reply).cons = pool.cons := by
            simp only [Pool.close]
            split
            · rfl
            · split <;> rfl
          exact kept _ same rfl
      | dropHeld lock now =>
          have same : (pool.apply (.dropHeld lock now)).cons = pool.cons := by
            simp only [Pool.apply]
            split
            · exact (dropLock_sameLinks _ lock now).cons
            · rfl
          exact kept _ same rfl
      | keepLock db lock now =>
          have same : (pool.apply (.keepLock db lock now)).cons = pool.cons := by
            simp only [Pool.apply]
            split
            · exact ((copyLock_sameLinks pool lock).trans (setLock_sameLinks _ _ _ _)).cons
            · rfl
          exact kept _ same rfl
      | endTransaction db now reply =>
          exact kept _ (transaction_sameLinks pool db now reply).1.cons rfl
      | began db now reply => exact kept _ (transaction_sameLinks pool db now reply).2.1.cons rfl
      | ended db now reply => exact kept _ (transaction_sameLinks pool db now reply).2.2.cons rfl

theorem Allocated.deletesUnused_iff {pool : Pool} (allocated : pool.Allocated)
    (call : PoolCall) : pool.DeletesUnused call ↔ pool.CleanupSafe call := by
  constructor
  · intro unused now cleans conn later notReserved outside recent
    have inPool := List.mem_of_mem_drop later
    have dead : (pool.mem conn).isDead now = true :=
      (Connection.isDead_iff _ now).mpr ⟨notReserved, outside, recent⟩
    have deleted := (allocated.notMem_applyCall_iff call inPool).mpr
      ⟨now, cleans, (allocated.notMem_survivors_iff now inPool).mpr ⟨later, dead⟩⟩
    obtain ⟨clock, same, idle⟩ := unused conn inPool deleted
    rw [cleans] at same
    obtain rfl := Option.some.inj same
    exact ⟨idle.running, idle.old, idle.unlocked, idle.free⟩
  · intro safe conn inPool deleted
    obtain ⟨now, cleans, removed⟩ := (allocated.notMem_applyCall_iff call inPool).mp deleted
    obtain ⟨later, dead⟩ := (allocated.notMem_survivors_iff now inPool).mp removed
    obtain ⟨notReserved, outside, recent⟩ := (Connection.isDead_iff _ now).mp dead
    obtain ⟨running, old, unlocked, free⟩ := safe now cleans conn later notReserved outside recent
    exact ⟨now, cleans, running, outside, old, unlocked, free⟩

theorem Allocated.applyCall {pool : Pool} (allocated : pool.Allocated) (call : PoolCall) :
    (pool.applyCall call).Allocated := by
  cases call with
  | getConnection owner now => exact allocated.getConnection owner now
  | release conn now reply => exact ⟨allocated.nodup, allocated.below⟩
  | event event => exact allocated.apply event

/-- All calls of a run delete only connections that are out of use exactly when all
clean-ups of the run find those that they look at out of use. -/
theorem cleanup_deletes_unused_iff (maxConn : Nat) (calls : List PoolCall) :
    Runs.Meets applyCall DeletesUnused (initial maxConn) calls ↔
      Runs.Meets applyCall CleanupSafe (initial maxConn) calls := by
  apply Runs.meets_congr Allocated
  · intro pool call allocated
    exact allocated.applyCall call
  · intro pool call allocated
    exact allocated.deletesUnused_iff call
  · exact initial_allocated maxConn

theorem sixth_connection_deleted :
    let calls : List PoolCall := [.event (.openConnection 0 100 answering),
      .event (.openConnection 1 100 answering), .event (.openConnection 2 100 answering),
      .event (.openConnection 3 100 answering), .event (.openConnection 4 100 answering),
      .event (.openConnection 5 100 answering), .event (.close 5 100 true)]
    let pool := Runs.run applyCall (initial 6) calls
    5 ∈ pool.cons ∧ 5 ∉ (pool.applyCall (.event (.count 100))).cons ∧ pool.Locked 5 ∧
      (pool.mem 5).lastModificationDate = 100 := by
  intro calls pool
  exact ⟨by decide, by decide, ⟨5, by decide⟩, by decide⟩

end Pool

end PqAsync
