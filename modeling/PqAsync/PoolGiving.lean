import PqAsync.PoolPresence

/-!
When the connection of a living lock keeps running, is not deleted and is given to nobody else.
-/

namespace PqAsync

namespace Pool

structure LocksHold (pool : Pool) : Prop where
  running : ∀ lock, pool.Living lock → (pool.mem (pool.locks lock).conn).running ≠ 0
  single : ∀ lock other, pool.Living lock → pool.Living other →
    (pool.locks lock).conn = (pool.locks other).conn → lock = other

theorem LocksHold.of_sameLocks {pool next : Pool} (holds : pool.LocksHold)
    (same : pool.SameLocks next)
    (running : ∀ conn, pool.Locked conn → (pool.mem conn).running ≠ 0 →
      (next.mem conn).running ≠ 0) : next.LocksHold := by
  constructor
  · intro lock living
    rw [same.living] at living
    rw [same.locks]
    exact running _ ⟨lock, living, rfl⟩ (holds.running lock living)
  · intro lock other living otherLiving
    rw [same.living] at living otherLiving
    rw [same.locks]
    exact holds.single lock other living otherLiving

theorem LocksHold.locked_running {pool : Pool} (holds : pool.LocksHold) {conn : Nat}
    (locked : pool.Locked conn) : (pool.mem conn).running ≠ 0 := by
  obtain ⟨lock, living, rfl⟩ := locked
  exact holds.running lock living

theorem LocksHold.not_stolen {pool : Pool} (holds : pool.LocksHold) {conn : Nat}
    (locked : pool.Locked conn) : (pool.mem conn).canBeStolen = false := by
  have running := holds.locked_running locked
  simp [Connection.canBeStolen, running]

theorem dropLock_running (pool : Pool) (lock : Nat) (now : Int) (conn : Nat) :
    ((pool.dropLock lock now).mem conn).running =
      if (pool.locks lock).uses = 1 ∧ conn = (pool.locks lock).conn then 0
      else (pool.mem conn).running := by
  simp only [dropLock]
  by_cases last : (pool.locks lock).uses = 1
  · simp only [last, ↓reduceIte, true_and]
    exact modify_running _ _ _ _
  · simp only [last, ↓reduceIte, false_and]

theorem LocksHold.dropLock {pool : Pool} (holds : pool.LocksHold) (lock : Nat) (now : Int) :
    (pool.dropLock lock now).LocksHold := by
  constructor
  · intro other living
    have before := dropLock_living living
    rw [dropLock_conn, dropLock_running, if_neg]
    · exact holds.running other before
    · rintro ⟨last, same⟩
      have dropped : pool.Living lock := by
        unfold Living
        omega
      obtain rfl := holds.single other lock before dropped same
      unfold Living at living
      rw [dropLock_uses, if_pos rfl] at living
      omega
  · intro first second firstLiving secondLiving same
    rw [dropLock_conn, dropLock_conn] at same
    exact holds.single first second (dropLock_living firstLiving) (dropLock_living secondLiving)
      same

theorem LocksHold.setLock {pool : Pool} (holds : pool.LocksHold) (db : Nat)
    (lock : Option Nat) (now : Int) : (pool.setLock db lock now).LocksHold := by
  have moved : ({ pool with
      dbs := Function.update pool.dbs db { pool.dbs db with lock } } : Pool).LocksHold :=
    ⟨holds.running, holds.single⟩
  unfold Pool.setLock
  dsimp only
  split
  · exact moved.dropLock _ now
  · exact moved

theorem LocksHold.copyLock {pool : Pool} (holds : pool.LocksHold) {lock : Nat}
    (alive : pool.Living lock) : (pool.copyLock lock).LocksHold := by
  constructor
  · intro other living
    rw [copyLock_conn]
    exact holds.running other (copyLock_living alive living)
  · intro first second firstLiving secondLiving same
    rw [copyLock_conn, copyLock_conn] at same
    exact holds.single first second (copyLock_living alive firstLiving)
      (copyLock_living alive secondLiving) same

theorem running_locked {pool : Pool} {conn : Nat} (reserved : (pool.mem conn).running = 2)
    (now : Int) (other : Nat) :
    ((pool.locked conn now).mem other).running =
      if other = conn then 1 else (pool.mem other).running := by
  have started := modify_running pool conn (·.startWork now) other
  simpa [locked, Connection.startWork, reserved] using started

theorem LocksHold.locked_iff {pool : Pool} (holds : pool.LocksHold) (counted : pool.Counted)
    {conn : Nat} (reserved : (pool.mem conn).running = 2) (now : Int) :
    (pool.locked conn now).LocksHold ↔ ¬ pool.Locked conn := by
  constructor
  · rintro after ⟨lock, living, own⟩
    have below := counted.below living
    have same := after.single lock pool.nextLock ((living_locked pool conn now lock).mpr (Or.inr living))
      ((living_locked pool conn now _).mpr (Or.inl rfl))
      (by rw [locked_conn, locked_conn, if_pos rfl, if_neg (by omega), own])
    omega
  · intro free
    constructor
    · intro lock living
      rw [running_locked reserved]
      split
      · omega
      · next other =>
        rw [locked_conn] at other ⊢
        split at other
        · exact absurd rfl other
        · next different =>
          rw [if_neg different]
          exact holds.running lock
            (((living_locked pool conn now lock).mp living).resolve_left different)
    · intro first second firstLiving secondLiving same
      rw [locked_conn, locked_conn] at same
      rw [living_locked] at firstLiving secondLiving
      split at same
      · next isFirst =>
        split at same
        · next isSecond => rw [isFirst, isSecond]
        · next notSecond =>
          exact absurd ⟨second, secondLiving.resolve_left notSecond, same.symm⟩ free
      · next notFirst =>
        split at same
        · exact absurd ⟨first, firstLiving.resolve_left notFirst, same⟩ free
        · next notSecond =>
          exact holds.single first second (firstLiving.resolve_left notFirst)
            (secondLiving.resolve_left notSecond) same

theorem LocksHold.dropped_iff {pool : Pool} (holds : pool.LocksHold) (counted : pool.Counted)
    {conn : Nat} (reserved : (pool.mem conn).running = 2) (now : Int) (next : Pool)
    (same : (pool.locked conn now).SameLocks next)
    (running : ∀ other, (next.mem other).running = ((pool.locked conn now).mem other).running) :
    (next.dropLock pool.nextLock now).LocksHold ↔ ¬ pool.Locked conn := by
  have uses : (next.locks pool.nextLock).uses = 1 := by
    rw [same.locks]
    simp [locked]
  have own : (next.locks pool.nextLock).conn = conn := by
    rw [same.locks, locked_conn, if_pos rfl]
  constructor
  · rintro after ⟨lock, living, lockConn⟩
    have below := counted.below living
    have alive : (next.dropLock pool.nextLock now).Living lock := by
      unfold Living
      rw [dropLock_uses, if_neg (by omega), same.locks]
      exact (living_locked pool conn now lock).mpr (Or.inr living)
    have stopped := after.running lock alive
    rw [dropLock_conn, dropLock_running, if_pos] at stopped
    · exact stopped rfl
    · refine ⟨uses, ?_⟩
      rw [own, same.locks, locked_conn, if_neg (by omega), lockConn]
  · intro free
    have after := (holds.locked_iff counted reserved now).mpr free
    have opened : next.LocksHold :=
      after.of_sameLocks same (fun other _ kept => by rwa [running])
    exact opened.dropLock _ now

theorem LocksHold.reserved {pool : Pool} (holds : pool.LocksHold) (known : pool.Known)
    {db conn : Nat} {now : Int} (result : (pool.assign db now).2 = some conn) :
    (pool.reserved db conn now).LocksHold := by
  have assigned := reserved_assigned result
  apply holds.of_sameLocks assigned.locks
  intro other locked running
  by_cases same : other = conn
  · subst other
    rw [reserved_running]
    omega
  · rwa [assigned.running other (known.locked other locked) (by simpa using same)]

theorem LocksHold.assign {pool : Pool} (holds : pool.LocksHold) (known : pool.Known)
    {db : Nat} {now : Int} (refused : (pool.assign db now).2 = none) :
    (pool.assign db now).1.LocksHold := by
  have assigned := pool.assign_assigned db now
  rw [refused] at assigned
  apply holds.of_sameLocks assigned.locks
  intro other locked running
  rwa [assigned.running other (known.locked other locked) (by simp)]

/-- The connection that `open_connection()` and `_connect` go on with has no living lock. -/
def AssignsFree (pool : Pool) (db : Nat) (now : Int) : Prop :=
  ∀ conn, (pool.assign db now).2 = some conn → ¬ pool.Locked conn

theorem LocksHold.openConnection_iff {pool : Pool} (holds : pool.LocksHold)
    (counted : pool.Counted) (known : pool.Known) {db : Nat}
    (unlocked : (pool.dbs db).lock = none) (now : Int) (dial : Dial) :
    (pool.openConnection db now dial).1.LocksHold ↔ pool.AssignsFree db now := by
  unfold AssignsFree
  obtain ⟨refused, step⟩ | ⟨conn, result, step⟩ := openConnection_cases unlocked now dial
  · rw [step, refused]
    exact iff_of_true (holds.assign known refused) (by simp)
  · have assigned := reserved_assigned result
    have ready := holds.reserved known result
    have ready_counted := assigned.locks.counted counted
    have running := pool.reserved_running db conn now
    have exact_ := ready.locked_iff ready_counted running now
    have opened_same := openOn_sameLocks ((pool.reserved db conn now).locked conn now) conn now dial
    have opened_running := openOn_running ((pool.reserved db conn now).locked conn now) conn now dial
    simp only [result, Option.some.injEq, forall_eq']
    rw [← assigned.locks.locked]
    obtain ⟨_, opened⟩ | ⟨_, failed⟩ := step
    · rw [opened, ← exact_]
      constructor
      · intro after
        exact after.of_sameLocks opened_same.symm
          (fun other _ kept => by rwa [opened_running] at kept)
      · intro after
        exact after.of_sameLocks opened_same (fun other _ kept => by rwa [opened_running])
    · rw [failed]
      exact ready.dropped_iff ready_counted running now _ opened_same opened_running

theorem assign_result_of_free {pool : Pool} {db : Nat} (free : (pool.dbs db).conn = none)
    (now : Int) : (pool.assign db now).2 = (pool.getConnection db now).2 := by
  simp only [assign, free]
  split
  next result => rw [result]
  next result => rw [result]

/-- When the clean-up leaves room for another connection, the first one that is not locked by
a database has no living lock. -/
def ReuseSafe (pool : Pool) (now : Int) : Prop :=
  let cons := pool.survivors now
  cons.length < pool.maxConn →
    ∀ conn, (cons.find? fun conn => (pool.mem conn).res = 0) = some conn → ¬ pool.Locked conn

theorem LocksHold.getConnection_iff {pool : Pool} (holds : pool.LocksHold) (known : pool.Known)
    (owner : Nat) (now : Int) :
    (∀ conn, (pool.getConnection owner now).2 = some conn → ¬ pool.Locked conn) ↔
      pool.ReuseSafe now := by
  obtain ⟨mem, nextId, maxConn⟩ := pool.cleanup_frame now
  have cons := pool.cleanup_cons now
  have new : ¬ pool.Locked pool.nextId := by
    intro locked
    exact Nat.lt_irrefl _ (known.locked _ locked)
  unfold ReuseSafe
  dsimp only
  rw [← cons, ← maxConn]
  obtain ⟨empty, step⟩ | ⟨conn, found, room, _, step⟩ | ⟨_, _, reserved, step⟩ |
    ⟨_, full, step⟩ := pool.getConnection_cases owner now
  · rw [step]
    refine iff_of_true ?_ ?_
    · rintro _ ⟨⟩
      rw [nextId]
      exact new
    · rw [empty]
      simp
  · rw [mem] at found
    rw [step, found]
    constructor
    · intro free _
      exact free
    · intro free
      exact free room
  · rw [step]
    refine iff_of_true ?_ ?_
    · rintro _ ⟨⟩
      rw [nextId]
      exact new
    · intro _ conn found
      rw [← mem] at found
      have free := List.find?_some found
      exact absurd (by simpa using free) (reserved conn (List.mem_of_find?_eq_some found))
  · rw [step]
    refine iff_of_true ?_ (fun room => by omega)
    obtain ⟨stolen, _, idle, taken⟩ | ⟨_, refused⟩ := (pool.cleanup now).steal_cases owner now
    · rw [taken]
      rintro _ ⟨⟩ locked
      rw [mem, holds.not_stolen locked] at idle
      cases idle
    · rw [refused]
      rintro _ ⟨⟩

/-- The connection that `_get_connection` hands out in the course of an event. -/
def handed (pool : Pool) : PoolEvent → Option Nat
  | .openConnection db now _ =>
      if (pool.dbs db).lock = none ∧ (pool.dbs db).conn = none then
        (pool.getConnection db now).2
      else none
  | .begin db now _ _ =>
      if (pool.dbs db).lock = none ∧ (pool.dbs db).conn = none then
        (pool.getConnection db now).2
      else none
  | .connect db timedOut now _ =>
      if timedOut = false ∧ (pool.dbs db).conn = none then (pool.getConnection db now).2
      else none
  | _ => none

def NeverGiven (pool : Pool) (event : PoolEvent) : Prop :=
  ∀ conn, pool.handed event = some conn → ¬ pool.Locked conn

def AssignSafely (pool : Pool) (db : Nat) (now : Int) : Prop :=
  (∀ conn, (pool.dbs db).conn = some conn → ¬ pool.Locked conn) ∧
    ((pool.dbs db).conn = none → pool.ReuseSafe now)

/-- The steps that respect the living locks: no second lock is taken on a connection that has
one, no connection that has one is reused, and none is released. -/
def LockSafe (pool : Pool) : PoolEvent → Prop
  | .openConnection db now _ => (pool.dbs db).lock = none → pool.AssignSafely db now
  | .begin db now _ _ => (pool.dbs db).lock = none → pool.AssignSafely db now
  | .connect db timedOut now dial => timedOut = false →
      (∀ conn, (pool.dbs db).conn = some conn → (pool.mem conn).opens dial = true →
        ¬ pool.Locked conn) ∧
      ((pool.dbs db).conn = none → pool.ReuseSafe now)
  | .close db _ reply => ∀ conn, (pool.dbs db).conn = some conn →
      ((pool.mem conn).isInTransaction = true → reply = true) → ¬ pool.Locked conn
  | _ => True

theorem LocksHold.assignsFree_iff {pool : Pool} (holds : pool.LocksHold) (known : pool.Known)
    (db : Nat) (now : Int) : pool.AssignsFree db now ↔ pool.AssignSafely db now := by
  unfold AssignsFree AssignSafely
  cases own : (pool.dbs db).conn with
  | some conn =>
      rw [assign_of_own own]
      simp
  | none =>
      rw [assign_result_of_free own, holds.getConnection_iff known]
      simp

theorem LocksHold.hold {result : Pool × Option Nat} (holds : result.1.LocksHold) :
    (Pool.hold result).LocksHold := ⟨holds.running, holds.single⟩

theorem LocksHold.of_hold {result : Pool × Option Nat} (holds : (Pool.hold result).LocksHold) :
    result.1.LocksHold := ⟨holds.running, holds.single⟩

theorem LocksHold.openConnection_safe_iff {pool : Pool} (holds : pool.LocksHold)
    (counted : pool.Counted) (known : pool.Known) (db : Nat) (now : Int) (dial : Dial) :
    (pool.openConnection db now dial).1.LocksHold ↔
      ((pool.dbs db).lock = none → pool.AssignSafely db now) := by
  cases locked : (pool.dbs db).lock with
  | some lock =>
      simp only [Pool.openConnection, locked]
      exact iff_of_true (holds.copyLock (counted.lock_living locked)) (by simp)
  | none =>
      rw [holds.openConnection_iff counted known locked, holds.assignsFree_iff known]
      simp

theorem LocksHold.connect_iff {pool : Pool} (holds : pool.LocksHold) (counted : pool.Counted)
    (known : pool.Known) (db : Nat) (now : Int) (dial : Dial) :
    (pool.connect db false now dial).1.LocksHold ↔
      ∀ conn, (pool.assign db now).2 = some conn →
        ((pool.reserved db conn now).mem conn).opens dial = true → ¬ pool.Locked conn := by
  obtain ⟨refused, step⟩ | ⟨conn, result, step⟩ := pool.connect_cases db now dial
  · rw [step, refused]
    exact iff_of_true (holds.assign known refused) (by simp)
  · have assigned := reserved_assigned result
    have opened_same := openOn_sameLocks (pool.reserved db conn now) conn now dial
    have opened_running := openOn_running (pool.reserved db conn now) conn now dial
    have opens : ((pool.reserved db conn now).openOn conn now dial).2 =
        ((pool.reserved db conn now).mem conn).opens dial :=
      Connection.openConnection_opens _ _ _
    have ready : ((pool.reserved db conn now).openOn conn now dial).1.LocksHold :=
      (holds.reserved known result).of_sameLocks opened_same
        (fun other _ kept => by rwa [opened_running])
    simp only [result, Option.some.injEq, forall_eq']
    dsimp only at step
    rw [opens] at step
    obtain ⟨failed, thrown⟩ | ⟨isOpen, opened⟩ := step
    · rw [thrown, failed]
      exact iff_of_true ready (by simp)
    · rw [opened, isOpen]
      have running : ((((pool.reserved db conn now).openOn conn now dial).1).mem
          conn).running = 2 := by
        rw [opened_running]
        exact pool.reserved_running db conn now
      have same := assigned.locks.trans opened_same
      rw [ready.locked_iff (same.counted counted) running now, same.locked]
      simp

theorem reserved_opens_of_own {pool : Pool} {db conn : Nat}
    (own : (pool.dbs db).conn = some conn) (now : Int) (dial : Dial) :
    ((pool.reserved db conn now).mem conn).opens dial = (pool.mem conn).opens dial := by
  simp [reserved, assign_of_own own, modify, Connection.opens, Connection.reserve,
    Connection.touch]

theorem LocksHold.close_iff {pool : Pool} (holds : pool.LocksHold) (db : Nat) (now : Int)
    (reply : Bool) :
    (pool.close db now reply).LocksHold ↔ pool.LockSafe (.close db now reply) := by
  cases own : (pool.dbs db).conn with
  | none => simp [Pool.close, LockSafe, own, holds]
  | some conn =>
      have released : (pool.close db now reply).LocksHold ↔
          (pool.modify conn fun conn => (conn.release now reply).1).LocksHold := by
        simp only [Pool.close, own]
        split
        · exact ⟨fun after => ⟨after.running, after.single⟩,
            fun after => ⟨after.running, after.single⟩⟩
        · exact Iff.rfl
      rw [released]
      simp only [LockSafe, own, Option.some.injEq, forall_eq']
      have running := modify_running pool conn fun conn => (conn.release now reply).1
      have same := modify_sameLocks pool conn fun conn => (conn.release now reply).1
      constructor
      · rintro after rolledBack ⟨lock, living, rfl⟩
        have stopped := after.running lock living
        apply stopped
        change ((pool.modify _ _).mem (pool.locks lock).conn).running = 0
        rw [running, if_pos rfl, Connection.release_running, if_neg]
        cases isOpen : (pool.mem (pool.locks lock).conn).isInTransaction <;> simp_all
      · intro free
        apply holds.of_sameLocks same
        intro other locked kept
        rw [running]
        split
        next own =>
          subst other
          rw [Connection.release_running, if_pos]
          · exact kept
          · by_contra finished
            refine free ?_ locked
            intro isOpen
            simpa [isOpen] using finished
        next => exact kept

theorem LocksHold.modify {pool : Pool} (holds : pool.LocksHold) (conn : Nat)
    (change : Connection → Connection)
    (keeps : (change (pool.mem conn)).running = (pool.mem conn).running) :
    (pool.modify conn change).LocksHold :=
  holds.of_sameLocks (modify_sameLocks _ _ _)
    (fun other _ kept => by rwa [modify_keeps_running _ _ _ keeps])

theorem LocksHold.begin_iff {pool : Pool} (holds : pool.LocksHold) (counted : pool.Counted)
    (known : pool.Known) (db : Nat) (now : Int) (dial : Dial) (reply : Bool) :
    (pool.begin db now dial reply).LocksHold ↔
      ((pool.dbs db).lock = none → pool.AssignSafely db now) := by
  have opens := holds.openConnection_safe_iff counted known db now dial
  have kept : (pool.openConnection db now dial).1.LocksHold →
      (pool.begin db now dial reply).LocksHold := by
    intro opened
    obtain ⟨_, step⟩ | ⟨lock, _, step⟩ := pool.begin_cases db now dial reply
    · rwa [step]
    · have stored := opened.setLock db (some lock) now
      obtain step | ⟨conn, step⟩ := step
      · rwa [step]
      · rw [step]
        exact stored.modify _ _ (by simp)
  have back : (pool.dbs db).lock = none → (pool.begin db now dial reply).LocksHold →
      (pool.openConnection db now dial).1.LocksHold := by
    intro unlocked after
    have free := openConnection_unlocked unlocked now dial
    obtain ⟨_, step⟩ | ⟨lock, _, step⟩ := pool.begin_cases db now dial reply
    · rwa [step] at after
    · generalize (pool.openConnection db now dial).1 = next at free step ⊢
      have stored : next.setLock db (some lock) now =
          { next with dbs := Function.update next.dbs db { next.dbs db with lock } } := by
        simp only [Pool.setLock, free]
      rw [stored] at step
      obtain step | ⟨conn, step⟩ := step
      · rw [step] at after
        exact ⟨after.running, after.single⟩
      · rw [step] at after
        refine ⟨fun other living => ?_, after.single⟩
        have running := after.running other living
        rwa [modify_keeps_running _ _ _ (by simp)] at running
  rw [← opens]
  constructor
  · intro after
    rw [opens]
    intro unlocked
    exact opens.mp (back unlocked after) unlocked
  · exact kept

theorem LocksHold.neverGiven {pool : Pool} (holds : pool.LocksHold) (known : pool.Known)
    {condition : Prop} [Decidable condition] {db : Nat} {now : Int}
    (safe : condition → pool.AssignSafely db now) :
    ∀ conn, (if condition ∧ (pool.dbs db).conn = none then (pool.getConnection db now).2
      else none) = some conn → ¬ pool.Locked conn := by
  intro conn result
  split at result
  next both =>
    have reuse := (safe both.1).2 both.2
    exact (holds.getConnection_iff known db now).mpr reuse conn result
  next => cases result

theorem LocksHold.connect_safe_iff {pool : Pool} (holds : pool.LocksHold)
    (counted : pool.Counted) (known : pool.Known) (db : Nat) (now : Int) (dial : Dial) :
    (pool.apply (.connect db false now dial)).LocksHold ∧
        pool.NeverGiven (.connect db false now dial) ↔
      pool.LockSafe (.connect db false now dial) := by
  have connects := holds.connect_iff counted known db now dial
  have held : (pool.apply (.connect db false now dial)).LocksHold ↔
      (pool.connect db false now dial).1.LocksHold := ⟨LocksHold.of_hold, LocksHold.hold⟩
  rw [held, connects]
  simp only [NeverGiven, handed, LockSafe, true_and, forall_const]
  cases own : (pool.dbs db).conn with
  | some conn =>
      simp only [assign_of_own own, Option.some.injEq, forall_eq', reserved_opens_of_own own]
      simp
  | none =>
      have given := holds.getConnection_iff known db now
      simp only [assign_result_of_free own, ↓reduceIte, forall_const]
      rw [given]
      constructor
      · rintro ⟨_, reuse⟩
        exact ⟨by simp, reuse⟩
      · rintro ⟨_, reuse⟩
        exact ⟨fun conn result _ => given.mpr reuse conn result, reuse⟩

theorem LocksHold.transaction {pool : Pool} (holds : pool.LocksHold) (db : Nat) (now : Int)
    (reply : Bool) : (pool.endTransaction db now reply).LocksHold ∧
      (pool.began db now reply).LocksHold ∧ (pool.ended db now reply).LocksHold := by
  apply transaction_induction
  · intro next conn change keeps holds
    exact holds.modify conn change (keeps _).2
  · intro next db now holds
    exact holds.setLock db none now
  · exact holds

theorem LocksHold.apply_iff {pool : Pool} (holds : pool.LocksHold) (counted : pool.Counted)
    (known : pool.Known) (event : PoolEvent) :
    (pool.apply event).LocksHold ∧ pool.NeverGiven event ↔ pool.LockSafe event := by
  cases event with
  | openConnection db now dial =>
      have opens := holds.openConnection_safe_iff counted known db now dial
      constructor
      · rintro ⟨after, _⟩
        exact opens.mp after.of_hold
      · intro safe
        exact ⟨(opens.mpr safe).hold, holds.neverGiven known safe⟩
  | begin db now dial reply =>
      have begins := holds.begin_iff counted known db now dial reply
      constructor
      · rintro ⟨after, _⟩
        exact begins.mp after
      · intro safe
        exact ⟨begins.mpr safe, holds.neverGiven known safe⟩
  | connect db timedOut now dial =>
      cases timedOut with
      | true =>
          have same : (pool.apply (.connect db true now dial)).LocksHold :=
            LocksHold.hold (show (pool.connect db true now dial).1.LocksHold from holds)
          refine iff_of_true ⟨same, ?_⟩ ?_
          · rintro conn ⟨⟩
          · rintro ⟨⟩
      | false => exact holds.connect_safe_iff counted known db now dial
  | close db now reply =>
      have closes := holds.close_iff db now reply
      constructor
      · rintro ⟨after, _⟩
        exact closes.mp after
      · intro safe
        exact ⟨closes.mpr safe, by rintro conn ⟨⟩⟩
  | count now =>
      refine iff_of_true ⟨?_, by rintro conn ⟨⟩⟩ trivial
      apply holds.of_sameLocks (pool.cleanup_sameLocks now)
      intro conn _ running
      rwa [(pool.cleanup_frame now).1]
  | dropHeld lock now =>
      refine iff_of_true ⟨?_, by rintro conn ⟨⟩⟩ trivial
      simp only [Pool.apply]
      split
      · have fewer : ({ pool with held := pool.held.erase lock } : Pool).LocksHold :=
          ⟨holds.running, holds.single⟩
        exact fewer.dropLock lock now
      · exact holds
  | keepLock db lock now =>
      refine iff_of_true ⟨?_, by rintro conn ⟨⟩⟩ trivial
      simp only [Pool.apply]
      split
      next held => exact (holds.copyLock (counted.held_living held)).setLock db _ now
      next => exact holds
  | endTransaction db now reply =>
      exact iff_of_true ⟨(holds.transaction db now reply).1, by rintro conn ⟨⟩⟩ trivial
  | began db now reply =>
      exact iff_of_true ⟨(holds.transaction db now reply).2.1, by rintro conn ⟨⟩⟩ trivial
  | ended db now reply =>
      exact iff_of_true ⟨(holds.transaction db now reply).2.2, by rintro conn ⟨⟩⟩ trivial

/-- The connection of a living lock is there and running, and no second lock lives on it. -/
structure LocksStand (pool : Pool) : Prop extends pool.LocksHold where
  present : pool.LocksPresent

/-- The event hands out no connection with a living lock, and uses none that was deleted. -/
structure GivesSafely (pool : Pool) (event : PoolEvent) : Prop where
  given : pool.NeverGiven event
  uses : pool.UsesPresent event

/-- The steps that respect the living locks and use no deleted connection; where they clean up,
no connection with a living lock is taken for dead. -/
structure Respects (pool : Pool) (event : PoolEvent) : Prop where
  locks : pool.LockSafe event
  uses : pool.UsesPresent event
  cleans : pool.CleansUnlocked event

theorem LocksStand.apply_iff {pool : Pool} (stand : pool.LocksStand) (counted : pool.Counted)
    (known : pool.Known) (event : PoolEvent) :
    (pool.apply event).LocksStand ∧ pool.GivesSafely event ↔ pool.Respects event := by
  have holds := stand.toLocksHold.apply_iff counted known event
  constructor
  · rintro ⟨after, given, uses⟩
    exact ⟨holds.mp ⟨after.toLocksHold, given⟩, uses,
      (stand.present.apply_iff known.allocated counted uses).mp after.present⟩
  · rintro ⟨locks, uses, cleans⟩
    obtain ⟨after, given⟩ := holds.mpr locks
    exact ⟨⟨after, (stand.present.apply_iff known.allocated counted uses).mpr cleans⟩, given, uses⟩

theorem initial_locksStand (maxConn : Nat) : (initial maxConn).LocksStand := by
  have free : ∀ lock, ¬(initial maxConn).Living lock := fun lock => Nat.lt_irrefl 0
  refine ⟨⟨fun lock living => absurd living (free lock), fun lock _ living => absurd living (free lock)⟩, ?_⟩
  rintro conn ⟨lock, living, _⟩
  exact absurd living (free lock)

/-- In all states of a run the connection of a living lock is there, is running and has no
second lock, and no step gives it away or uses a deleted one, exactly if every step respects
the living locks. -/
theorem locked_never_given_iff (maxConn : Nat) (events : List PoolEvent) :
    (∀ reached, reached <+: events → (Runs.run apply (initial maxConn) reached).LocksStand) ∧
        Runs.Meets apply GivesSafely (initial maxConn) events ↔
      Runs.Meets apply Respects (initial maxConn) events := by
  have preserved : ∀ (pool : Pool) (event : PoolEvent), pool.Counted ∧ pool.Known →
      pool.LocksStand → pool.Respects event →
      (pool.apply event).Counted ∧ (pool.apply event).Known := by
    rintro pool event ⟨counted, known⟩ _ _
    exact ⟨counted.apply event, known.apply counted event⟩
  have exact_ : ∀ (pool : Pool) (event : PoolEvent), pool.Counted ∧ pool.Known →
      pool.LocksStand → ((pool.apply event).LocksStand ∧ pool.GivesSafely event ↔
        pool.Respects event) := by
    rintro pool event ⟨counted, known⟩ stand
    exact stand.apply_iff counted known event
  exact Runs.always_safe_iff_meets preserved exact_
    ⟨initial_counted maxConn, initial_known maxConn⟩ (initial_locksStand maxConn)

/-- The second lock of one database takes the connection away from the first when it is
dropped: it no longer runs, and another database gets it while the first lock lives. -/
theorem second_lock_stops_first :
    let events : List PoolEvent := [.openConnection 0 0 answering, .openConnection 0 0 answering,
      .dropHeld 1 0]
    let pool := Runs.run apply (initial 1) events
    pool.Locked 0 ∧ (pool.mem 0).running = 0 ∧ (pool.mem 0).canBeStolen = true ∧
      pool.handed (.openConnection 1 0 answering) = some 0 := by
  intro events pool
  exact ⟨⟨0, by decide⟩, by decide, by decide, by decide⟩

end Pool

end PqAsync
