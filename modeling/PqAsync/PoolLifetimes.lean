import PqAsync.PoolClose
import PqAsync.PoolIsolation

/-!
Runs in which databases are destroyed as well: a connection of the pool is free, or a database
that lives has it, or it is locked.
-/

namespace PqAsync

def Connection.Taken (conn : Connection) : Prop :=
  0 < conn.res ∨ 1 < conn.running ∨ conn.isInTransaction = true ∨ conn.owner ≠ none

theorem Connection.Released.not_taken {conn : Connection} (released : conn.Released) :
    ¬ conn.Taken := by
  rintro (reserved | running | inside | owned)
  · exact Int.not_lt.mpr released.unreserved reserved
  · rw [released.idle] at running
    exact Nat.not_lt_zero 1 running
  · rw [released.outside] at inside
    cases inside
  · exact owned released.unowned

theorem Connection.stopWork_taken {conn : Connection} {now : Int}
    (taken : (conn.stopWork now).Taken) : conn.Taken := by
  rcases taken with reserved | running | inside | owned
  · exact Or.inl reserved
  · exact absurd running (Nat.not_lt_zero 1)
  · exact Or.inr (Or.inr (Or.inl inside))
  · exact Or.inr (Or.inr (Or.inr owned))

theorem Connection.startWork_taken {conn : Connection} {now : Int}
    (taken : (conn.startWork now).Taken) : conn.Taken := by
  unfold startWork at taken
  split at taken
  · rcases taken with reserved | running | inside | owned
    · exact Or.inl reserved
    · exact absurd running (Nat.lt_irrefl 1)
    · exact Or.inr (Or.inr (Or.inl inside))
    · exact Or.inr (Or.inr (Or.inr owned))
  · exact taken

theorem Connection.lock_running {conn : Connection} (now : Int) (locks : conn.res = 0) :
    (conn.lock now).1.running = 0 := by
  simp [Connection.lock, locks, Connection.stopWork, Connection.touch]

theorem Holder.eq_empty {holder : Holder} (conn : holder.conn = none) (lock : holder.lock = none) :
    holder = { conn := none, lock := none } := by
  cases holder
  cases conn
  cases lock
  rfl

namespace Pool

def Held (pool : Pool) (conn : Nat) : Prop := ∃ db, (pool.dbs db).conn = some conn

structure Accounted (pool : Pool) : Prop where
  taken : ∀ conn ∈ pool.cons, (pool.mem conn).Taken → pool.Held conn
  used : ∀ conn, (pool.mem conn).running = 1 → pool.Locked conn
  unused : ∀ lock, pool.nextLock ≤ lock → (pool.locks lock).uses = 0

theorem SameLocks.used {pool next : Pool} (same : pool.SameLocks next)
    (used : ∀ conn, (pool.mem conn).running = 1 → pool.Locked conn)
    (stops : ∀ conn, (next.mem conn).running = 1 → (pool.mem conn).running = 1) (conn : Nat)
    (running : (next.mem conn).running = 1) : next.Locked conn :=
  (same.locked conn).mpr (used conn (stops conn running))

theorem SameLocks.unused {pool next : Pool} (same : pool.SameLocks next)
    (unused : ∀ lock, pool.nextLock ≤ lock → (pool.locks lock).uses = 0) (lock : Nat)
    (above : next.nextLock ≤ lock) : (next.locks lock).uses = 0 := by
  rw [same.locks]
  exact unused lock (same.nextLock ▸ above)

theorem Accounted.modify {pool : Pool} (accounted : pool.Accounted) (conn : Nat)
    (change : Connection → Connection)
    (frees : conn ∈ pool.cons → (change (pool.mem conn)).Taken → pool.Held conn)
    (stops : (change (pool.mem conn)).running = 1 → (pool.mem conn).running = 1) :
    (pool.modify conn change).Accounted := by
  have same := modify_sameLocks pool conn change
  refine ⟨?_, same.used accounted.used ?_, same.unused accounted.unused⟩
  · intro other inPool taken
    by_cases changed : other = conn
    · subst other
      exact frees inPool (by simpa [Pool.modify] using taken)
    · exact accounted.taken other inPool (by simpa [Pool.modify, changed] using taken)
  · intro other running
    rw [modify_running] at running
    split at running
    next changed => rw [changed]; exact stops running
    next => exact running

theorem Accounted.frees {pool : Pool} (accounted : pool.Accounted) (conn : Nat)
    (change : Connection → Connection) (less : (change (pool.mem conn)).Taken → (pool.mem conn).Taken)
    (stops : (change (pool.mem conn)).running = 1 → (pool.mem conn).running = 1) :
    (pool.modify conn change).Accounted :=
  accounted.modify conn change (fun inPool taken => accounted.taken conn inPool (less taken)) stops

theorem Accounted.openOn {pool : Pool} (accounted : pool.Accounted) (conn : Nat) (now : Int)
    (dial : Dial) : (pool.openOn conn now dial).1.Accounted := by
  refine accounted.frees conn (fun conn => (conn.openConnection now dial).1) ?_ (by simp)
  generalize pool.mem conn = opening
  intro taken
  unfold Connection.Taken at taken ⊢
  rw [Connection.openConnection_running, Connection.openConnection_owner] at taken
  simp only [Connection.openConnection, Connection.closeConnection, Connection.touch] at taken
  cases opened : opening.opened <;> cases broken : dial.broken <;>
    simp [opened, broken] at taken ⊢ <;> tauto

theorem Accounted.locked {pool : Pool} (accounted : pool.Accounted) (conn : Nat) (now : Int) :
    (pool.locked conn now).Accounted := by
  have living : ∀ other, pool.Locked other → (pool.locked conn now).Locked other := by
    rintro other ⟨lock, living, own⟩
    have old : lock ≠ pool.nextLock := by
      rintro rfl
      have none := accounted.unused pool.nextLock (Nat.le_refl _)
      unfold Living at living
      omega
    exact ⟨lock, (living_locked pool conn now lock).mpr (Or.inr living),
      by rw [locked_conn, if_neg old, own]⟩
  refine ⟨?_, ?_, ?_⟩
  · intro other inPool taken
    refine accounted.taken other inPool ?_
    by_cases changed : other = conn
    · subst other
      exact Connection.startWork_taken (by simpa [Pool.locked, Pool.modify] using taken)
    · simpa [Pool.locked, Pool.modify, changed] using taken
  · intro other running
    by_cases changed : other = conn
    · subst other
      exact ⟨pool.nextLock, (living_locked pool _ now _).mpr (Or.inl rfl),
        by rw [locked_conn, if_pos rfl]⟩
    · exact living other (accounted.used other
        (by simpa [Pool.locked, Pool.modify, changed] using running))
  · intro lock above
    have later : lock ≠ pool.nextLock := fun same => by subst same; exact absurd above (by
      simp [Pool.locked])
    have before := accounted.unused lock (Nat.le_of_succ_le above)
    simpa [Pool.locked, later] using before

theorem Accounted.dropLock {pool : Pool} (accounted : pool.Accounted) (lock : Nat) (now : Int) :
    (pool.dropLock lock now).Accounted := by
  have mem : ∀ conn, (pool.dropLock lock now).mem conn =
      if (pool.locks lock).uses = 1 ∧ conn = (pool.locks lock).conn then
        (pool.mem conn).stopWork now
      else pool.mem conn := by
    intro conn
    unfold Pool.dropLock
    by_cases last : (pool.locks lock).uses = 1
    · by_cases own : conn = (pool.locks lock).conn
      · subst own
        simp [last, Pool.modify]
      · simp [last, Pool.modify, own]
    · simp [last]
  refine ⟨?_, ?_, fun other above => ?_⟩
  · intro conn inPool taken
    have dbs := (pool.dropLock_frame lock now).2.1
    have inside : conn ∈ pool.cons := by
      rwa [(dropLock_sameLinks pool lock now).cons] at inPool
    rw [mem] at taken
    have before : (pool.mem conn).Taken := by
      split at taken
      · exact Connection.stopWork_taken taken
      · exact taken
    obtain ⟨db, held⟩ := accounted.taken conn inside before
    exact ⟨db, by rw [dbs]; exact held⟩
  · intro conn running
    rw [mem] at running
    split at running
    · cases running
    · rename_i others
      obtain ⟨found, living, own⟩ := accounted.used conn running
      refine ⟨found, ?_, by rw [dropLock_conn, own]⟩
      unfold Living at living ⊢
      rw [dropLock_uses]
      split
      · rename_i same
        subst same
        have more : (pool.locks found).uses ≠ 1 := fun last => others ⟨last, own.symm⟩
        omega
      · exact living
  · have next := (pool.dropLock_frame lock now).2.2
    exact dropLock_unused accounted.unused lock now other (next ▸ above)

theorem Accounted.setLock {pool : Pool} (accounted : pool.Accounted) (db : Nat)
    (lock : Option Nat) (now : Int) : (pool.setLock db lock now).Accounted := by
  have kept : ({ pool with dbs := Function.update pool.dbs db { pool.dbs db with lock } } :
      Pool).Accounted := by
    refine ⟨fun conn inPool taken => ?_, accounted.used, accounted.unused⟩
    obtain ⟨holder, held⟩ := accounted.taken conn inPool taken
    refine ⟨holder, ?_⟩
    by_cases same : holder = db
    · subst holder
      simpa using held
    · simpa [same] using held
  unfold Pool.setLock
  dsimp only
  split
  · exact kept.dropLock _ now
  · exact kept

theorem Accounted.copyLock {pool : Pool} (accounted : pool.Accounted) {lock : Nat}
    (alive : pool.Living lock) : (pool.copyLock lock).Accounted := by
  refine ⟨accounted.taken, ?_, ?_⟩
  · intro conn running
    obtain ⟨found, living, own⟩ := accounted.used conn running
    refine ⟨found, ?_, by rw [copyLock_conn, own]⟩
    by_cases same : found = lock
    · subst found
      simp [Living, Pool.copyLock]
    · simpa [Living, Pool.copyLock, same] using living
  · intro other above
    have before := accounted.unused other above
    have different : other ≠ lock := by
      rintro rfl
      unfold Living at alive
      omega
    simpa [Pool.copyLock, different] using before

theorem Owned.held_detachOwner {pool : Pool} (owned : pool.Owned) {conn other : Nat}
    (inPool : conn ∈ pool.cons) (different : other ≠ conn) (held : pool.Held other) :
    (pool.detachOwner conn).Held other := by
  obtain ⟨db, has⟩ := held
  refine ⟨db, ?_⟩
  unfold detachOwner
  split
  · rename_i owner owns
    have another : db ≠ owner := by
      rintro rfl
      rw [owned.held inPool owns] at has
      exact different (Option.some.inj has).symm
    simpa [setConn, another] using has
  · exact has

theorem Allocated.ne_of_mem_eraseIdx {pool : Pool} (allocated : pool.Allocated) {conn other i : Nat}
    (found : pool.cons[i]? = some conn) (left : other ∈ pool.cons.eraseIdx i) : other ≠ conn := by
  obtain ⟨j, different, here⟩ := List.mem_eraseIdx_iff_getElem?.mp left
  obtain ⟨bound, _⟩ := List.getElem?_eq_some_iff.mp here
  rintro rfl
  exact different ((List.getElem?_inj bound allocated.nodup).mp (here.trans found.symm))

theorem Accounted.cleanupAt {pool : Pool} (accounted : pool.Accounted) (owned : pool.Owned)
    (now : Int) (i : Nat) : (pool.cleanupAt now i).Accounted := by
  obtain ⟨same, _⟩ | ⟨conn, found, _, removed⟩ := pool.cleanupAt_cases now i
  · rw [same]
    exact accounted
  · have inPool := List.mem_of_getElem? found
    have locks := detachOwner_sameLocks pool conn
    rw [removed]
    refine ⟨?_, ?_, locks.unused accounted.unused⟩
    · intro other left taken
      have different := owned.allocated.ne_of_mem_eraseIdx found left
      simp only [detachOwner_mem] at taken
      exact owned.held_detachOwner inPool different
        (accounted.taken other (List.mem_of_mem_eraseIdx left) taken)
    · exact locks.used accounted.used (by simp [detachOwner_mem])

theorem Accounted.cleanup {pool : Pool} (accounted : pool.Accounted) (owned : pool.Owned)
    (now : Int) : (pool.cleanup now).Accounted ∧ (pool.cleanup now).Owned :=
  cleanup_induction (fun pool => pool.Accounted ∧ pool.Owned)
    (fun _ i both => ⟨both.1.cleanupAt both.2 now i, both.2.cleanupAt now i⟩) ⟨accounted, owned⟩

theorem accounted_setConn {pool : Pool} {db conn : Nat} (free : (pool.dbs db).conn = none)
    (others : ∀ other ∈ pool.cons, other ≠ conn → (pool.mem other).Taken → pool.Held other)
    (used : ∀ other, (pool.mem other).running = 1 → pool.Locked other)
    (unused : ∀ lock, pool.nextLock ≤ lock → (pool.locks lock).uses = 0) :
    (pool.setConn db (some conn)).Accounted := by
  refine ⟨?_, used, unused⟩
  intro other inPool taken
  by_cases same : other = conn
  · exact ⟨db, by simp [setConn, same]⟩
  · obtain ⟨holder, held⟩ := others other inPool same taken
    have another : holder ≠ db := by
      rintro rfl
      rw [free] at held
      cases held
    exact ⟨holder, by simpa [setConn, another] using held⟩

theorem Accounted.give {pool : Pool} (accounted : pool.Accounted) {db conn : Nat}
    (free : (pool.dbs db).conn = none) {given : Pool} (dbs : given.dbs = pool.dbs)
    (locks : given.locks = pool.locks) (nextLock : given.nextLock = pool.nextLock)
    (cons : ∀ other ∈ given.cons, other ≠ conn → other ∈ pool.cons)
    (mem : ∀ other, other ≠ conn → given.mem other = pool.mem other)
    (stops : (given.mem conn).running ≠ 1) : (given.setConn db (some conn)).Accounted := by
  apply accounted_setConn
  · rwa [dbs]
  · intro other inPool different taken
    rw [mem other different] at taken
    obtain ⟨holder, held⟩ := accounted.taken other (cons other inPool different) taken
    exact ⟨holder, by rw [dbs]; exact held⟩
  · intro other running
    have different : other ≠ conn := fun same => stops (same ▸ running)
    rw [mem other different] at running
    obtain ⟨lock, living, own⟩ := accounted.used other running
    exact ⟨lock, by unfold Living at living ⊢; rwa [locks], by rw [locks, own]⟩
  · intro lock above
    rw [locks]
    exact accounted.unused lock (nextLock ▸ above)

theorem Accounted.steal {pool : Pool} (accounted : pool.Accounted) (owned : pool.Owned) {db : Nat}
    (free : (pool.dbs db).conn = none) (now : Int) :
    (stored (pool.steal db now) db).Accounted := by
  obtain ⟨conn, inPool, _, stolen⟩ | ⟨_, refused⟩ := pool.steal_cases db now
  · have locks := detachOwner_sameLocks pool conn
    have given : ((pool.detachOwner conn).setConn db (some conn)).Accounted := by
      apply accounted_setConn
      · cases held : ((pool.detachOwner conn).dbs db).conn with
        | none => rfl
        | some other =>
            rw [detachOwner_conn_some held] at free
            cases free
      · intro other left different taken
        rw [detachOwner_cons] at left
        rw [detachOwner_mem] at taken
        exact owned.held_detachOwner inPool different (accounted.taken other left taken)
      · exact locks.used accounted.used (by simp [detachOwner_mem])
      · exact locks.unused accounted.unused
    have reserved := given.modify conn
      (fun conn => { conn with owner := some db }.reserve now)
      (fun _ _ => ⟨db, by simp [setConn]⟩) (by simp [Connection.reserve, Connection.touch])
    rw [stolen]
    refine ⟨?_, ?_, reserved.unused⟩
    · intro other left taken
      apply reserved.taken other left
      simpa [setOwner, Pool.modify, setConn, stored] using taken
    · intro other running
      apply reserved.used other
      simpa [setOwner, Pool.modify, setConn, stored] using running
  · rw [refused]
    exact (accounted.cleanup owned now).1

theorem Accounted.getConnection {pool : Pool} (accounted : pool.Accounted) (owned : pool.Owned)
    {db : Nat} (free : (pool.dbs db).conn = none) (now : Int) :
    (stored (pool.getConnection db now) db).Accounted := by
  obtain ⟨clean, cleanOwned⟩ := accounted.cleanup owned now
  have cleanFree := cleanup_conn_none free now
  have created : ∀ other ∈ (pool.cleanup now).cons ++ [(pool.cleanup now).nextId],
      other ≠ (pool.cleanup now).nextId → other ∈ (pool.cleanup now).cons := by
    intro other inPool different
    simpa [different] using inPool
  obtain ⟨_, step⟩ | ⟨conn, found, _, _, step⟩ | ⟨_, _, _, step⟩ | ⟨_, _, step⟩ :=
    pool.getConnection_cases db now
  · rw [step]
    refine clean.give cleanFree rfl rfl rfl created ?_ ?_
    · intro other different
      simp [create, lock, setOwner, Pool.modify, different]
    · simp [create, lock, setOwner, Pool.modify, Connection.lock, Connection.new,
        Connection.stopWork, Connection.touch]
  · have unlocked : ((pool.cleanup now).mem conn).res = 0 := by simpa using List.find?_some found
    rw [step]
    refine clean.give cleanFree rfl rfl rfl (fun _ inPool _ => inPool) ?_ ?_
    · intro other different
      simp [lock, setOwner, Pool.modify, different]
    · simp [lock, setOwner, Pool.modify, Connection.lock_running now unlocked]
  · rw [step]
    refine clean.give cleanFree rfl rfl rfl created ?_ ?_
    · intro other different
      simp [create, lock, Pool.modify, different]
    · simp [create, lock, Pool.modify, Connection.lock, Connection.new, Connection.stopWork,
        Connection.touch]
  · rw [step]
    exact clean.steal cleanOwned cleanFree now

theorem Accounted.assign {pool : Pool} (accounted : pool.Accounted) (owned : pool.Owned)
    (db : Nat) (now : Int) : (pool.assign db now).1.Accounted := by
  cases held : (pool.dbs db).conn with
  | some conn =>
      rw [assign_of_own held]
      exact accounted
  | none =>
      rw [assign_of_free held]
      exact accounted.getConnection owned held now

theorem Accounted.reserved {pool : Pool} (accounted : pool.Accounted) (owned : pool.Owned)
    {db conn : Nat} {now : Int} (result : (pool.assign db now).2 = some conn) :
    (pool.reserved db conn now).Accounted :=
  (accounted.assign owned db now).modify conn (·.reserve now) (fun _ _ => ⟨db, assign_conn result⟩)
    (by simp [Connection.reserve, Connection.touch])

theorem Accounted.opening {pool : Pool} (accounted : pool.Accounted) (owned : pool.Owned)
    (db : Nat) (now : Int) (dial : Dial) :
    ((pool.dbs db).lock = none → (pool.openConnection db now dial).1.Accounted) ∧
      (pool.connect db false now dial).1.Accounted := by
  have assigned := accounted.assign owned db now
  constructor
  · intro unlocked
    obtain ⟨_, step⟩ | ⟨conn, result, ⟨_, step⟩ | ⟨_, step⟩⟩ :=
      openConnection_cases unlocked now dial
    · rw [step]
      exact assigned
    · rw [step]
      exact ((accounted.reserved owned result).locked conn now).openOn conn now dial
    · rw [step]
      exact (((accounted.reserved owned result).locked conn now).openOn conn now dial).dropLock _ now
  · obtain ⟨_, step⟩ | ⟨conn, result, ⟨_, step⟩ | ⟨_, step⟩⟩ := pool.connect_cases db now dial
    · rw [step]
      exact assigned
    · rw [step]
      exact (accounted.reserved owned result).openOn conn now dial
    · rw [step]
      exact ((accounted.reserved owned result).openOn conn now dial).locked conn now

theorem Accounted.openConnection {pool : Pool} (accounted : pool.Accounted) (owned : pool.Owned)
    (counted : pool.Counted) (db : Nat) (now : Int) (dial : Dial) :
    (pool.openConnection db now dial).1.Accounted := by
  cases locked : (pool.dbs db).lock with
  | none => exact (accounted.opening owned db now dial).1 locked
  | some lock =>
      simp only [Pool.openConnection, locked]
      exact accounted.copyLock (counted.lock_living locked)

theorem Accounted.begin {pool : Pool} (accounted : pool.Accounted) (owned : pool.Owned)
    (counted : pool.Counted) (db : Nat) (now : Int) (dial : Dial) (reply : Bool) :
    (pool.begin db now dial reply).Accounted := by
  have opened := accounted.openConnection owned counted db now dial
  unfold Pool.begin
  generalize pool.openConnection db now dial = opening at opened ⊢
  obtain ⟨next, lock⟩ := opening
  cases lock with
  | none => exact opened
  | some lock =>
      have stored := opened.setLock db (some lock) now
      dsimp only
      split
      · exact stored
      · rename_i conn held
        exact stored.modify conn (fun conn => (conn.beginTransaction now dial reply).1)
          (fun _ _ => ⟨db, held⟩) (by simp)

theorem Accounted.transaction {pool : Pool} (accounted : pool.Accounted) (db : Nat) (now : Int)
    (reply : Bool) : (pool.endTransaction db now reply).Accounted ∧
      (pool.began db now reply).Accounted ∧ (pool.ended db now reply).Accounted := by
  have held {conn : Nat} (has : (pool.dbs db).conn = some conn) (change : Connection → Connection)
      (keeps : (change (pool.mem conn)).running = (pool.mem conn).running) :
      (pool.modify conn change).Accounted :=
    accounted.modify conn change (fun _ _ => ⟨db, has⟩) (by simp [keeps])
  refine ⟨?_, ?_, ?_⟩
  · unfold Pool.endTransaction
    split
    · exact accounted
    · rename_i conn has
      have changed := held has (fun conn => (conn.endTransaction now reply).1) (by simp)
      dsimp only
      split
      · exact changed.setLock db none now
      · exact changed
  · unfold Pool.began
    split
    · split
      · exact accounted
      · rename_i conn has
        exact held has (fun conn => { conn with isInTransaction := true }) rfl
    · exact accounted.setLock db none now
  · unfold Pool.ended
    split
    · exact accounted.setLock db none now
    · exact accounted
    · rename_i conn has
      exact (held has (fun conn => { conn.touch now with isInTransaction := false }) rfl).setLock
        db none now

theorem Accounted.close {pool : Pool} (accounted : pool.Accounted) (db : Nat) (now : Int)
    (reply : Bool) : (pool.close db now reply).Accounted := by
  unfold Pool.close
  split
  · exact accounted
  · rename_i conn held
    have stops : ((pool.mem conn).release now reply).1.running = 1 → (pool.mem conn).running = 1 := by
      rw [Connection.release_running]
      split
      · exact id
      · exact fun impossible => by cases impossible
    have left := accounted.modify conn (fun conn => (conn.release now reply).1)
      (fun _ _ => ⟨db, held⟩) stops
    dsimp only
    split
    next returned =>
      have free := (Connection.release_released returned).not_taken
      refine ⟨?_, left.used, left.unused⟩
      intro other inPool taken
      have different : other ≠ conn := by
        rintro rfl
        exact free (by simpa [setConn, Pool.modify] using taken)
      obtain ⟨holder, has⟩ := left.taken other inPool taken
      have another : holder ≠ db := by
        rintro rfl
        exact different (Option.some.inj (has.symm.trans held))
      exact ⟨holder, by simpa [setConn, another] using has⟩
    next => exact left

theorem Accounted.hold {result : Pool × Option Nat} (accounted : result.1.Accounted) :
    (Pool.hold result).Accounted :=
  ⟨accounted.taken, accounted.used, accounted.unused⟩

theorem Accounted.apply {pool : Pool} (accounted : pool.Accounted) (owned : pool.Owned)
    (counted : pool.Counted) (event : PoolEvent) : (pool.apply event).Accounted := by
  cases event with
  | openConnection db now dial => exact (accounted.openConnection owned counted db now dial).hold
  | connect db timedOut now dial =>
      cases timedOut with
      | true => exact @Accounted.hold (pool, none) accounted
      | false => exact (accounted.opening owned db now dial).2.hold
  | begin db now dial reply => exact accounted.begin owned counted db now dial reply
  | close db now reply => exact accounted.close db now reply
  | count now => exact (accounted.cleanup owned now).1
  | dropHeld lock now =>
      simp only [Pool.apply]
      split
      next =>
        have fewer : ({ pool with held := pool.held.erase lock } : Pool).Accounted :=
          ⟨accounted.taken, accounted.used, accounted.unused⟩
        exact fewer.dropLock lock now
      next => exact accounted
  | keepLock db lock now =>
      simp only [Pool.apply]
      split
      next held => exact (accounted.copyLock (counted.held_living held)).setLock db (some lock) now
      next => exact accounted
  | endTransaction db now reply => exact (accounted.transaction db now reply).1
  | began db now reply => exact (accounted.transaction db now reply).2.1
  | ended db now reply => exact (accounted.transaction db now reply).2.2

theorem initial_accounted (maxConn : Nat) : (initial maxConn).Accounted := by
  refine ⟨?_, ?_, fun _ _ => rfl⟩
  · intro conn inPool
    cases inPool
  · intro conn running
    cases running

theorem Accounted.released {pool : Pool} (accounted : pool.Accounted) {conn : Nat}
    (inPool : conn ∈ pool.cons) (unheld : ¬ pool.Held conn) (unlocked : ¬ pool.Locked conn) :
    (pool.mem conn).Released := by
  have free : ¬ (pool.mem conn).Taken := fun taken => unheld (accounted.taken conn inPool taken)
  have unused : ¬ (pool.mem conn).running = 1 := fun running =>
    unlocked (accounted.used conn running)
  simp only [Connection.Taken, not_or, Int.not_lt, Nat.not_lt, Bool.not_eq_true, not_not] at free
  obtain ⟨unreserved, running, outside, unowned⟩ := free
  exact ⟨unowned, unreserved, by omega, outside⟩

theorem setLock_own_lock (pool : Pool) (db : Nat) (lock : Option Nat) (now : Int) :
    ((pool.setLock db lock now).dbs db).lock = lock := by
  unfold setLock
  dsimp only
  split
  · rw [dropLock_dbs]
    simp
  · simp

theorem getConnection_refused {pool : Pool} {owner : Nat} {now : Int}
    (refused : (pool.getConnection owner now).2 = none) :
    pool.survivors now ≠ [] ∧
      ∀ conn ∈ pool.survivors now, (pool.mem conn).canBeStolen = false := by
  have notGranted : ¬ pool.Grants now := by
    rw [← getConnection_grants_iff pool owner now, not_not]
    exact refused
  simp only [Grants, not_or, not_exists, not_and, Bool.not_eq_true] at notGranted
  exact ⟨notGranted.1, notGranted.2.2⟩

end Pool

/-- What a `database_t` does to the pool, and its destruction. -/
inductive LifetimeEvent
  | call (event : PoolEvent)
  | destroy (db : Nat) (now : Int) (reply : Bool)
  deriving DecidableEq, Repr

structure Lifetimes where
  pool : Pool
  destroyed : List Nat
  terminated : Bool

namespace Lifetimes

def initial (maxConn : Nat) : Lifetimes :=
  { pool := .initial maxConn, destroyed := [], terminated := false }

def apply (state : Lifetimes) : LifetimeEvent → Lifetimes
  | .call event =>
      if state.terminated ∨ ∃ db ∈ event.actor, db ∈ state.destroyed then state
      else { state with pool := state.pool.apply event }
  | .destroy db now reply =>
      if state.terminated ∨ db ∈ state.destroyed then state
      else if state.pool.closeReturns db now reply then
        { state with
          pool := (state.pool.close db now reply).setLock db none now
          destroyed := db :: state.destroyed }
      else { state with pool := state.pool.close db now reply, terminated := true }

structure Sound (state : Lifetimes) : Prop where
  accounted : state.pool.Accounted
  owned : state.pool.Owned
  counted : state.pool.Counted
  gone : ∀ db ∈ state.destroyed, state.pool.dbs db = { conn := none, lock := none }

theorem initial_sound (maxConn : Nat) : (initial maxConn).Sound where
  accounted := Pool.initial_accounted maxConn
  owned := Pool.initial_owned maxConn
  counted := Pool.initial_counted maxConn
  gone := by
    intro db destroyed
    cases destroyed

theorem Sound.still_gone {state : Lifetimes} (sound : state.Sound) (event : PoolEvent) {db : Nat}
    (destroyed : db ∈ state.destroyed) (other : event.actor ≠ some db) :
    (state.pool.apply event).dbs db = { conn := none, lock := none } := by
  have before := sound.gone db destroyed
  have lock := Pool.apply_lock state.pool other
  have conn : ((state.pool.apply event).dbs db).conn = none := by
    cases held : ((state.pool.apply event).dbs db).conn with
    | none => rfl
    | some conn =>
        have had := Pool.apply_conn_some state.pool other held
        rw [before] at had
        cases had
  rw [before] at lock
  exact Holder.eq_empty conn lock

theorem close_conn {pool : Pool} {db : Nat} {now : Int} {reply : Bool}
    (returns : pool.closeReturns db now reply = true) :
    ((pool.close db now reply).dbs db).conn = none := by
  cases held : (pool.dbs db).conn with
  | none => rw [(Pool.close_of_none held now reply).1, held]
  | some conn => rw [(Pool.close_of_some held now reply).2.2, if_pos returns]

theorem Sound.apply {state : Lifetimes} (sound : state.Sound) (event : LifetimeEvent) :
    (state.apply event).Sound := by
  obtain ⟨accounted, owned, counted, gone⟩ := sound
  cases event with
  | call event =>
      simp only [Lifetimes.apply]
      split
      · exact ⟨accounted, owned, counted, gone⟩
      · rename_i alive
        refine ⟨accounted.apply owned counted event, owned.apply event, counted.apply event, ?_⟩
        intro db destroyed
        refine Sound.still_gone ⟨accounted, owned, counted, gone⟩ event destroyed ?_
        intro actor
        exact alive (Or.inr ⟨db, actor, destroyed⟩)
  | destroy db now reply =>
      have closed := accounted.close db now reply
      have closedOwned := owned.close db now reply
      have closedCounted : (state.pool.close db now reply).Counted :=
        counted.apply (.close db now reply)
      have others : ∀ other ∈ state.destroyed, other ≠ db →
          (state.pool.close db now reply).dbs other = { conn := none, lock := none } := by
        intro other destroyed different
        exact Sound.still_gone ⟨accounted, owned, counted, gone⟩ (.close db now reply) destroyed
          fun same => different (Option.some.inj same).symm
      simp only [Lifetimes.apply]
      split
      · exact ⟨accounted, owned, counted, gone⟩
      · rename_i alive
        have links := (Pool.setLock_sameLinks (state.pool.close db now reply) db none now)
        split
        next returns =>
          refine ⟨closed.setLock db none now, links.owned closedOwned, closedCounted.unlock db now, ?_⟩
          intro other destroyed
          by_cases same : other = db
          · subst other
            have conn := (links.conn db).trans (close_conn returns)
            exact Holder.eq_empty conn (Pool.setLock_own_lock _ db none now)
          · have before := others other ((List.mem_cons.mp destroyed).resolve_left same) same
            have conn := (links.conn other).trans (congrArg Holder.conn before)
            have lock := (Pool.setLock_other_lock (state.pool.close db now reply) same none now).trans
              (congrArg Holder.lock before)
            exact Holder.eq_empty conn lock
        next =>
          refine ⟨closed, closedOwned, closedCounted, ?_⟩
          intro other destroyed
          exact others other destroyed fun same => alive (Or.inr (same ▸ destroyed))

/-- A database that is not destroyed has the connection, or a lock on it lives. -/
def InUse (state : Lifetimes) (conn : Nat) : Prop :=
  (∃ db, db ∉ state.destroyed ∧ (state.pool.dbs db).conn = some conn) ∨ state.pool.Locked conn

theorem Sound.released {state : Lifetimes} (sound : state.Sound) {conn : Nat}
    (inPool : conn ∈ state.pool.cons) (unused : ¬ state.InUse conn) :
    (state.pool.mem conn).Released := by
  apply sound.accounted.released inPool
  · rintro ⟨db, held⟩
    by_cases destroyed : db ∈ state.destroyed
    · rw [sound.gone db destroyed] at held
      cases held
    · exact unused (Or.inl ⟨db, destroyed, held⟩)
  · exact fun locked => unused (Or.inr locked)

/-- Nothing leaks in any run in which databases are opened, used, closed and destroyed in any
order: a connection that is not in use is released, its owner is never a database that was
destroyed, and a request is refused only when every connection that is left is in use. -/
theorem nothing_leaks (maxConn : Nat) (events : List LifetimeEvent) :
    let state := Runs.run apply (initial maxConn) events
    (∀ conn ∈ state.pool.cons, ¬ state.InUse conn → (state.pool.mem conn).Released) ∧
    (∀ conn ∈ state.pool.cons, ∀ db ∈ state.destroyed, (state.pool.mem conn).owner ≠ some db) ∧
    ∀ owner now, (state.pool.getConnection owner now).2 = none →
      state.pool.survivors now ≠ [] ∧ ∀ conn ∈ state.pool.survivors now, state.InUse conn := by
  intro state
  have sound : state.Sound := Runs.invariant Sound (fun _ event sound => sound.apply event)
    (initial_sound maxConn) events
  refine ⟨fun conn => sound.released, ?_, ?_⟩
  · intro conn inPool db destroyed owner
    have held := sound.owned.held inPool owner
    rw [sound.gone db destroyed] at held
    cases held
  · intro owner now refused
    obtain ⟨some_, busy⟩ := Pool.getConnection_refused refused
    refine ⟨some_, fun conn survives => ?_⟩
    by_contra unused
    have inPool : conn ∈ state.pool.cons := by
      rcases List.mem_append.mp survives with early | late
      · exact List.mem_of_mem_take early
      · exact List.mem_of_mem_drop (List.mem_of_mem_filter late)
    have free := sound.released inPool unused
    have stolen := busy conn survives
    simp [Connection.canBeStolen, free.outside, free.idle] at stolen

end Lifetimes

end PqAsync
