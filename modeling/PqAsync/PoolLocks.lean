import PqAsync.PoolBound
import Mathlib.Data.Finset.Card

/-!
The living locks of a pool: the shared pointers that each of them counts, and what the
operations of a pool do to them.
-/

namespace PqAsync

namespace Connection

/-- `open_connection` returns. -/
def opens (conn : Connection) (dial : Dial) : Bool :=
  conn.opened && !dial.broken || dial.connects && dial.nonBlocking

theorem openConnection_opens (conn : Connection) (now : Int) (dial : Dial) :
    (conn.openConnection now dial).2 = conn.opens dial := by
  unfold openConnection opens closeConnection touch
  cases opened : conn.opened <;> cases broken : dial.broken <;> simp

theorem release_running (conn : Connection) (now : Int) (reply : Bool) :
    (conn.release now reply).1.running =
      if conn.isInTransaction && !reply then conn.running else 0 := by
  simp only [release]
  split <;> rfl

end Connection

namespace Pool

def Living (pool : Pool) (lock : Nat) : Prop := 0 < (pool.locks lock).uses

instance (pool : Pool) (lock : Nat) : Decidable (pool.Living lock) :=
  inferInstanceAs (Decidable (0 < _))

def Locked (pool : Pool) (conn : Nat) : Prop :=
  ∃ lock, pool.Living lock ∧ (pool.locks lock).conn = conn

structure Counted (pool : Pool) : Prop where
  unused : ∀ lock, pool.nextLock ≤ lock → (pool.locks lock).uses = 0
  uses : ∀ lock (dbs : Finset Nat), (∀ db ∈ dbs, (pool.dbs db).lock = some lock) →
    pool.held.count lock + dbs.card ≤ (pool.locks lock).uses

structure SameLocks (pool next : Pool) : Prop where
  locks : next.locks = pool.locks
  held : next.held = pool.held
  nextLock : next.nextLock = pool.nextLock
  lock : ∀ db, (next.dbs db).lock = (pool.dbs db).lock

namespace SameLocks

theorem refl (pool : Pool) : pool.SameLocks pool := ⟨rfl, rfl, rfl, fun _ => rfl⟩

theorem trans {first second third : Pool} (left : first.SameLocks second)
    (right : second.SameLocks third) : first.SameLocks third :=
  ⟨right.locks.trans left.locks, right.held.trans left.held,
    right.nextLock.trans left.nextLock, fun db => (right.lock db).trans (left.lock db)⟩

theorem symm {pool next : Pool} (same : pool.SameLocks next) : next.SameLocks pool :=
  ⟨same.locks.symm, same.held.symm, same.nextLock.symm, fun db => (same.lock db).symm⟩

theorem counted {pool next : Pool} (same : pool.SameLocks next) (counted : pool.Counted) :
    next.Counted := by
  constructor
  · rw [same.nextLock, same.locks]
    exact counted.unused
  · intro lock dbs all
    rw [same.held, same.locks]
    apply counted.uses
    intro db inDbs
    rw [← same.lock]
    exact all db inDbs

theorem living {pool next : Pool} (same : pool.SameLocks next) (lock : Nat) :
    next.Living lock ↔ pool.Living lock := by
  unfold Living
  rw [same.locks]

theorem locked {pool next : Pool} (same : pool.SameLocks next) (conn : Nat) :
    next.Locked conn ↔ pool.Locked conn := by
  unfold Locked Living
  rw [same.locks]

end SameLocks

theorem modify_sameLocks (pool : Pool) (conn : Nat) (change : Connection → Connection) :
    pool.SameLocks (pool.modify conn change) := ⟨rfl, rfl, rfl, fun _ => rfl⟩

theorem setConn_sameLocks (pool : Pool) (db : Nat) (conn : Option Nat) :
    pool.SameLocks (pool.setConn db conn) := by
  refine ⟨rfl, rfl, rfl, fun other => ?_⟩
  by_cases same : other = db
  · subst other
    simp [setConn]
  · simp [setConn, same]

theorem detachOwner_sameLocks (pool : Pool) (conn : Nat) :
    pool.SameLocks (pool.detachOwner conn) := by
  unfold detachOwner
  split
  · exact setConn_sameLocks _ _ _
  · exact .refl pool

theorem cleanup_sameLocks (pool : Pool) (now : Int) : pool.SameLocks (pool.cleanup now) := by
  refine cleanup_induction pool.SameLocks (fun next i same => ?_) (.refl pool)
  obtain ⟨unchanged, _⟩ | ⟨conn, _, _, removed⟩ := next.cleanupAt_cases now i
  · rwa [unchanged]
  · rw [removed]
    have detached := next.detachOwner_sameLocks conn
    exact same.trans ⟨detached.locks, detached.held, detached.nextLock, detached.lock⟩

/-- What `get_connection` does to the locks: nothing, except to the state of the connection
that it hands out. -/
structure Assigned (pool next : Pool) (conn : Option Nat) : Prop where
  locks : pool.SameLocks next
  nextId : pool.nextId ≤ next.nextId
  running : ∀ other < pool.nextId, some other ≠ conn →
    (next.mem other).running = (pool.mem other).running

theorem Assigned.cleanup {pool next : Pool} {now : Int} {conn : Option Nat}
    (assigned : (pool.cleanup now).Assigned next conn) : pool.Assigned next conn := by
  obtain ⟨mem, nextId, _⟩ := pool.cleanup_frame now
  constructor
  · exact (pool.cleanup_sameLocks now).trans assigned.locks
  · rw [← nextId]
    exact assigned.nextId
  · rw [← nextId, ← mem]
    exact assigned.running

theorem Assigned.refl (pool : Pool) (conn : Option Nat) : pool.Assigned pool conn :=
  ⟨.refl pool, Nat.le_refl _, fun _ _ _ => rfl⟩

theorem Assigned.modify {pool next : Pool} {conn : Nat} (assigned : pool.Assigned next (some conn))
    (change : Connection → Connection) : pool.Assigned (next.modify conn change) (some conn) := by
  refine ⟨assigned.locks.trans (modify_sameLocks _ _ _), assigned.nextId,
    fun other below different => ?_⟩
  rw [modify_running, if_neg]
  · exact assigned.running other below different
  · rintro rfl
    exact different rfl

theorem Assigned.lock {pool next : Pool} {conn : Nat} (assigned : pool.Assigned next (some conn))
    (now : Int) : pool.Assigned (next.lock conn now) (some conn) :=
  assigned.modify fun conn => (conn.lock now).1

theorem Assigned.setOwner {pool next : Pool} {conn : Nat}
    (assigned : pool.Assigned next (some conn)) (owner : Nat) :
    pool.Assigned (next.setOwner conn owner) (some conn) :=
  assigned.modify fun conn => { conn with owner := some owner }

theorem create_assigned (pool : Pool) (now : Int) :
    pool.Assigned (pool.create now) (some pool.nextId) := by
  refine ⟨⟨rfl, rfl, rfl, fun _ => rfl⟩, Nat.le_succ _, fun other _ different => ?_⟩
  have another : other ≠ pool.nextId := by
    rintro rfl
    exact different rfl
  simp [create, another]

theorem steal_assigned (pool : Pool) (owner : Nat) (now : Int) :
    pool.Assigned (pool.steal owner now).1 (pool.steal owner now).2 := by
  obtain ⟨conn, _, _, stolen⟩ | ⟨_, refused⟩ := pool.steal_cases owner now
  · rw [stolen]
    have detached : pool.Assigned (pool.detachOwner conn) (some conn) := by
      refine ⟨pool.detachOwner_sameLocks conn, ?_, fun other _ _ => ?_⟩
      · rw [detachOwner_nextId]
      · rw [detachOwner_mem]
    have taken := (detached.setOwner owner).modify (·.reserve now)
    exact ⟨⟨taken.locks.locks, taken.locks.held, taken.locks.nextLock, taken.locks.lock⟩,
      taken.nextId, taken.running⟩
  · rw [refused]
    have clean : pool.Assigned (pool.cleanup now) none := .cleanup (.refl _ _)
    exact clean

theorem getConnection_assigned (pool : Pool) (owner : Nat) (now : Int) :
    pool.Assigned (pool.getConnection owner now).1 (pool.getConnection owner now).2 := by
  refine Assigned.cleanup (?_ : (pool.cleanup now).Assigned _ _)
  obtain ⟨_, step⟩ | ⟨conn, _, _, _, step⟩ | ⟨_, _, _, step⟩ | ⟨_, _, step⟩ :=
    pool.getConnection_cases owner now
  · rw [step]
    exact ((create_assigned _ now).lock now).setOwner owner
  · rw [step]
    exact ((Assigned.refl _ _).lock now).setOwner owner
  · rw [step]
    exact (create_assigned _ now).lock now
  · rw [step]
    exact steal_assigned _ owner now

theorem assign_assigned (pool : Pool) (db : Nat) (now : Int) :
    pool.Assigned (pool.assign db now).1 (pool.assign db now).2 := by
  cases own : (pool.dbs db).conn with
  | some conn =>
      simp only [assign, own]
      exact .refl pool _
  | none =>
      have got := pool.getConnection_assigned db now
      simp only [assign, own]
      split
      next next conn result =>
        rw [result] at got
        exact ⟨got.locks.trans (setConn_sameLocks _ _ _), got.nextId, got.running⟩
      next next result =>
        rw [result] at got
        exact got

structure Known (pool : Pool) : Prop where
  allocated : pool.Allocated
  conn : ∀ db conn, (pool.dbs db).conn = some conn → conn < pool.nextId
  locked : ∀ conn, pool.Locked conn → conn < pool.nextId

theorem Known.sameLinks {pool next : Pool} (known : pool.Known) (same : pool.SameLinks next)
    (locked : ∀ conn, next.Locked conn → conn < pool.nextId) : next.Known := by
  constructor
  · exact same.allocated known.allocated
  · intro db conn held
    rw [same.conn] at held
    rw [same.nextId]
    exact known.conn db conn held
  · intro conn living
    rw [same.nextId]
    exact locked conn living

theorem detachOwner_conn_some {pool : Pool} {conn db other : Nat}
    (held : ((pool.detachOwner conn).dbs db).conn = some other) :
    (pool.dbs db).conn = some other := by
  unfold detachOwner at held
  split at held
  next owner _ =>
    by_cases same : db = owner
    · subst db
      simp [setConn] at held
    · simpa [setConn, same] using held
  next => exact held

theorem cleanup_conn_some {pool : Pool} {now : Int} {db conn : Nat}
    (held : ((pool.cleanup now).dbs db).conn = some conn) :
    (pool.dbs db).conn = some conn := by
  refine cleanup_induction (fun next => (next.dbs db).conn = some conn →
    (pool.dbs db).conn = some conn) (fun next i kept held => ?_) id held
  obtain ⟨same, _⟩ | ⟨_, _, _, removed⟩ := next.cleanupAt_cases now i
  · exact kept (by rwa [same] at held)
  · rw [removed] at held
    exact kept (detachOwner_conn_some held)

theorem getConnection_conn_some {pool : Pool} {owner : Nat} {now : Int} {db conn : Nat}
    (held : ((pool.getConnection owner now).1.dbs db).conn = some conn) :
    (pool.dbs db).conn = some conn := by
  refine cleanup_conn_some (?_ : ((pool.cleanup now).dbs db).conn = some conn)
  obtain ⟨_, step⟩ | ⟨_, _, _, _, step⟩ | ⟨_, _, _, step⟩ | ⟨_, _, step⟩ :=
    pool.getConnection_cases owner now
  · rw [step] at held
    exact held
  · rw [step] at held
    exact held
  · rw [step] at held
    exact held
  · rw [step] at held
    obtain ⟨_, _, _, stolen⟩ | ⟨_, refused⟩ := (pool.cleanup now).steal_cases owner now
    · rw [stolen] at held
      exact detachOwner_conn_some held
    · rw [refused] at held
      exact cleanup_conn_some held

theorem Known.assign {pool : Pool} (known : pool.Known) (db : Nat) (now : Int) :
    (pool.assign db now).1.Known ∧
      ∀ conn, (pool.assign db now).2 = some conn → conn < (pool.assign db now).1.nextId := by
  have assigned := pool.assign_assigned db now
  have allocated := known.allocated.assign db now
  have locked : ∀ conn, (pool.assign db now).1.Locked conn →
      conn < (pool.assign db now).1.nextId := by
    intro conn living
    have old := known.locked conn ((assigned.locks.locked conn).mp living)
    exact Nat.lt_of_lt_of_le old assigned.nextId
  cases own : (pool.dbs db).conn with
  | some conn =>
      simp only [Pool.assign, own]
      refine ⟨known, ?_⟩
      rintro _ ⟨⟩
      exact known.conn db conn own
  | none =>
      have got := known.allocated.getConnection db now
      have older : ∀ other conn, ((pool.getConnection db now).1.dbs other).conn = some conn →
          conn < (pool.getConnection db now).1.nextId := by
        intro other conn held
        exact Nat.lt_of_lt_of_le (known.conn other conn (getConnection_conn_some held))
          (pool.getConnection_assigned db now).nextId
      have handed : ∀ conn, (pool.getConnection db now).2 = some conn →
          conn < (pool.getConnection db now).1.nextId := by
        intro conn result
        exact got.below conn (getConnection_some result).1
      simp only [Pool.assign, own] at allocated locked ⊢
      generalize pool.getConnection db now = result at allocated locked older handed ⊢
      obtain ⟨next, conn⟩ := result
      cases conn with
      | none => exact ⟨⟨allocated, older, locked⟩, handed⟩
      | some conn =>
          refine ⟨⟨allocated, ?_, locked⟩, handed⟩
          intro other another held
          by_cases same : other = db
          · subst other
            simp only [setConn, Function.update_self, Option.some.injEq] at held
            subst another
            exact handed conn rfl
          · simp only [setConn, Function.update_of_ne same] at held
            exact older other another held

theorem Counted.below {pool : Pool} (counted : pool.Counted) {lock : Nat}
    (living : pool.Living lock) : lock < pool.nextLock := by
  by_contra above
  have none := counted.unused lock (by omega)
  unfold Living at living
  omega

theorem Counted.held_living {pool : Pool} (counted : pool.Counted) {lock : Nat}
    (held : lock ∈ pool.held) : pool.Living lock := by
  have uses := counted.uses lock ∅ (by simp)
  have count := List.count_pos_iff.mpr held
  unfold Living
  omega

theorem Counted.lock_living {pool : Pool} (counted : pool.Counted) {db lock : Nat}
    (locked : (pool.dbs db).lock = some lock) : pool.Living lock := by
  have uses := counted.uses lock {db} (by simpa using locked)
  rw [Finset.card_singleton] at uses
  unfold Living
  omega

theorem hold_counted_copyLock {pool : Pool} (counted : pool.Counted) {lock : Nat}
    (living : pool.Living lock) : (hold (pool.copyLock lock, some lock)).Counted := by
  have below := counted.below living
  constructor
  · intro other above
    have later : pool.nextLock ≤ other := above
    have different : other ≠ lock := by omega
    simpa [hold, copyLock, different] using counted.unused other later
  · intro other dbs all
    have uses := counted.uses other dbs all
    by_cases same : other = lock
    · subst other
      simp only [hold, copyLock, Option.toList_some, List.count_append,
        List.count_singleton_self, Function.update_self]
      omega
    · have absent : List.count other [lock] = 0 := List.count_eq_zero.mpr (by simpa using same)
      simp only [hold, copyLock, Option.toList_some, List.count_append, absent,
        Function.update_of_ne same]
      exact uses

theorem hold_counted_newLock {pool : Pool} (counted : pool.Counted) (conn : Nat) (now : Int) :
    (hold (pool.newLock conn now)).Counted := by
  unfold newLock
  split
  · have same : pool.SameLocks (hold (pool, none)) := by
      refine ⟨rfl, ?_, rfl, fun _ => rfl⟩
      simp [hold]
    exact same.counted counted
  · constructor
    · intro other above
      have later : pool.nextLock + 1 ≤ other := above
      have different : other ≠ pool.nextLock := by omega
      simpa [hold, modify, different] using counted.unused other (by omega)
    · intro other dbs all
      have uses := counted.uses other dbs all
      by_cases same : other = pool.nextLock
      · subst other
        have none := counted.unused pool.nextLock (Nat.le_refl _)
        simp only [hold, Option.toList_some, modify, List.count_append,
          List.count_singleton_self, Function.update_self]
        omega
      · have absent : List.count other [pool.nextLock] = 0 :=
          List.count_eq_zero.mpr (by simpa using same)
        simp only [hold, Option.toList_some, modify, List.count_append, absent,
          Function.update_of_ne same]
        exact uses

theorem dropLock_locks (pool : Pool) (lock : Nat) (now : Int) :
    (pool.dropLock lock now).locks = Function.update pool.locks lock
      { pool.locks lock with uses := (pool.locks lock).uses - 1 } := by
  simp only [dropLock]
  split <;> rfl

theorem dropLock_uses (pool : Pool) (lock : Nat) (now : Int) (other : Nat) :
    ((pool.dropLock lock now).locks other).uses =
      if other = lock then (pool.locks lock).uses - 1 else (pool.locks other).uses := by
  rw [dropLock_locks]
  by_cases same : other = lock
  · subst other
    simp
  · simp [same]

theorem dropLock_conn (pool : Pool) (lock : Nat) (now : Int) (other : Nat) :
    ((pool.dropLock lock now).locks other).conn = (pool.locks other).conn := by
  rw [dropLock_locks]
  by_cases same : other = lock
  · subst other
    simp
  · simp [same]

theorem dropLock_frame (pool : Pool) (lock : Nat) (now : Int) :
    (pool.dropLock lock now).held = pool.held ∧ (pool.dropLock lock now).dbs = pool.dbs ∧
      (pool.dropLock lock now).nextLock = pool.nextLock := by
  simp only [dropLock]
  split <;> exact ⟨rfl, rfl, rfl⟩

theorem dropLock_unused {pool : Pool} (unused : ∀ lock, pool.nextLock ≤ lock →
    (pool.locks lock).uses = 0) (lock : Nat) (now : Int) (other : Nat)
    (above : pool.nextLock ≤ other) : ((pool.dropLock lock now).locks other).uses = 0 := by
  rw [dropLock_uses]
  have none := unused other above
  split
  next same => rw [← same, none]
  next => exact none

theorem Counted.dropHeld {pool : Pool} (counted : pool.Counted) {lock : Nat}
    (held : lock ∈ pool.held) (now : Int) :
    ({ pool with held := pool.held.erase lock }.dropLock lock now).Counted := by
  obtain ⟨heldSame, dbsSame, nextSame⟩ :=
    dropLock_frame { pool with held := pool.held.erase lock } lock now
  constructor
  · rw [nextSame]
    intro other above
    refine dropLock_unused ?_ lock now other above
    exact counted.unused
  · rw [heldSame, dbsSame]
    intro other dbs all
    have uses := counted.uses other dbs all
    rw [dropLock_uses]
    split
    next same =>
      subst other
      have count := List.count_pos_iff.mpr held
      rw [List.count_erase_self]
      change _ ≤ (pool.locks lock).uses - 1
      omega
    next different =>
      rw [List.count_erase_of_ne different]
      exact uses

theorem Counted.setLock {pool : Pool} {db : Nat} {lock : Option Nat} (now : Int)
    (counted : (hold (pool, lock)).Counted) : (pool.setLock db lock now).Counted := by
  have keeps : ∀ other (dbs : Finset Nat),
      (∀ user ∈ dbs, (Function.update pool.dbs db { pool.dbs db with lock } user).lock =
        some other) →
      pool.held.count other + dbs.card +
        (if (pool.dbs db).lock = some other then 1 else 0) ≤ (pool.locks other).uses := by
    intro other dbs all
    have others : ∀ user ∈ dbs.erase db, (pool.dbs user).lock = some other := by
      intro user inDbs
      obtain ⟨different, inDbs⟩ := Finset.mem_erase.mp inDbs
      simpa [different] using all user inDbs
    have moved : dbs.card ≤ (dbs.erase db).card + lock.toList.count other := by
      by_cases inDbs : db ∈ dbs
      · have now_ := all db inDbs
        simp only [Function.update_self] at now_
        rw [Finset.card_erase_of_mem inDbs, now_]
        simp
        omega
      · rw [Finset.erase_eq_of_notMem inDbs]
        omega
    by_cases old : (pool.dbs db).lock = some other
    · have uses := counted.uses other (insert db (dbs.erase db)) (by
        intro user inDbs
        rcases Finset.mem_insert.mp inDbs with rfl | inDbs
        · exact old
        · exact others user inDbs)
      rw [Finset.card_insert_of_notMem (by simp)] at uses
      simp only [hold, List.count_append] at uses
      rw [if_pos old]
      omega
    · have uses := counted.uses other (dbs.erase db) others
      simp only [hold, List.count_append] at uses
      rw [if_neg old]
      omega
  have unused : ∀ other, pool.nextLock ≤ other → (pool.locks other).uses = 0 := counted.unused
  unfold Pool.setLock
  dsimp only
  split
  next old was =>
    obtain ⟨heldSame, dbsSame, nextSame⟩ := dropLock_frame
      { pool with dbs := Function.update pool.dbs db { pool.dbs db with lock } } old now
    constructor
    · rw [nextSame]
      intro other above
      refine dropLock_unused ?_ old now other above
      exact unused
    · rw [heldSame, dbsSame]
      intro other dbs all
      have uses := keeps other dbs all
      rw [dropLock_uses]
      split
      next same =>
        subst other
        rw [if_pos was] at uses
        change _ ≤ (pool.locks old).uses - 1
        change pool.held.count old + dbs.card ≤ _
        omega
      next different =>
        exact Nat.le_trans (Nat.le_add_right _ _) uses
  next was =>
    constructor
    · exact unused
    · intro other dbs all
      exact Nat.le_trans (Nat.le_add_right _ _) (keeps other dbs all)

theorem dropLock_living {pool : Pool} {lock other : Nat} {now : Int}
    (living : (pool.dropLock lock now).Living other) : pool.Living other := by
  unfold Living at living ⊢
  rw [dropLock_uses] at living
  split at living
  next same =>
    subst other
    omega
  next => exact living

theorem dropLock_locked {pool : Pool} {lock conn : Nat} {now : Int}
    (locked : (pool.dropLock lock now).Locked conn) : pool.Locked conn := by
  obtain ⟨other, living, own⟩ := locked
  exact ⟨other, dropLock_living living, by rw [← own, dropLock_conn]⟩

theorem setLock_locked {pool : Pool} {db conn : Nat} {lock : Option Nat} {now : Int}
    (locked : (pool.setLock db lock now).Locked conn) : pool.Locked conn := by
  unfold setLock at locked
  dsimp only at locked
  split at locked
  · have before := dropLock_locked locked
    exact before
  · exact locked

theorem copyLock_living {pool : Pool} {lock other : Nat} (alive : pool.Living lock)
    (living : (pool.copyLock lock).Living other) : pool.Living other := by
  by_cases same : other = lock
  · subst other
    exact alive
  · simpa [Living, copyLock, same] using living

theorem copyLock_conn (pool : Pool) (lock other : Nat) :
    ((pool.copyLock lock).locks other).conn = (pool.locks other).conn := by
  by_cases same : other = lock
  · subst other
    simp [copyLock]
  · simp [copyLock, same]

theorem copyLock_locked {pool : Pool} {lock conn : Nat} (alive : pool.Living lock)
    (locked : (pool.copyLock lock).Locked conn) : pool.Locked conn := by
  obtain ⟨other, living, own⟩ := locked
  exact ⟨other, copyLock_living alive living, by rw [← own, copyLock_conn]⟩

theorem living_locked (pool : Pool) (conn : Nat) (now : Int) (lock : Nat) :
    (pool.locked conn now).Living lock ↔ lock = pool.nextLock ∨ pool.Living lock := by
  by_cases same : lock = pool.nextLock
  · subst lock
    simp [Living, locked]
  · simp [Living, locked, same]

theorem locked_conn (pool : Pool) (conn : Nat) (now : Int) (lock : Nat) :
    ((pool.locked conn now).locks lock).conn =
      if lock = pool.nextLock then conn else (pool.locks lock).conn := by
  by_cases same : lock = pool.nextLock
  · subst lock
    simp [locked]
  · simp [locked, same]

theorem locked_locked {pool : Pool} {conn other : Nat} {now : Int}
    (found : (pool.locked conn now).Locked other) : pool.Locked other ∨ other = conn := by
  obtain ⟨lock, living, own⟩ := found
  rw [locked_conn] at own
  rw [living_locked] at living
  split at own
  next => exact Or.inr own.symm
  next different => exact Or.inl ⟨lock, living.resolve_left different, own⟩

theorem reserved_assigned {pool : Pool} {db conn : Nat} {now : Int}
    (result : (pool.assign db now).2 = some conn) :
    pool.Assigned (pool.reserved db conn now) (some conn) := by
  have assigned := pool.assign_assigned db now
  rw [result] at assigned
  exact assigned.modify _

theorem openOn_sameLocks (pool : Pool) (conn : Nat) (now : Int) (dial : Dial) :
    pool.SameLocks (pool.openOn conn now dial).1 :=
  modify_sameLocks pool conn fun conn => (conn.openConnection now dial).1

theorem openOn_running (pool : Pool) (conn : Nat) (now : Int) (dial : Dial) (other : Nat) :
    ((pool.openOn conn now dial).1.mem other).running = (pool.mem other).running :=
  modify_keeps_running pool conn (fun conn => (conn.openConnection now dial).1) (by simp) other

theorem openConnection_unlocked {pool : Pool} {db : Nat}
    (unlocked : (pool.dbs db).lock = none) (now : Int) (dial : Dial) :
    (((pool.openConnection db now dial).1).dbs db).lock = none := by
  obtain ⟨_, step⟩ | ⟨conn, result, step⟩ := openConnection_cases unlocked now dial
  · rw [step, (pool.assign_assigned db now).locks.lock, unlocked]
  · have ready := (reserved_assigned result).locks.lock db
    have opened := openOn_sameLocks ((pool.reserved db conn now).locked conn now) conn now dial
    have kept : ((((pool.reserved db conn now).locked conn now).openOn conn now dial).1.dbs
        db).lock = none := by
      rw [opened.lock]
      exact ready.trans unlocked
    obtain ⟨_, step⟩ | ⟨_, step⟩ := step
    · rw [step]
      exact kept
    · rw [step]
      dsimp only
      rw [(dropLock_frame _ _ _).2.1]
      exact kept

theorem hold_none_sameLocks (pool : Pool) : pool.SameLocks (Pool.hold (pool, none)) := by
  refine ⟨rfl, ?_, rfl, fun _ => rfl⟩
  simp [Pool.hold]

theorem hold_sameLocks {pool next : Pool} (same : pool.SameLocks next) (lock : Option Nat) :
    (Pool.hold (pool, lock)).SameLocks (Pool.hold (next, lock)) :=
  ⟨same.locks, congrArg (· ++ lock.toList) same.held, same.nextLock, same.lock⟩

theorem hold_counted_locked {pool : Pool} (counted : pool.Counted) {conn : Nat}
    (reserved : (pool.mem conn).running = 2) (now : Int) :
    (Pool.hold (pool.locked conn now, some pool.nextLock)).Counted := by
  rw [← newLock_of_reserved reserved]
  exact hold_counted_newLock counted conn now

theorem Counted.dropNew {pool : Pool} (counted : pool.Counted) {conn : Nat} {now : Int}
    (reserved : (pool.mem conn).running = 2) {next : Pool}
    (same : (pool.locked conn now).SameLocks next) :
    (next.dropLock pool.nextLock now).Counted := by
  have held := (hold_sameLocks same (some pool.nextLock)).counted
    (hold_counted_locked counted reserved now)
  have absent : pool.nextLock ∉ next.held := by
    rw [same.held]
    intro inHeld
    have below := counted.below (counted.held_living inHeld)
    omega
  have erased : (next.held ++ [pool.nextLock]).erase pool.nextLock = next.held := by
    rw [List.erase_append_right _ absent]
    simp
  have last : pool.nextLock ∈ (Pool.hold (next, some pool.nextLock)).held := by simp [Pool.hold]
  have dropped := held.dropHeld last now
  simp only [Pool.hold, Option.toList_some, erased] at dropped
  exact dropped

theorem Counted.openConnection {pool : Pool} (counted : pool.Counted) (db : Nat) (now : Int)
    (dial : Dial) : (Pool.hold (pool.openConnection db now dial)).Counted := by
  cases locked : (pool.dbs db).lock with
  | some lock =>
      simp only [Pool.openConnection, locked]
      exact hold_counted_copyLock counted (counted.lock_living locked)
  | none =>
      obtain ⟨_, step⟩ | ⟨conn, result, step⟩ := openConnection_cases locked now dial
      · rw [step]
        have assigned := (pool.assign_assigned db now).locks
        exact (assigned.trans (hold_none_sameLocks _)).counted counted
      · have ready := (reserved_assigned result).locks.counted counted
        have running := pool.reserved_running db conn now
        have opened := openOn_sameLocks ((pool.reserved db conn now).locked conn now) conn now dial
        obtain ⟨_, step⟩ | ⟨_, step⟩ := step
        · rw [step]
          exact (hold_sameLocks opened _).counted (hold_counted_locked ready running now)
        · rw [step]
          exact (hold_none_sameLocks _).counted (ready.dropNew running opened)

theorem Counted.connect {pool : Pool} (counted : pool.Counted) (db : Nat) (timedOut : Bool)
    (now : Int) (dial : Dial) : (Pool.hold (pool.connect db timedOut now dial)).Counted := by
  cases timedOut with
  | true => exact (hold_none_sameLocks pool).counted counted
  | false =>
      obtain ⟨_, step⟩ | ⟨conn, result, step⟩ := pool.connect_cases db now dial
      · rw [step]
        have assigned := (pool.assign_assigned db now).locks
        exact (assigned.trans (hold_none_sameLocks _)).counted counted
      · have opened := openOn_sameLocks (pool.reserved db conn now) conn now dial
        have ready := opened.counted ((reserved_assigned result).locks.counted counted)
        have running : ((((pool.reserved db conn now).openOn conn now dial).1).mem
            conn).running = 2 := by
          rw [openOn_running]
          exact pool.reserved_running db conn now
        obtain ⟨_, step⟩ | ⟨_, step⟩ := step
        · rw [step]
          exact (hold_none_sameLocks _).counted ready
        · rw [step]
          exact hold_counted_locked ready running now

theorem Counted.unlock {pool : Pool} (counted : pool.Counted) (db : Nat) (now : Int) :
    (pool.setLock db none now).Counted :=
  Counted.setLock now ((hold_none_sameLocks pool).counted counted)

theorem Counted.begin {pool : Pool} (counted : pool.Counted) (db : Nat) (now : Int)
    (dial : Dial) (reply : Bool) : (pool.begin db now dial reply).Counted := by
  have opened := counted.openConnection db now dial
  obtain ⟨refused, step⟩ | ⟨lock, result, step⟩ := pool.begin_cases db now dial reply
  · have same : pool.openConnection db now dial = (_, none) := Prod.ext rfl refused
    rw [same] at opened
    rw [step]
    exact (hold_none_sameLocks _).symm.counted opened
  · have same : pool.openConnection db now dial = (_, some lock) := Prod.ext rfl result
    rw [same] at opened
    have stored : ((pool.openConnection db now dial).1.setLock db (some lock) now).Counted :=
      opened.setLock now
    obtain step | ⟨conn, step⟩ := step
    · rwa [step]
    · rw [step]
      exact (modify_sameLocks _ _ _).counted stored

theorem Counted.transaction {pool : Pool} (counted : pool.Counted) (db : Nat) (now : Int)
    (reply : Bool) : (pool.endTransaction db now reply).Counted ∧
      (pool.began db now reply).Counted ∧ (pool.ended db now reply).Counted := by
  apply transaction_induction
  · intro next conn change _ counted
    exact (modify_sameLocks next conn change).counted counted
  · intro next db now counted
    exact counted.unlock db now
  · exact counted

theorem Counted.apply {pool : Pool} (counted : pool.Counted) (event : PoolEvent) :
    (pool.apply event).Counted := by
  cases event with
  | openConnection db now dial => exact counted.openConnection db now dial
  | connect db timedOut now dial => exact counted.connect db timedOut now dial
  | begin db now dial reply => exact counted.begin db now dial reply
  | dropHeld lock now =>
      simp only [Pool.apply]
      split
      next held => exact counted.dropHeld held now
      next => exact counted
  | keepLock db lock now =>
      simp only [Pool.apply]
      split
      next held =>
        exact Counted.setLock now (hold_counted_copyLock counted (counted.held_living held))
      next => exact counted
  | endTransaction db now reply => exact (counted.transaction db now reply).1
  | began db now reply => exact (counted.transaction db now reply).2.1
  | ended db now reply => exact (counted.transaction db now reply).2.2
  | close db now reply =>
      simp only [Pool.apply, Pool.close]
      split
      next => exact counted
      next conn _ =>
        have changed := (modify_sameLocks pool conn
          fun conn => (conn.release now reply).1).counted counted
        split
        · exact (setConn_sameLocks _ _ _).counted changed
        · exact changed
  | count now => exact (pool.cleanup_sameLocks now).counted counted

/-- A living lock of `open_connection()` is an earlier one, or one on the connection that the
call goes on with. -/
theorem openConnection_locked {pool : Pool} (counted : pool.Counted) {db : Nat} {now : Int}
    {dial : Dial} {conn : Nat} (found : (pool.openConnection db now dial).1.Locked conn) :
    pool.Locked conn ∨ (pool.dbs db).lock = none ∧ (pool.assign db now).2 = some conn := by
  cases locked : (pool.dbs db).lock with
  | some lock =>
      simp only [Pool.openConnection, locked] at found
      exact Or.inl (copyLock_locked (counted.lock_living locked) found)
  | none =>
      have assigned := (pool.assign_assigned db now).locks
      obtain ⟨_, step⟩ | ⟨own, result, step⟩ := openConnection_cases locked now dial
      · rw [step] at found
        exact Or.inl ((assigned.locked conn).mp found)
      · have opened := openOn_sameLocks ((pool.reserved db own now).locked own now) own now dial
        have taken : ((pool.reserved db own now).locked own now).Locked conn := by
          obtain ⟨_, step⟩ | ⟨_, step⟩ := step
          · rw [step] at found
            exact (opened.locked conn).mp found
          · rw [step] at found
            exact (opened.locked conn).mp (dropLock_locked found)
        rcases locked_locked taken with old | rfl
        · exact Or.inl (((reserved_assigned result).locks.locked conn).mp old)
        · exact Or.inr ⟨rfl, result⟩

theorem connect_locked {pool : Pool} {db : Nat} {now : Int} {dial : Dial} {conn : Nat}
    (found : (pool.connect db false now dial).1.Locked conn) :
    pool.Locked conn ∨ (pool.assign db now).2 = some conn := by
  have assigned := (pool.assign_assigned db now).locks
  obtain ⟨_, step⟩ | ⟨own, result, step⟩ := pool.connect_cases db now dial
  · rw [step] at found
    exact Or.inl ((assigned.locked conn).mp found)
  · have opened := openOn_sameLocks (pool.reserved db own now) own now dial
    have taken : (pool.reserved db own now).Locked conn ∨ conn = own := by
      obtain ⟨_, step⟩ | ⟨_, step⟩ := step
      · rw [step] at found
        exact Or.inl ((opened.locked conn).mp found)
      · rw [step] at found
        exact (locked_locked found).imp_left (opened.locked conn).mp
    rcases taken with old | rfl
    · exact Or.inl (((reserved_assigned result).locks.locked conn).mp old)
    · exact Or.inr result

theorem begin_locked {pool : Pool} {db : Nat} {now : Int} {dial : Dial} {reply : Bool}
    {conn : Nat} (found : (pool.begin db now dial reply).Locked conn) :
    (pool.openConnection db now dial).1.Locked conn := by
  obtain ⟨_, step⟩ | ⟨lock, _, step | ⟨other, step⟩⟩ := pool.begin_cases db now dial reply
  · rwa [step] at found
  · rw [step] at found
    exact setLock_locked found
  · rw [step] at found
    exact setLock_locked (((modify_sameLocks _ _ _).locked conn).mp found)

theorem Known.openConnection {pool : Pool} (known : pool.Known) (counted : pool.Counted)
    (db : Nat) (now : Int) (dial : Dial) : (pool.openConnection db now dial).1.Known := by
  cases locked : (pool.dbs db).lock with
  | some lock =>
      simp only [Pool.openConnection, locked]
      exact known.sameLinks (copyLock_sameLinks pool lock) fun conn found =>
        known.locked conn (copyLock_locked (counted.lock_living locked) found)
  | none =>
      obtain ⟨assigned, handed⟩ := known.assign db now
      apply assigned.sameLinks (openConnection_sameLinks locked now dial)
      intro other found
      rcases openConnection_locked counted found with old | ⟨_, result⟩
      · exact assigned.locked other (((pool.assign_assigned db now).locks.locked other).mpr old)
      · exact handed other result

theorem Known.connect {pool : Pool} (known : pool.Known) (db : Nat) (now : Int) (dial : Dial) :
    (pool.connect db false now dial).1.Known := by
  obtain ⟨assigned, handed⟩ := known.assign db now
  apply assigned.sameLinks (connect_sameLinks pool db now dial)
  intro other found
  rcases connect_locked found with old | result
  · exact assigned.locked other (((pool.assign_assigned db now).locks.locked other).mpr old)
  · exact handed other result

theorem Known.begin {pool : Pool} (known : pool.Known) (counted : pool.Counted) (db : Nat)
    (now : Int) (dial : Dial) (reply : Bool) : (pool.begin db now dial reply).Known := by
  have opened := known.openConnection counted db now dial
  exact opened.sameLinks (begin_sameLinks pool db now dial reply) fun conn found =>
    opened.locked conn (begin_locked found)

theorem Known.close {pool : Pool} (known : pool.Known) (db : Nat) (now : Int) (reply : Bool) :
    (pool.close db now reply).Known := by
  simp only [Pool.close]
  split
  next => exact known
  next conn _ =>
    split
    · refine ⟨⟨known.allocated.nodup, known.allocated.below⟩, ?_, known.locked⟩
      intro other another held
      by_cases same : other = db
      · subst other
        simp [setConn] at held
      · simp only [setConn, Function.update_of_ne same] at held
        exact known.conn other another held
    · exact ⟨⟨known.allocated.nodup, known.allocated.below⟩, known.conn, known.locked⟩

theorem Known.cleanup {pool : Pool} (known : pool.Known) (now : Int) :
    (pool.cleanup now).Known := by
  obtain ⟨_, nextId, _⟩ := pool.cleanup_frame now
  constructor
  · exact known.allocated.cleanup now
  · intro db conn held
    rw [nextId]
    exact known.conn db conn (cleanup_conn_some held)
  · intro conn locked
    rw [nextId]
    exact known.locked conn (((pool.cleanup_sameLocks now).locked conn).mp locked)

theorem Known.transaction {pool : Pool} (known : pool.Known) (db : Nat) (now : Int)
    (reply : Bool) : (pool.endTransaction db now reply).Known ∧
      (pool.began db now reply).Known ∧ (pool.ended db now reply).Known := by
  apply transaction_induction
  · intro next conn change keeps known
    exact known.sameLinks (modify_sameLinks next conn change (keeps _).1) known.locked
  · intro next db now known
    apply known.sameLinks (setLock_sameLinks next db none now)
    intro conn found
    exact known.locked conn (setLock_locked found)
  · exact known

theorem Known.apply {pool : Pool} (known : pool.Known) (counted : pool.Counted)
    (event : PoolEvent) : (pool.apply event).Known := by
  cases event with
  | openConnection db now dial =>
      have opened := known.openConnection counted db now dial
      exact opened.sameLinks (hold_sameLinks _) opened.locked
  | connect db timedOut now dial =>
      cases timedOut with
      | true => exact known.sameLinks (hold_sameLinks (pool, none)) known.locked
      | false =>
          have opened := known.connect db now dial
          exact opened.sameLinks (hold_sameLinks _) opened.locked
  | begin db now dial reply => exact known.begin counted db now dial reply
  | close db now reply => exact known.close db now reply
  | count now => exact known.cleanup now
  | dropHeld lock now =>
      simp only [Pool.apply]
      split
      next held =>
        have fewer : ({ pool with held := pool.held.erase lock } : Pool).Known :=
          ⟨⟨known.allocated.nodup, known.allocated.below⟩, known.conn, known.locked⟩
        exact fewer.sameLinks (dropLock_sameLinks _ lock now) fun conn found =>
          fewer.locked conn (dropLock_locked found)
      next => exact known
  | keepLock db lock now =>
      simp only [Pool.apply]
      split
      next held =>
        apply known.sameLinks ((copyLock_sameLinks pool lock).trans (setLock_sameLinks _ _ _ _))
        intro conn found
        exact known.locked conn
          (copyLock_locked (counted.held_living held) (setLock_locked found))
      next => exact known
  | endTransaction db now reply => exact (known.transaction db now reply).1
  | began db now reply => exact (known.transaction db now reply).2.1
  | ended db now reply => exact (known.transaction db now reply).2.2

theorem initial_counted (maxConn : Nat) : (initial maxConn).Counted := by
  constructor
  · intro lock _
    rfl
  · intro lock dbs all
    have none : dbs = ∅ := by
      apply Finset.eq_empty_of_forall_notMem
      intro db inDbs
      have impossible := all db inDbs
      simp [initial] at impossible
    simp [none, initial]

theorem initial_known (maxConn : Nat) : (initial maxConn).Known := by
  constructor
  · exact initial_allocated maxConn
  · intro db conn held
    simp [initial] at held
  · rintro conn ⟨lock, living, _⟩
    simp [Living, initial] at living

end Pool

end PqAsync
