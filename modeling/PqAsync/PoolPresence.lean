import PqAsync.PoolCleanup

/-!
When the connections of the living locks are not deleted. A deleted connection is one that is
no longer in the vector: its entry of `mem` stays as it was, its id is never used again, and
what the source does with such a connection is not defined.
-/

namespace PqAsync

namespace Pool

/-- The `_conn` of its database, as it is before the event, that an event uses. -/
def ownConn (pool : Pool) : PoolEvent → Option Nat
  | .openConnection db _ _ => if (pool.dbs db).lock = none then (pool.dbs db).conn else none
  | .connect db timedOut _ _ => if timedOut then none else (pool.dbs db).conn
  | .begin db _ _ _ => (pool.dbs db).conn
  | .endTransaction db _ _ => (pool.dbs db).conn
  | .began db _ reply => if reply then (pool.dbs db).conn else none
  | .ended db _ reply => if reply then (pool.dbs db).conn else none
  | .close db _ _ => (pool.dbs db).conn
  | _ => none

def UsesPresent (pool : Pool) (event : PoolEvent) : Prop :=
  ∀ conn, pool.ownConn event = some conn → conn ∈ pool.cons

def CleansUnlocked (pool : Pool) (event : PoolEvent) : Prop :=
  ∀ now, pool.cleansAt (.event event) = some now → ∀ conn ∈ pool.cons.drop 5,
    (pool.mem conn).isDead now = true → ¬ pool.Locked conn

def LocksPresent (pool : Pool) : Prop := ∀ conn, pool.Locked conn → conn ∈ pool.cons

theorem LocksPresent.of_sameLinks {pool next : Pool} (present : pool.LocksPresent)
    (same : pool.SameLinks next) (locked : ∀ conn, next.Locked conn → pool.Locked conn) :
    next.LocksPresent := by
  intro conn found
  rw [same.cons]
  exact present conn (locked conn found)

theorem LocksPresent.transaction {pool : Pool} (present : pool.LocksPresent) (db : Nat)
    (now : Int) (reply : Bool) : (pool.endTransaction db now reply).LocksPresent ∧
      (pool.began db now reply).LocksPresent ∧ (pool.ended db now reply).LocksPresent := by
  apply transaction_induction
  · intro next conn change keeps present
    exact present.of_sameLinks (modify_sameLinks next conn change (keeps _).1) fun conn found => found
  · intro next db now present
    exact present.of_sameLinks (setLock_sameLinks next db none now) fun conn found =>
      setLock_locked found
  · exact present

theorem close_locked (pool : Pool) (db : Nat) (now : Int) (reply : Bool) (conn : Nat) :
    (pool.close db now reply).Locked conn ↔ pool.Locked conn := by
  simp only [close]
  split
  · rfl
  · split <;> rfl

theorem assign_present {pool : Pool} {db conn : Nat} {now : Int}
    (own : ∀ conn, (pool.dbs db).conn = some conn → conn ∈ pool.cons)
    (result : (pool.assign db now).2 = some conn) : conn ∈ (pool.assign db now).1.cons := by
  cases held : (pool.dbs db).conn with
  | some other =>
      rw [assign_of_own held] at result ⊢
      exact own conn (held.trans result)
  | none =>
      rw [assign_cons_of_free held]
      simp only [assign, held] at result
      generalize got : pool.getConnection db now = answer at result
      obtain ⟨next, handed⟩ := answer
      cases handed with
      | none => cases result
      | some other =>
          obtain rfl := Option.some.inj result
          have handed : (pool.getConnection db now).2 = some other := congrArg Prod.snd got
          rw [← got]
          exact (getConnection_some handed).1

theorem openConnection_present {pool : Pool} (counted : pool.Counted) {db : Nat} {now : Int}
    {dial : Dial} (own : (pool.dbs db).lock = none → ∀ conn, (pool.dbs db).conn = some conn →
      conn ∈ pool.cons)
    (old : ∀ conn, pool.Locked conn → conn ∈ (pool.openConnection db now dial).1.cons) :
    (pool.openConnection db now dial).1.LocksPresent := by
  intro conn found
  rcases openConnection_locked counted found with before | ⟨unlocked, result⟩
  · exact old conn before
  · rw [(openConnection_sameLinks unlocked now dial).cons]
    exact assign_present (own unlocked) result

theorem connect_present {pool : Pool} {db : Nat} {now : Int} {dial : Dial}
    (own : ∀ conn, (pool.dbs db).conn = some conn → conn ∈ pool.cons)
    (old : ∀ conn, pool.Locked conn → conn ∈ (pool.connect db false now dial).1.cons) :
    (pool.connect db false now dial).1.LocksPresent := by
  intro conn found
  rcases connect_locked found with before | result
  · exact old conn before
  · rw [(connect_sameLinks pool db now dial).cons]
    exact assign_present own result

section Lasting

variable {pool : Pool} {conn : Nat} (locked : pool.Locked conn)

include locked

theorem Locked.new (own : Nat) (now : Int) (fresh : ∀ lock, pool.Living lock → lock ≠ pool.nextLock) :
    (pool.locked own now).Locked conn := by
  obtain ⟨lock, living, rfl⟩ := locked
  refine ⟨lock, (living_locked pool own now lock).mpr (Or.inr living), ?_⟩
  rw [locked_conn, if_neg (fresh lock living)]

theorem Locked.openConnection (counted : pool.Counted) {db : Nat}
    (unlocked : (pool.dbs db).lock = none) (now : Int) (dial : Dial) :
    (pool.openConnection db now dial).1.Locked conn := by
  have assigned := (pool.assign_assigned db now).locks
  obtain ⟨_, step⟩ | ⟨own, result, step⟩ := openConnection_cases unlocked now dial
  · rw [step]
    exact (assigned.locked conn).mpr locked
  · have same := (reserved_assigned result).locks
    have opened := openOn_sameLocks ((pool.reserved db own now).locked own now) own now dial
    have kept : ((pool.reserved db own now).locked own now).Locked conn := by
      refine ((same.locked conn).mpr locked).new own now fun lock living isNext => ?_
      exact absurd ((same.counted counted).below living) (isNext ▸ Nat.lt_irrefl _)
    obtain ⟨_, step⟩ | ⟨_, step⟩ := step
    · rw [step]
      exact (opened.locked conn).mpr kept
    · -- the lock that goes away again is the new one
      obtain ⟨lock, living, rfl⟩ := locked
      have older : lock ≠ (pool.reserved db own now).nextLock :=
        (counted.below living).ne.trans_eq same.nextLock.symm
      refine ⟨lock, ?_, ?_⟩
      · rw [step]
        unfold Living
        rw [dropLock_uses, if_neg older, opened.locks]
        exact (living_locked _ own now lock).mpr (Or.inr ((same.living lock).mpr living))
      · rw [step, dropLock_conn, opened.locks, locked_conn, if_neg older, same.locks]

theorem Locked.connect (counted : pool.Counted) (db : Nat) (now : Int) (dial : Dial) :
    (pool.connect db false now dial).1.Locked conn := by
  have assigned := (pool.assign_assigned db now).locks
  obtain ⟨_, step⟩ | ⟨own, result, step⟩ := pool.connect_cases db now dial
  · rw [step]
    exact (assigned.locked conn).mpr locked
  · have same := (reserved_assigned result).locks.trans
      (openOn_sameLocks (pool.reserved db own now) own now dial)
    obtain ⟨_, step⟩ | ⟨_, step⟩ := step
    · rw [step]
      exact (same.locked conn).mpr locked
    · rw [step]
      refine ((same.locked conn).mpr locked).new own now fun lock living isNext => ?_
      exact absurd ((same.counted counted).below living) (isNext ▸ Nat.lt_irrefl _)

theorem Locked.begin (counted : pool.Counted) {db : Nat}
    (unlocked : (pool.dbs db).lock = none) (now : Int) (dial : Dial) (reply : Bool) :
    (pool.begin db now dial reply).Locked conn := by
  have opened := locked.openConnection counted unlocked now dial
  have free : ((pool.openConnection db now dial).1.dbs db).lock = none :=
    openConnection_unlocked unlocked now dial
  have stored (lock : Nat) :
      ((pool.openConnection db now dial).1.setLock db (some lock) now).Locked conn := by
    unfold setLock
    dsimp only
    rw [free]
    exact opened
  obtain ⟨_, step⟩ | ⟨lock, _, step | ⟨other, step⟩⟩ := pool.begin_cases db now dial reply
  · rwa [step]
  · rw [step]
    exact stored lock
  · rw [step]
    exact ((modify_sameLocks _ _ _).locked conn).mpr (stored lock)

theorem Locked.cleaning (counted : pool.Counted) {event : PoolEvent} {now : Int}
    (cleans : pool.cleansAt (.event event) = some now) : (pool.apply event).Locked conn := by
  cases event with
  | openConnection db clock dial =>
      obtain ⟨⟨unlocked, _⟩, _⟩ := Option.ite_none_right_eq_some.mp cleans
      exact locked.openConnection counted unlocked clock dial
  | connect db timedOut clock dial =>
      obtain ⟨⟨rfl, _⟩, _⟩ := Option.ite_none_right_eq_some.mp cleans
      exact locked.connect counted db clock dial
  | begin db clock dial reply =>
      obtain ⟨⟨unlocked, _⟩, _⟩ := Option.ite_none_right_eq_some.mp cleans
      exact locked.begin counted unlocked clock dial reply
  | count clock => exact ((pool.cleanup_sameLocks clock).locked conn).mpr locked
  | dropHeld | keepLock | endTransaction | began | ended | close => cases cleans

end Lasting

theorem apply_present {pool : Pool} (present : pool.LocksPresent) (counted : pool.Counted)
    {event : PoolEvent} (uses : pool.UsesPresent event)
    (kept : ∀ conn, pool.Locked conn → conn ∈ (pool.apply event).cons) :
    (pool.apply event).LocksPresent := by
  cases event with
  | openConnection db now dial =>
      exact @openConnection_present _ counted db now dial
        (fun unlocked conn own => uses conn ((if_pos unlocked).trans own)) kept
  | connect db timedOut now dial =>
      cases timedOut with
      | true => exact present
      | false =>
          exact @connect_present _ db now dial uses kept
  | begin db now dial reply =>
      have same := begin_sameLinks pool db now dial reply
      have opened := @openConnection_present _ counted db now dial (fun _ => uses)
        fun conn locked => by
          rw [← same.cons]
          exact kept conn locked
      exact opened.of_sameLinks same fun conn found => begin_locked found
  | count now =>
      intro conn found
      exact kept conn (((pool.cleanup_sameLocks now).locked conn).mp found)
  | dropHeld lock now =>
      simp only [apply]
      split
      · have fewer : ({ pool with held := pool.held.erase lock } : Pool).LocksPresent := present
        exact fewer.of_sameLinks (dropLock_sameLinks _ lock now) fun conn found =>
          dropLock_locked found
      · exact present
  | keepLock db lock now =>
      simp only [apply]
      split
      next held =>
        exact present.of_sameLinks
          ((copyLock_sameLinks pool lock).trans (setLock_sameLinks _ _ _ _)) fun conn found =>
            copyLock_locked (counted.held_living held) (setLock_locked found)
      next => exact present
  | endTransaction db now reply => exact (present.transaction db now reply).1
  | began db now reply => exact (present.transaction db now reply).2.1
  | ended db now reply => exact (present.transaction db now reply).2.2
  | close db now reply => exact fun conn found => kept conn ((close_locked pool db now reply conn).mp found)

theorem LocksPresent.apply_iff {pool : Pool} (present : pool.LocksPresent)
    (allocated : pool.Allocated) (counted : pool.Counted) {event : PoolEvent}
    (uses : pool.UsesPresent event) :
    (pool.apply event).LocksPresent ↔ pool.CleansUnlocked event := by
  have deleted {conn : Nat} (locked : pool.Locked conn) :=
    allocated.notMem_applyCall_iff (.event event) (present conn locked)
  constructor
  · intro after now cleans conn later dead locked
    have gone := (allocated.notMem_survivors_iff now (present conn locked)).mpr ⟨later, dead⟩
    exact (deleted locked).mpr ⟨now, cleans, gone⟩ (after conn (locked.cleaning counted cleans))
  · intro safe
    refine apply_present present counted uses fun conn locked => ?_
    by_contra gone
    obtain ⟨now, cleans, removed⟩ := (deleted locked).mp gone
    obtain ⟨later, dead⟩ :=
      (allocated.notMem_survivors_iff now (present conn locked)).mp removed
    exact safe now cleans conn later dead locked

end Pool

end PqAsync
