import PqAsync.ExecCore
import PqAsync.PoolSteps

/-!
`close()` and a `ROLLBACK` that fails: `release` takes the owner from the connection before it
asks the server, and leaves the rest to the time after the reply.
-/

namespace PqAsync

namespace Connection

structure Released (conn : Connection) : Prop where
  unowned : conn.owner = none
  unreserved : conn.res ≤ 0
  idle : conn.running = 0
  outside : conn.isInTransaction = false

/-- The link to the owner, the reservation and the transaction flag are as they were. -/
structure Kept (before after : Connection) : Prop where
  owner : after.owner = before.owner
  res : after.res = before.res
  running : after.running = before.running
  isInTransaction : after.isInTransaction = before.isInTransaction

/-- In a transaction whose `ROLLBACK` fails, a connection that has an owner loses it. -/
def LosesOwner (conn : Connection) (reply : Bool) : Prop :=
  conn.isInTransaction = true ∧ reply = false ∧ conn.owner ≠ none

theorem release_released {conn : Connection} {now : Int} {reply : Bool}
    (returns : (conn.release now reply).2 = true) : (conn.release now reply).1.Released := by
  have accepted := (conn.release_returns_iff now reply).mp returns
  have goesOn : ¬ (conn.isInTransaction && !reply) = true := by
    intro failed
    rw [Bool.and_eq_true] at failed
    rw [accepted failed.1] at failed
    exact absurd failed.2 (by decide)
  simp only [release, if_neg goesOn]
  by_cases reserved : conn.res > 0
  · rw [if_pos reserved]
    refine ⟨rfl, ?_, rfl, rfl⟩
    exact Int.le_refl 0
  · rw [if_neg reserved]
    refine ⟨rfl, ?_, rfl, rfl⟩
    exact Int.not_lt.mp reserved

theorem release_threw {conn : Connection} {now : Int} {reply : Bool}
    (threw : (conn.release now reply).2 = false) :
    conn.isInTransaction = true ∧ reply = false ∧
      (conn.release now reply).1 = { conn with owner := none } := by
  have failed : (conn.isInTransaction && !reply) = true := by
    by_contra goesOn
    simp only [release, if_neg goesOn] at threw
    exact absurd threw (by decide)
  have parts := Bool.and_eq_true_iff.mp failed
  refine ⟨parts.1, by simpa using parts.2, ?_⟩
  simp only [release, if_pos failed]

theorem release_kept_iff {conn : Connection} {now : Int} {reply : Bool}
    (threw : (conn.release now reply).2 = false) :
    conn.Kept (conn.release now reply).1 ↔ ¬ conn.LosesOwner reply := by
  obtain ⟨inside, refused, left⟩ := release_threw threw
  rw [left]
  constructor
  · intro kept loses
    exact loses.2.2 kept.owner.symm
  · intro keeps
    refine ⟨?_, rfl, rfl, rfl⟩
    by_contra lost
    exact keeps ⟨inside, refused, Ne.symm lost⟩

end Connection

namespace Pool

/-- Whether `close()` returns; it throws otherwise. -/
def closeReturns (pool : Pool) (db : Nat) (now : Int) (reply : Bool) : Bool :=
  match (pool.dbs db).conn with
  | none => true
  | some conn => ((pool.mem conn).release now reply).2

/-- `close()` releases the connection of the database and takes it from the database, or it
throws, leaves both as they were and can be called again. -/
structure ClosesAtomically (pool : Pool) (db : Nat) (now : Int) (reply : Bool) : Prop where
  released : pool.closeReturns db now reply = true →
    ((pool.close db now reply).dbs db).conn = none ∧
      ∀ conn, (pool.dbs db).conn = some conn → ((pool.close db now reply).mem conn).Released
  kept : pool.closeReturns db now reply = false →
    (pool.close db now reply).dbs db = pool.dbs db ∧
      (∀ conn, (pool.dbs db).conn = some conn →
        (pool.mem conn).Kept ((pool.close db now reply).mem conn)) ∧
      ∀ later, (pool.close db now reply).closeReturns db later true = true

theorem close_of_none {pool : Pool} {db : Nat} (closed : (pool.dbs db).conn = none) (now : Int)
    (reply : Bool) : pool.close db now reply = pool ∧ pool.closeReturns db now reply = true := by
  simp [close, closeReturns, closed]

theorem close_of_some {pool : Pool} {db conn : Nat} (assigned : (pool.dbs db).conn = some conn)
    (now : Int) (reply : Bool) :
    pool.closeReturns db now reply = ((pool.mem conn).release now reply).2 ∧
      (pool.close db now reply).mem conn = ((pool.mem conn).release now reply).1 ∧
      (pool.close db now reply).dbs db =
        if pool.closeReturns db now reply then { pool.dbs db with conn := none }
        else pool.dbs db := by
  simp only [close, closeReturns, assigned]
  cases ((pool.mem conn).release now reply).2 <;> simp [modify, setConn]

theorem closesAtomically_of_some {pool : Pool} {db conn : Nat}
    (assigned : (pool.dbs db).conn = some conn) (now : Int) (reply : Bool) :
    pool.ClosesAtomically db now reply ↔ ¬ (pool.mem conn).LosesOwner reply := by
  obtain ⟨returns, left, holder⟩ := close_of_some assigned now reply
  constructor
  · intro atomic loses
    have threw : ((pool.mem conn).release now reply).2 = false := by
      rw [Bool.eq_false_iff, Ne, Connection.release_returns_iff]
      intro accepted
      rw [accepted loses.1] at loses
      exact absurd loses.2.1 (by decide)
    have kept := (atomic.kept (returns.trans threw)).2.1 conn assigned
    rw [left] at kept
    exact (Connection.release_kept_iff threw).mp kept loses
  · intro keeps
    constructor
    · intro returned
      rw [if_pos returned] at holder
      refine ⟨by rw [holder], fun other same => ?_⟩
      obtain rfl := Option.some.inj (assigned.symm.trans same)
      rw [left]
      exact Connection.release_released (returns.symm.trans returned)
    · intro threw
      rw [threw, if_neg (by decide)] at holder
      refine ⟨holder, fun other same => ?_, fun later => ?_⟩
      · obtain rfl := Option.some.inj (assigned.symm.trans same)
        rw [left]
        exact (Connection.release_kept_iff (returns.symm.trans threw)).mpr keeps
      · rw [(close_of_some (by rw [holder, assigned]) later true).1]
        exact (Connection.release_returns_iff _ _ _).mpr fun _ => rfl

/-- It is atomic unless the `ROLLBACK` of a connection that has an owner fails. -/
theorem close_atomic_iff (pool : Pool) (db : Nat) (now : Int) (reply : ExecStatus) :
    pool.ClosesAtomically db now (reply = .commandOk) ↔
      ∀ conn, (pool.dbs db).conn = some conn →
        ¬ (pool.mem conn).LosesOwner (reply = .commandOk) := by
  cases assigned : (pool.dbs db).conn with
  | none =>
      obtain ⟨same, returns⟩ := close_of_none assigned now (reply = .commandOk)
      refine iff_of_true ⟨fun _ => ?_, fun threw => ?_⟩ (fun conn other => by cases other)
      · rw [same, assigned]
        exact ⟨rfl, fun conn other => by cases other⟩
      · rw [returns] at threw
        cases threw
  | some conn =>
      rw [closesAtomically_of_some assigned]
      constructor
      · intro keeps other same
        obtain rfl := Option.some.inj same
        exact keeps
      · intro keeps
        exact keeps conn rfl

theorem failed_close_loses_owner : ¬ ∀ (pool : Pool) (db : Nat) (now : Int) (reply : ExecStatus),
    pool.ClosesAtomically db now (reply = .commandOk) := by
  intro atomic
  have begun : (((Pool.initial 1).begin 0 1 ⟨false, true, true⟩ true).dbs 0).conn = some 0 := rfl
  have keeps := (closesAtomically_of_some begun 2 false).mp (atomic _ 0 2 .fatalError)
  exact keeps ⟨rfl, rfl, by decide⟩

end Pool

end PqAsync
