import PqAsync.PoolBound

/-!
What gives a database of a pool its connection, and what takes it away: its own calls, and
the connections that `_get_connection` cleans up or steals for other databases.
-/

namespace PqAsync

namespace Pool

/-- The database for which an event calls `get_connection`, and when it does. -/
def asks (pool : Pool) : PoolEvent → Option (Nat × Int)
  | .openConnection db now _ =>
      if (pool.dbs db).lock = none ∧ (pool.dbs db).conn = none then some (db, now) else none
  | .begin db now _ _ =>
      if (pool.dbs db).lock = none ∧ (pool.dbs db).conn = none then some (db, now) else none
  | .connect db timedOut now _ =>
      if timedOut = false ∧ (pool.dbs db).conn = none then some (db, now) else none
  | _ => none

def Grants (pool : Pool) (now : Int) : Prop :=
  let cons := pool.survivors now
  cons = [] ∨ cons.length < pool.maxConn ∨ ∃ conn ∈ cons, (pool.mem conn).canBeStolen = true

def CleansUp (pool : Pool) (now : Int) (db : Nat) : Prop :=
  ∃ conn ∈ pool.cons.drop 5, (pool.mem conn).isDead now = true ∧ (pool.mem conn).owner = some db

def Steals (pool : Pool) (now : Int) (db : Nat) : Prop :=
  pool.survivors now ≠ [] ∧ pool.maxConn ≤ (pool.survivors now).length ∧
    ∃ conn ∈ (pool.cleanup now).stealable.find? fun conn => (pool.mem conn).canBeStolen,
      (pool.mem conn).owner = some db

def Gives (pool : Pool) (db : Nat) (event : PoolEvent) : Prop :=
  ∃ now, pool.asks event = some (db, now) ∧ pool.Grants now

def Takes (pool : Pool) (db : Nat) : PoolEvent → Prop
  | .close closed _ reply => closed = db ∧
      ∀ conn, (pool.dbs db).conn = some conn → (pool.mem conn).isInTransaction = true →
        reply = true
  | .count now => pool.CleansUp now db
  | event => ∃ owner now, pool.asks event = some (owner, now) ∧
      (pool.CleansUp now db ∨ pool.Steals now db)

theorem cleanupAt_getElem? (pool : Pool) (now : Int) {i j : Nat} (below : j < i) :
    (pool.cleanupAt now i).cons[j]? = pool.cons[j]? := by
  obtain ⟨same, _⟩ | ⟨conn, _, _, removed⟩ := pool.cleanupAt_cases now i
  · rw [same]
  · rw [removed]
    exact List.getElem?_eraseIdx_of_lt below

theorem cleanupLoop_conn_none_iff (pool : Pool) (now : Int) (count db : Nat) :
    ((cleanupLoop now count pool).dbs db).conn = none ↔ (pool.dbs db).conn = none ∨
      ∃ i < count, ∃ conn, pool.cons[i + 5]? = some conn ∧ (pool.mem conn).isDead now = true ∧
        (pool.mem conn).owner = some db := by
  induction count generalizing pool with
  | zero => simp [cleanupLoop]
  | succ count ih =>
      rw [cleanupLoop, ih, cleanupAt_conn_none_iff, (pool.cleanupAt_frame now (count + 5)).1]
      have below : ∀ i < count, (pool.cleanupAt now (count + 5)).cons[i + 5]? =
          pool.cons[i + 5]? := by
        intro i bound
        exact pool.cleanupAt_getElem? now (by omega)
      constructor
      · rintro ((free | last) | ⟨i, bound, conn, found, dead⟩)
        · exact Or.inl free
        · exact Or.inr ⟨count, Nat.lt_succ_self _, last⟩
        · rw [below i bound] at found
          exact Or.inr ⟨i, Nat.lt_succ_of_lt bound, conn, found, dead⟩
      · rintro (free | ⟨i, bound, conn, found, dead⟩)
        · exact Or.inl (Or.inl free)
        · rcases Nat.lt_succ_iff_lt_or_eq.mp bound with earlier | rfl
          · exact Or.inr ⟨i, earlier, conn, (below i earlier).trans found, dead⟩
          · exact Or.inl (Or.inr ⟨conn, found, dead⟩)

theorem cleanup_conn_none_iff (pool : Pool) (now : Int) (db : Nat) :
    ((pool.cleanup now).dbs db).conn = none ↔
      (pool.dbs db).conn = none ∨ pool.CleansUp now db := by
  unfold cleanup CleansUp
  rw [cleanupLoop_conn_none_iff]
  refine or_congr_right ?_
  constructor
  · rintro ⟨i, _, conn, found, dead⟩
    refine ⟨conn, List.mem_of_getElem? (i := i) ?_, dead⟩
    rw [List.getElem?_drop, Nat.add_comm]
    exact found
  · rintro ⟨conn, later, dead⟩
    obtain ⟨i, found⟩ := List.mem_iff_getElem?.mp later
    rw [List.getElem?_drop, Nat.add_comm] at found
    obtain ⟨bound, _⟩ := List.getElem?_eq_some_iff.mp found
    exact ⟨i, by omega, conn, found, dead⟩

theorem not_cleansUp_cleanup (pool : Pool) (now : Int) (db : Nat) :
    ¬ (pool.cleanup now).CleansUp now db := by
  rintro ⟨conn, later, dead, _⟩
  rw [(pool.cleanup_frame now).1] at dead
  rw [cleanup_cons, survivors] at later
  have filtered : conn ∈ (pool.cons.drop 5).filter fun conn => !(pool.mem conn).isDead now := by
    rw [List.drop_append] at later
    rcases List.mem_append.mp later with early | late
    · rw [List.drop_eq_nil_of_le (by rw [List.length_take]; omega)] at early
      cases early
    · exact List.mem_of_mem_drop late
  have alive := (List.mem_filter.mp filtered).2
  rw [dead] at alive
  cases alive

theorem steal_conn_none_iff (pool : Pool) (owner : Nat) (now : Int) (db : Nat)
    (clean : ¬ pool.CleansUp now db) :
    ((pool.steal owner now).1.dbs db).conn = none ↔ (pool.dbs db).conn = none ∨
      ∃ conn ∈ pool.stealable.find? fun conn => (pool.mem conn).canBeStolen,
        (pool.mem conn).owner = some db := by
  unfold steal
  cases found : pool.stealable.find? fun conn => (pool.mem conn).canBeStolen with
  | some conn =>
      change ((pool.detachOwner conn).dbs db).conn = none ↔ _
      rw [detachOwner_conn_none_iff]
      simp
  | none =>
      change ((pool.cleanup now).dbs db).conn = none ↔ _
      rw [cleanup_conn_none_iff]
      simp [clean]

theorem getConnection_conn_none_iff (pool : Pool) (owner : Nat) (now : Int) (db : Nat) :
    ((pool.getConnection owner now).1.dbs db).conn = none ↔
      (pool.dbs db).conn = none ∨ pool.CleansUp now db ∨ pool.Steals now db := by
  have cleaned := pool.cleanup_conn_none_iff now db
  obtain ⟨mem, _, maxConn⟩ := pool.cleanup_frame now
  rw [← or_assoc, ← cleaned]
  unfold Steals
  rw [← cleanup_cons, ← maxConn, ← mem]
  obtain ⟨empty, step⟩ | ⟨_, _, room, _, step⟩ | ⟨_, room, _, step⟩ | ⟨some_, full, step⟩ :=
    pool.getConnection_cases owner now
  · rw [step]
    simp only [empty, ne_eq, not_true_eq_false, false_and, or_false]
    rfl
  · rw [step]
    simp only [Nat.not_le.mpr room, false_and, and_false, or_false]
    rfl
  · rw [step]
    simp only [Nat.not_le.mpr room, false_and, and_false, or_false]
    rfl
  · rw [step, steal_conn_none_iff _ _ _ _ (pool.not_cleansUp_cleanup now db)]
    simp only [some_, full, ne_eq, not_false_eq_true, true_and]

theorem getConnection_grants_iff (pool : Pool) (owner : Nat) (now : Int) :
    (pool.getConnection owner now).2 ≠ none ↔ pool.Grants now := by
  obtain ⟨mem, _, maxConn⟩ := pool.cleanup_frame now
  unfold Grants
  rw [← cleanup_cons, ← maxConn, ← mem]
  obtain ⟨empty, step⟩ | ⟨_, _, room, _, step⟩ | ⟨_, room, _, step⟩ | ⟨some_, full, step⟩ :=
    pool.getConnection_cases owner now
  · rw [step]
    exact iff_of_true (by simp) (Or.inl empty)
  · rw [step]
    exact iff_of_true (by simp) (Or.inr (Or.inl room))
  · rw [step]
    exact iff_of_true (by simp) (Or.inr (Or.inl room))
  · rw [step]
    obtain ⟨conn, inPool, idle, stolen⟩ | ⟨busy, refused⟩ :=
      (pool.cleanup now).steal_cases owner now
    · rw [stolen]
      exact iff_of_true (by simp) (Or.inr (Or.inr ⟨conn, inPool, idle⟩))
    · rw [refused]
      refine iff_of_false (by simp) ?_
      rintro (empty | room | ⟨conn, inPool, idle⟩)
      · exact some_ empty
      · exact Nat.not_le.mpr room full
      · rw [busy conn inPool] at idle
        cases idle

theorem openConnection_own_sameLinks {pool : Pool} {db : Nat}
    (kept : ¬ ((pool.dbs db).lock = none ∧ (pool.dbs db).conn = none)) (now : Int) (dial : Dial) :
    pool.SameLinks (pool.openConnection db now dial).1 := by
  cases locked : (pool.dbs db).lock with
  | some lock =>
      simp only [openConnection, locked]
      exact copyLock_sameLinks pool lock
  | none =>
      have own : (pool.dbs db).conn ≠ none := fun free => kept ⟨locked, free⟩
      obtain ⟨conn, held⟩ := Option.ne_none_iff_exists'.mp own
      have opened := openConnection_sameLinks locked now dial
      rwa [assign_of_own held] at opened

theorem asked_sameLinks {pool : Pool} {event : PoolEvent} {owner : Nat} {now : Int}
    (asked : pool.asks event = some (owner, now)) : (pool.dbs owner).conn = none ∧
      (stored (pool.getConnection owner now) owner).SameLinks (pool.apply event) := by
  cases event with
  | openConnection db clock dial =>
      obtain ⟨⟨unlocked, free⟩, same⟩ := Option.ite_none_right_eq_some.mp asked
      obtain ⟨rfl, rfl⟩ := Prod.mk.inj (Option.some.inj same)
      have opened := openConnection_sameLinks unlocked clock dial
      rw [assign_of_free free] at opened
      exact ⟨free, opened.trans (hold_sameLinks _)⟩
  | begin db clock dial reply =>
      obtain ⟨⟨unlocked, free⟩, same⟩ := Option.ite_none_right_eq_some.mp asked
      obtain ⟨rfl, rfl⟩ := Prod.mk.inj (Option.some.inj same)
      have opened := openConnection_sameLinks unlocked clock dial
      rw [assign_of_free free] at opened
      exact ⟨free, opened.trans (begin_sameLinks pool db clock dial reply)⟩
  | connect db timedOut clock dial =>
      obtain ⟨⟨rfl, free⟩, same⟩ := Option.ite_none_right_eq_some.mp asked
      obtain ⟨rfl, rfl⟩ := Prod.mk.inj (Option.some.inj same)
      have connected := connect_sameLinks pool db clock dial
      rw [assign_of_free free] at connected
      exact ⟨free, connected.trans (hold_sameLinks _)⟩
  | dropHeld => cases asked
  | keepLock => cases asked
  | endTransaction => cases asked
  | began => cases asked
  | ended => cases asked
  | close => cases asked
  | count => cases asked

theorem unasked_sameLinks {pool : Pool} {event : PoolEvent} (unasked : pool.asks event = none)
    (notClose : ∀ db now reply, event ≠ .close db now reply) (notCount : ∀ now, event ≠ .count now) :
    pool.SameLinks (pool.apply event) := by
  cases event with
  | openConnection db now dial =>
      have kept := by simpa [asks] using unasked
      exact (openConnection_own_sameLinks (by simpa using kept) now dial).trans (hold_sameLinks _)
  | begin db now dial reply =>
      have kept := by simpa [asks] using unasked
      exact (openConnection_own_sameLinks (by simpa using kept) now dial).trans
        (begin_sameLinks pool db now dial reply)
  | connect db timedOut now dial =>
      refine SameLinks.trans ?_ (hold_sameLinks _)
      cases timedOut with
      | true => exact .refl pool
      | false =>
          have own : (pool.dbs db).conn ≠ none := by simpa [asks] using unasked
          obtain ⟨conn, held⟩ := Option.ne_none_iff_exists'.mp own
          have connected := connect_sameLinks pool db now dial
          rwa [assign_of_own held] at connected
  | dropHeld lock now =>
      simp only [apply]
      split
      · have dropped := dropLock_sameLinks { pool with held := pool.held.erase lock } lock now
        exact ⟨dropped.cons, dropped.owner, dropped.conn, dropped.nextId⟩
      · exact .refl pool
  | keepLock db lock now =>
      simp only [apply]
      split
      · exact (copyLock_sameLinks pool lock).trans (setLock_sameLinks _ _ _ _)
      · exact .refl pool
  | endTransaction db now reply => exact (transaction_sameLinks pool db now reply).1
  | began db now reply => exact (transaction_sameLinks pool db now reply).2.1
  | ended db now reply => exact (transaction_sameLinks pool db now reply).2.2
  | close db now reply => exact absurd rfl (notClose db now reply)
  | count now => exact absurd rfl (notCount now)

theorem close_conn_none_iff (pool : Pool) (closed : Nat) (now : Int) (reply : Bool) (db : Nat) :
    ((pool.close closed now reply).dbs db).conn = none ↔ (pool.dbs db).conn = none ∨
      closed = db ∧ ∀ conn, (pool.dbs db).conn = some conn →
        (pool.mem conn).isInTransaction = true → reply = true := by
  unfold close
  cases held : (pool.dbs closed).conn with
  | none =>
      rw [iff_self_or]
      rintro ⟨rfl, _⟩
      exact held
  | some conn =>
      have returns := (pool.mem conn).release_returns_iff now reply
      by_cases same : db = closed
      · subst closed
        dsimp only
        split
        next returned => simpa [setConn, held] using returns.mp returned
        next thrown =>
          rw [returns] at thrown
          simp [modify, held, thrown]
      · have other : ∀ next : Pool, (next.dbs db).conn = (pool.dbs db).conn →
            ((next.dbs db).conn = none ↔ (pool.dbs db).conn = none ∨ closed = db ∧ ∀ conn,
              (pool.dbs db).conn = some conn → (pool.mem conn).isInTransaction = true →
                reply = true) := by
          intro next kept
          rw [kept]
          simp [Ne.symm same]
        apply other
        dsimp only
        split
        · simp [setConn, modify, Function.update_of_ne same]
        · rfl

theorem stored_conn_ne_none_iff (pool : Pool) (owner : Nat) (now : Int) (db : Nat)
    (free : (pool.dbs owner).conn = none) :
    ((stored (pool.getConnection owner now) owner).dbs db).conn ≠ none ↔
      owner = db ∧ pool.Grants now ∨
        (pool.dbs db).conn ≠ none ∧ ¬ (pool.CleansUp now db ∨ pool.Steals now db) := by
  have others := pool.getConnection_conn_none_iff owner now db
  have grants := pool.getConnection_grants_iff owner now
  unfold stored
  cases result : (pool.getConnection owner now).2 with
  | none =>
      rw [result] at grants
      have refused : ¬ pool.Grants now := by
        rw [← grants]
        simp
      simp only [ne_eq, others, refused, and_false, false_or, not_or]
  | some conn =>
      rw [result] at grants
      have granted : pool.Grants now := grants.mp (by simp)
      by_cases same : db = owner
      · subst owner
        simp [setConn, granted]
      · simp only [setConn, Function.update_of_ne same, ne_eq, others, Ne.symm same, false_and,
          false_or, not_or]

theorem takes_iff_asked {pool : Pool} {db : Nat} {event : PoolEvent}
    (notClose : ∀ db now reply, event ≠ .close db now reply) (notCount : ∀ now, event ≠ .count now) :
    pool.Takes db event ↔ ∃ owner now, pool.asks event = some (owner, now) ∧
      (pool.CleansUp now db ∨ pool.Steals now db) := by
  cases event with
  | close db now reply => exact absurd rfl (notClose db now reply)
  | count now => exact absurd rfl (notCount now)
  | openConnection | begin | connect => rfl
  | dropHeld | keepLock | endTransaction | began | ended => rfl

theorem not_gives_unasked {pool : Pool} {db : Nat} {event : PoolEvent}
    (unasked : pool.asks event = none) : ¬ pool.Gives db event := by
  rintro ⟨now, asked, _⟩
  rw [unasked] at asked
  cases asked

theorem apply_conn_ne_none_iff (pool : Pool) (event : PoolEvent) (db : Nat) :
    ((pool.apply event).dbs db).conn ≠ none ↔
      pool.Gives db event ∨ (pool.dbs db).conn ≠ none ∧ ¬ pool.Takes db event := by
  by_cases isClose : ∃ closed now reply, event = .close closed now reply
  · obtain ⟨closed, now, reply, rfl⟩ := isClose
    rw [or_iff_right (not_gives_unasked rfl), apply, ne_eq, close_conn_none_iff, not_or]
    rfl
  by_cases isCount : ∃ now, event = .count now
  · obtain ⟨now, rfl⟩ := isCount
    rw [or_iff_right (not_gives_unasked rfl), apply, ne_eq]
    simp only [getOpenedConnectionCount, cleanup_conn_none_iff, not_or]
    rfl
  · have notClose : ∀ closed now reply, event ≠ .close closed now reply :=
      fun closed now reply same => isClose ⟨closed, now, reply, same⟩
    have notCount : ∀ now, event ≠ .count now := fun now same => isCount ⟨now, same⟩
    rw [takes_iff_asked notClose notCount]
    cases asked : pool.asks event with
    | none =>
        rw [or_iff_right (not_gives_unasked asked),
          (unasked_sameLinks asked notClose notCount).conn]
        simp
    | some call =>
        obtain ⟨owner, now⟩ := call
        obtain ⟨free, same⟩ := asked_sameLinks asked
        rw [same.conn, stored_conn_ne_none_iff pool owner now db free]
        simp only [Gives, asked, Option.some.injEq, Prod.mk.injEq]
        refine or_congr ?_ (and_congr_right fun _ => not_congr ?_)
        · constructor
          · rintro ⟨rfl, grants⟩
            exact ⟨now, ⟨rfl, rfl⟩, grants⟩
          · rintro ⟨_, ⟨rfl, rfl⟩, grants⟩
            exact ⟨rfl, grants⟩
        · constructor
          · intro lost
            exact ⟨owner, now, ⟨rfl, rfl⟩, lost⟩
          · rintro ⟨_, _, ⟨rfl, rfl⟩, lost⟩
            exact lost

end Pool

end PqAsync
