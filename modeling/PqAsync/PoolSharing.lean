import PqAsync.PoolHolders
import PqAsync.PoolCleanup
import PqAsync.PoolLocks

/-!
Which runs of a pool let two databases point to one connection.
-/

namespace PqAsync

namespace Pool

def Unshared (pool : Pool) : Prop :=
  ∀ db other conn, (pool.dbs db).conn = some conn → (pool.dbs other).conn = some conn → db = other

/-- The owner of a connection points to it; that is so in every run, while a connection that a
database points to may be without an owner. -/
structure Owned (pool : Pool) : Prop where
  backed : Matching.Backed pool.conns pool.owners
  allocated : pool.Allocated

theorem Owned.held {pool : Pool} (owned : pool.Owned) {conn db : Nat} (inPool : conn ∈ pool.cons)
    (owner : (pool.mem conn).owner = some db) : (pool.dbs db).conn = some conn :=
  owned.backed db conn (owners_eq_some.mpr ⟨inPool, owner⟩)

theorem SameLinks.owned {pool next : Pool} (same : pool.SameLinks next) (owned : pool.Owned) :
    next.Owned := by
  constructor
  · rw [same.conns_eq, same.owners_eq]
    exact owned.backed
  · exact same.allocated owned.allocated

theorem Owned.cleanupAt {pool : Pool} (owned : pool.Owned) (now : Int) (i : Nat) :
    (pool.cleanupAt now i).Owned := by
  refine ⟨?_, owned.allocated.cleanupAt now i⟩
  obtain ⟨same, _⟩ | ⟨conn, found, _, removed⟩ := pool.cleanupAt_cases now i
  · rw [same]
    exact owned.backed
  · have inPool := List.mem_of_getElem? found
    rw [removed, owners_eraseIdx owned.allocated found]
    change Matching.Backed (pool.detachOwner conn).conns _
    rw [conns_detachOwner]
    cases owner : (pool.mem conn).owner with
    | none => exact owned.backed.forget conn
    | some db => exact owned.backed.unlink (owned.held inPool owner)

theorem Owned.cleanup {pool : Pool} (owned : pool.Owned) (now : Int) : (pool.cleanup now).Owned :=
  cleanup_induction Owned (fun _ i owned => owned.cleanupAt now i) owned

theorem Owned.steal {pool : Pool} (owned : pool.Owned) {db : Nat}
    (free : (pool.dbs db).conn = none) (now : Int) : (stored (pool.steal db now) db).Owned := by
  have allocated := owned.allocated.steal db now
  obtain ⟨conn, inPool, _, stolen⟩ | ⟨_, refused⟩ := pool.steal_cases db now
  · have reserved := modify_sameLinks ((pool.detachOwner conn).setOwner conn db) conn
      (·.reserve now) rfl
    have same : (((pool.detachOwner conn).setOwner conn db).setConn db (some conn)).SameLinks
        (stored (pool.steal db now) db) := by
      rw [stolen]
      exact ⟨rfl, reserved.owner, fun _ => rfl, rfl⟩
    refine ⟨?_, ?_⟩
    · rw [same.conns_eq, same.owners_eq, conns_setConn, owners_setConn, conns_setOwner,
        owners_setOwner (by rw [detachOwner_cons]; exact inPool)]
      have detached : (pool.detachOwner conn).owners = pool.owners := by
        funext other
        simp [Pool.owners]
      rw [detached, conns_detachOwner]
      cases owner : (pool.mem conn).owner with
      | none => exact owned.backed.link free conn
      | some old =>
          have unlinked := owned.backed.unlink (owned.held inPool owner)
          have different : db ≠ old := by
            rintro rfl
            have held := owned.held inPool owner
            rw [free] at held
            cases held
          have moved := unlinked.link (l := db)
            (by rw [Function.update_of_ne different]; exact free) conn
          simpa only [Function.update_idem] using moved
    · rw [stolen] at allocated ⊢
      exact allocated.sameLinks_setConn db _
  · rw [refused]
    exact owned.cleanup now

theorem Owned.getConnection {pool : Pool} (owned : pool.Owned) {db : Nat}
    (free : (pool.dbs db).conn = none) (now : Int) :
    (stored (pool.getConnection db now) db).Owned := by
  have clean := owned.cleanup now
  have cleanFree := cleanup_conn_none free now
  have allocated := owned.allocated.getConnection db now
  obtain ⟨_, step⟩ | ⟨conn, found, _, _, step⟩ | ⟨_, _, _, step⟩ | ⟨_, _, step⟩ :=
    pool.getConnection_cases db now
  · rw [step] at allocated ⊢
    generalize pool.cleanup now = pool at clean cleanFree allocated ⊢
    have locked := lock_sameLinks (pool.create now) pool.nextId now
    refine ⟨?_, allocated.sameLinks_setConn db _⟩
    dsimp only [stored]
    rw [conns_setConn, owners_setConn, conns_setOwner,
      owners_setOwner (by simp [lock, modify, create]), locked.conns_eq, locked.owners_eq,
      clean.allocated.owners_create]
    exact clean.backed.link cleanFree _
  · rw [step] at allocated ⊢
    generalize pool.cleanup now = pool at clean cleanFree allocated found ⊢
    have inPool : conn ∈ (pool.lock conn now).cons := List.mem_of_find?_eq_some found
    have same := lock_sameLinks pool conn now
    refine ⟨?_, allocated.sameLinks_setConn db _⟩
    dsimp only [stored]
    rw [conns_setConn, owners_setConn, conns_setOwner, owners_setOwner inPool, same.conns_eq,
      same.owners_eq]
    exact clean.backed.link cleanFree _
  · rw [step] at allocated ⊢
    generalize pool.cleanup now = pool at clean cleanFree allocated ⊢
    have locked := lock_sameLinks (pool.create now) pool.nextId now
    refine ⟨?_, allocated.sameLinks_setConn db _⟩
    dsimp only [stored]
    rw [conns_setConn, owners_setConn, locked.conns_eq, locked.owners_eq,
      clean.allocated.owners_create]
    exact clean.backed.hold cleanFree _
  · rw [step]
    exact clean.steal cleanFree now

theorem Owned.close {pool : Pool} (owned : pool.Owned) (db : Nat) (now : Int) (reply : Bool) :
    (pool.close db now reply).Owned := by
  refine ⟨?_, owned.allocated.close db now reply⟩
  unfold Pool.close
  split
  · exact owned.backed
  · rename_i conn held
    have released : (pool.modify conn fun conn => (conn.release now reply).1).owners =
        Function.update pool.owners conn none := by
      funext other
      by_cases same : other = conn
      · subst other
        have noOwner : ((pool.mem conn).release now reply).1.owner = none := by
          simp only [Connection.release]
          split
          · rfl
          · split <;> rfl
        simp [owners, modify, noOwner]
      · simp [owners, modify, Function.update_of_ne same]
    dsimp only
    split
    · rw [conns_setConn, owners_setConn, released]
      exact owned.backed.unlink held
    · rw [released]
      exact owned.backed.forget conn

theorem Owned.apply {pool : Pool} (owned : pool.Owned) (event : PoolEvent) :
    (pool.apply event).Owned := by
  by_cases isClose : ∃ db now reply, event = .close db now reply
  · obtain ⟨db, now, reply, rfl⟩ := isClose
    exact owned.close db now reply
  by_cases isCount : ∃ now, event = .count now
  · obtain ⟨now, rfl⟩ := isCount
    exact owned.cleanup now
  · cases asked : pool.asks event with
    | none =>
        have same := unasked_sameLinks asked (fun db now reply same => isClose ⟨db, now, reply, same⟩)
          fun now same => isCount ⟨now, same⟩
        exact same.owned owned
    | some call =>
        obtain ⟨owner, now⟩ := call
        obtain ⟨free, same⟩ := asked_sameLinks asked
        exact same.owned (owned.getConnection free now)

theorem initial_owned (maxConn : Nat) : (initial maxConn).Owned := by
  refine ⟨?_, initial_allocated maxConn⟩
  intro db conn owner
  simp [owners, initial] at owner

theorem Owned.cleanup_conn_some_iff {pool : Pool} (owned : pool.Owned) {now : Int} {conn : Nat}
    (survived : conn ∈ (pool.cleanup now).cons) (db : Nat) :
    ((pool.cleanup now).dbs db).conn = some conn ↔ (pool.dbs db).conn = some conn := by
  constructor
  · exact cleanup_conn_some
  · intro held
    have some_ : ((pool.cleanup now).dbs db).conn ≠ none := by
      rw [ne_eq, cleanup_conn_none_iff]
      rintro (free | ⟨dead, later, isDead, owner⟩)
      · rw [held] at free
        cases free
      · have inPool := List.mem_of_mem_drop later
        have same := owned.held inPool owner
        rw [held, Option.some.injEq] at same
        subst dead
        rw [cleanup_cons] at survived
        exact (owned.allocated.notMem_survivors_iff now inPool).mpr ⟨later, isDead⟩ survived
    obtain ⟨other, kept⟩ := Option.ne_none_iff_exists'.mp some_
    have same := cleanup_conn_some kept
    rw [held] at same
    rw [kept, ← same]

/-- A connection is handed out while no database points to it, or it is stolen, from its owner,
while no other database points to it. -/
def HandsOutFree (pool : Pool) (event : PoolEvent) : Prop :=
  ∀ owner now conn, pool.asks event = some (owner, now) →
    (pool.getConnection owner now).2 = some conn → ∀ other, (pool.dbs other).conn = some conn →
      (pool.mem conn).owner = some other ∧ pool.maxConn ≤ (pool.survivors now).length

section

variable {pool : Pool}

theorem Owned.getConnection_conn_some_iff (owned : pool.Owned) (known : pool.Known)
    {owner conn : Nat} {now : Int} (got : (pool.getConnection owner now).2 = some conn)
    (other : Nat) :
    ((pool.getConnection owner now).1.dbs other).conn = some conn ↔
      (pool.dbs other).conn = some conn ∧
        ¬ ((pool.mem conn).owner = some other ∧ pool.maxConn ≤ (pool.survivors now).length) := by
  have fresh : (pool.cleanup now).nextId = conn → (pool.dbs other).conn ≠ some conn := by
    intro isNew held
    have below := known.conn other conn held
    rw [← isNew, (pool.cleanup_frame now).2.1] at below
    exact Nat.lt_irrefl _ below
  have size : (pool.survivors now).length = (pool.cleanup now).cons.length := by
    rw [cleanup_cons]
  have created : (pool.cleanup now).nextId = conn →
      ((((pool.cleanup now).dbs other).conn = some conn) ↔ (pool.dbs other).conn = some conn ∧
        ¬ ((pool.mem conn).owner = some other ∧ pool.maxConn ≤ (pool.survivors now).length)) := by
    intro isNew
    have absent := fresh isNew
    exact iff_of_false (fun held => absent (cleanup_conn_some held)) fun both => absent both.1
  obtain ⟨_, step⟩ | ⟨found, isFound, room, _, step⟩ | ⟨_, _, _, step⟩ | ⟨_, full, step⟩ :=
    pool.getConnection_cases owner now
  · rw [step] at got ⊢
    exact created (Option.some.inj got)
  · rw [step] at got ⊢
    obtain rfl := Option.some.inj got
    have kept := owned.cleanup_conn_some_iff (List.mem_of_find?_eq_some isFound) other
    have notFull : ¬ pool.maxConn ≤ (pool.survivors now).length := by
      rw [size, ← cleanup_maxConn pool now]
      exact Nat.not_le.mpr room
    simp only [notFull, and_false, not_false_eq_true, and_true]
    exact kept
  · rw [step] at got ⊢
    exact created (Option.some.inj got)
  · rw [step] at got ⊢
    rw [cleanup_maxConn, ← size] at full
    obtain ⟨stolen, inPool, _, took⟩ | ⟨_, refused⟩ := (pool.cleanup now).steal_cases owner now
    · rw [took] at got ⊢
      obtain rfl := Option.some.inj got
      have kept := owned.cleanup_conn_some_iff inPool other
      have mem : ((pool.cleanup now).mem stolen).owner = (pool.mem stolen).owner := by
        rw [(pool.cleanup_frame now).1]
      simp only [full, and_true]
      rw [← kept, ← mem]
      change (pool.cleanup now |>.detachOwner stolen).conns other = some stolen ↔ _
      rw [conns_detachOwner]
      cases old : ((pool.cleanup now).mem stolen).owner with
      | none => simp [conns]
      | some holder =>
          by_cases same : other = holder
          · subst other
            simp
          · simp [conns, same, Ne.symm same]
    · rw [refused] at got
      cases got

theorem unshared_of_conns {next : Pool} (unshared : pool.Unshared)
    (less : ∀ db conn, (next.dbs db).conn = some conn → (pool.dbs db).conn = some conn) :
    next.Unshared :=
  fun db other conn left right => unshared db other conn (less db conn left) (less other conn right)

theorem close_conn_some {db other conn : Nat} {now : Int} {reply : Bool}
    (held : ((pool.close db now reply).dbs other).conn = some conn) :
    (pool.dbs other).conn = some conn := by
  unfold close at held
  split at held
  · exact held
  · dsimp only at held
    split at held
    · by_cases same : other = db
      · subst other
        simp [setConn] at held
      · simpa [setConn, same, modify] using held
    · exact held

theorem Owned.unshared_iff (owned : pool.Owned) (known : pool.Known) (unshared : pool.Unshared)
    (event : PoolEvent) : (pool.apply event).Unshared ↔ pool.HandsOutFree event := by
  cases asked : pool.asks event with
  | none =>
      refine iff_of_true ?_ ?_
      · by_cases isClose : ∃ db now reply, event = .close db now reply
        · obtain ⟨db, now, reply, rfl⟩ := isClose
          exact unshared_of_conns unshared fun _ _ held => close_conn_some held
        by_cases isCount : ∃ now, event = .count now
        · obtain ⟨now, rfl⟩ := isCount
          exact unshared_of_conns unshared fun _ _ held => cleanup_conn_some held
        · have same := unasked_sameLinks asked
            (fun db now reply same => isClose ⟨db, now, reply, same⟩)
            fun now same => isCount ⟨now, same⟩
          exact unshared_of_conns unshared fun db conn held => (same.conn db) ▸ held
      · intro owner now conn asks
        rw [asked] at asks
        cases asks
  | some call =>
      obtain ⟨owner, now⟩ := call
      obtain ⟨free, same⟩ := asked_sameLinks asked
      have stays : (pool.apply event).Unshared ↔
          (stored (pool.getConnection owner now) owner).Unshared := by
        simp only [Unshared, same.conn]
      have only : pool.HandsOutFree event ↔ ∀ conn, (pool.getConnection owner now).2 = some conn →
          ∀ other, ((pool.getConnection owner now).1.dbs other).conn ≠ some conn := by
        constructor
        · intro free conn got other held
          rw [owned.getConnection_conn_some_iff known got] at held
          exact held.2 (free owner now conn asked got other held.1)
        · intro none_ asker clock conn asks got other held
          rw [asked, Option.some.injEq, Prod.mk.injEq] at asks
          obtain ⟨rfl, rfl⟩ := asks
          by_contra stays
          exact none_ conn got other
            ((owned.getConnection_conn_some_iff known got other).mpr ⟨held, stays⟩)
      have before : (pool.getConnection owner now).1.Unshared :=
        unshared_of_conns unshared fun _ _ held => getConnection_conn_some held
      have ownFree : ((pool.getConnection owner now).1.dbs owner).conn = none := by
        by_contra some_
        obtain ⟨conn, held⟩ := Option.ne_none_iff_exists'.mp some_
        rw [getConnection_conn_some held] at free
        cases free
      rw [stays, only]
      unfold stored
      cases got : (pool.getConnection owner now).2 with
      | none => simpa using before
      | some conn =>
          simp only [Option.some.injEq, forall_eq']
          constructor
          · intro apart other held
            have different : other ≠ owner := by
              rintro rfl
              rw [ownFree] at held
              cases held
            exact different (apart other owner conn
              (by simpa [setConn, different] using held) (by simp [setConn]))
          · intro nobody
            have own : ∀ db taken, (((pool.getConnection owner now).1.setConn owner
                (some conn)).dbs db).conn = some taken → db = owner ∧ taken = conn ∨
                  db ≠ owner ∧ taken ≠ conn ∧
                    ((pool.getConnection owner now).1.dbs db).conn = some taken := by
              intro db taken held
              by_cases mine : db = owner
              · subst db
                left
                exact ⟨rfl, by simpa [setConn] using held.symm⟩
              · right
                have kept : ((pool.getConnection owner now).1.dbs db).conn = some taken := by
                  simpa [setConn, mine] using held
                exact ⟨mine, fun given => nobody db (given ▸ kept), kept⟩
            intro db other taken left right
            rcases own db taken left with ⟨mine, given⟩ | ⟨_, notGiven, held⟩
            · rcases own other taken right with ⟨also, _⟩ | ⟨_, notGiven, _⟩
              · rw [mine, also]
              · exact absurd given notGiven
            · rcases own other taken right with ⟨_, given⟩ | ⟨_, _, heldToo⟩
              · exact absurd given notGiven
              · exact before db other taken held heldToo

end

theorem initial_unshared (maxConn : Nat) : (initial maxConn).Unshared := by
  intro db other conn held
  simp [initial] at held

/-- No two databases share a connection in any state of a run exactly if every connection that
the run hands out is one to which no database keeps pointing. -/
theorem never_shared_iff (maxConn : Nat) (events : List PoolEvent) :
    (∀ reached, reached <+: events → (Runs.run apply (initial maxConn) reached).Unshared) ↔
      Runs.Meets apply HandsOutFree (initial maxConn) events := by
  apply Runs.always_good_iff_meets
    (fun pool event (held : pool.Owned ∧ pool.Counted ∧ pool.Known) =>
      ⟨held.1.apply event, held.2.1.apply event, held.2.2.apply held.2.1 event⟩)
    (fun pool event held unshared => held.1.unshared_iff held.2.2 unshared event)
  · exact ⟨initial_owned maxConn, initial_counted maxConn, initial_known maxConn⟩
  · exact initial_unshared maxConn

end Pool

end PqAsync
