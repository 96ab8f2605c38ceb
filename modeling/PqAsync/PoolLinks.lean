import PqAsync.PoolSteps
import PqAsync.Library.Matching
import Mathlib.Data.List.Induction
import Mathlib.Data.List.Nodup

/-!
The two ends of the links between the databases and the connections of a pool, and the
steps that keep them inverse to each other.
-/

namespace PqAsync

namespace Pool

def conns (pool : Pool) (db : Nat) : Option Nat := (pool.dbs db).conn

def owners (pool : Pool) (conn : Nat) : Option Nat :=
  if conn ∈ pool.cons then (pool.mem conn).owner else none

structure Linked (pool : Pool) : Prop where
  held : ∀ db conn, (pool.dbs db).conn = some conn →
    conn ∈ pool.cons ∧ (pool.mem conn).owner = some db
  owned : ∀ conn ∈ pool.cons, ∀ db, (pool.mem conn).owner = some db →
    (pool.dbs db).conn = some conn

structure Allocated (pool : Pool) : Prop where
  nodup : pool.cons.Nodup
  below : ∀ conn ∈ pool.cons, conn < pool.nextId

structure SameLinks (pool next : Pool) : Prop where
  cons : next.cons = pool.cons
  owner : ∀ conn, (next.mem conn).owner = (pool.mem conn).owner
  conn : ∀ db, (next.dbs db).conn = (pool.dbs db).conn
  nextId : next.nextId = pool.nextId

theorem owners_eq_some {pool : Pool} {conn db : Nat} :
    pool.owners conn = some db ↔ conn ∈ pool.cons ∧ (pool.mem conn).owner = some db := by
  unfold owners
  split <;> simp_all

theorem linked_iff_inverse (pool : Pool) :
    pool.Linked ↔ Matching.Inverse pool.conns pool.owners := by
  constructor
  · intro linked db conn
    rw [owners_eq_some]
    exact ⟨linked.held db conn, fun owned => linked.owned conn owned.1 db owned.2⟩
  · intro inverse
    exact ⟨fun db conn held => owners_eq_some.mp ((inverse db conn).mp held),
      fun conn inPool db owned => (inverse db conn).mpr (owners_eq_some.mpr ⟨inPool, owned⟩)⟩

theorem Linked.unshared {pool : Pool} (linked : pool.Linked) {db other conn : Nat}
    (first : (pool.dbs db).conn = some conn) (second : (pool.dbs other).conn = some conn) :
    db = other :=
  ((linked_iff_inverse pool).mp linked).unshared first second

namespace SameLinks

theorem refl (pool : Pool) : pool.SameLinks pool :=
  ⟨rfl, fun _ => rfl, fun _ => rfl, rfl⟩

theorem trans {first second third : Pool} (left : first.SameLinks second)
    (right : second.SameLinks third) : first.SameLinks third :=
  ⟨right.cons.trans left.cons, fun conn => (right.owner conn).trans (left.owner conn),
    fun db => (right.conn db).trans (left.conn db), right.nextId.trans left.nextId⟩

theorem conns_eq {pool next : Pool} (same : pool.SameLinks next) : next.conns = pool.conns :=
  funext same.conn

theorem owners_eq {pool next : Pool} (same : pool.SameLinks next) :
    next.owners = pool.owners := by
  funext conn
  simp only [owners, same.cons, same.owner]

theorem linked_iff {pool next : Pool} (same : pool.SameLinks next) :
    next.Linked ↔ pool.Linked := by
  rw [linked_iff_inverse, linked_iff_inverse, same.conns_eq, same.owners_eq]

theorem allocated {pool next : Pool} (same : pool.SameLinks next) (allocated : pool.Allocated) :
    next.Allocated := by
  refine ⟨?_, ?_⟩
  · rw [same.cons]
    exact allocated.nodup
  · rw [same.cons, same.nextId]
    exact allocated.below

end SameLinks

theorem modify_sameLinks (pool : Pool) (conn : Nat) (change : Connection → Connection)
    (keeps : (change (pool.mem conn)).owner = (pool.mem conn).owner) :
    pool.SameLinks (pool.modify conn change) := by
  refine ⟨rfl, fun other => ?_, fun _ => rfl, rfl⟩
  by_cases same : other = conn
  · subst other
    simpa [modify] using keeps
  · simp [modify, Function.update_of_ne same]

theorem dropLock_sameLinks (pool : Pool) (lock : Nat) (now : Int) :
    pool.SameLinks (pool.dropLock lock now) := by
  have counted : pool.SameLinks { pool with
      locks := Function.update pool.locks lock
        { pool.locks lock with uses := (pool.locks lock).uses - 1 } } :=
    ⟨rfl, fun _ => rfl, fun _ => rfl, rfl⟩
  simp only [dropLock]
  split
  · exact counted.trans (modify_sameLinks _ _ _ rfl)
  · exact counted

theorem copyLock_sameLinks (pool : Pool) (lock : Nat) : pool.SameLinks (pool.copyLock lock) :=
  ⟨rfl, fun _ => rfl, fun _ => rfl, rfl⟩

theorem locked_sameLinks (pool : Pool) (conn : Nat) (now : Int) :
    pool.SameLinks (pool.locked conn now) := by
  have same := modify_sameLinks pool conn (·.startWork now) (by simp)
  exact ⟨same.cons, same.owner, same.conn, same.nextId⟩

theorem setLock_sameLinks (pool : Pool) (db : Nat) (lock : Option Nat) (now : Int) :
    pool.SameLinks (pool.setLock db lock now) := by
  have moved : pool.SameLinks
      { pool with dbs := Function.update pool.dbs db { pool.dbs db with lock } } := by
    refine ⟨rfl, fun _ => rfl, fun other => ?_, rfl⟩
    by_cases same : other = db
    · subst other
      simp
    · simp [Function.update_of_ne same]
  simp only [setLock]
  split
  · exact moved.trans (dropLock_sameLinks _ _ _)
  · exact moved

theorem hold_sameLinks (result : Pool × Option Nat) : result.1.SameLinks (hold result) :=
  ⟨rfl, fun _ => rfl, fun _ => rfl, rfl⟩

theorem transaction_sameLinks (pool : Pool) (db : Nat) (now : Int) (reply : Bool) :
    pool.SameLinks (pool.endTransaction db now reply) ∧
      pool.SameLinks (pool.began db now reply) ∧ pool.SameLinks (pool.ended db now reply) := by
  apply transaction_induction
  · intro next conn change keeps same
    exact same.trans (modify_sameLinks next conn change (keeps _).1)
  · intro next db now same
    exact same.trans (setLock_sameLinks next db none now)
  · exact .refl pool

@[simp] theorem conns_setConn (pool : Pool) (db : Nat) (conn : Option Nat) :
    (pool.setConn db conn).conns = Function.update pool.conns db conn := by
  funext other
  by_cases same : other = db
  · subst other
    simp [conns, setConn]
  · simp [conns, setConn, Function.update_of_ne same]

@[simp] theorem owners_setConn (pool : Pool) (db : Nat) (conn : Option Nat) :
    (pool.setConn db conn).owners = pool.owners := rfl

theorem owners_setOwner {pool : Pool} {conn : Nat} (inPool : conn ∈ pool.cons) (db : Nat) :
    (pool.setOwner conn db).owners = Function.update pool.owners conn (some db) := by
  funext other
  by_cases same : other = conn
  · subst other
    simp [owners, setOwner, modify, inPool]
  · simp [owners, setOwner, modify, Function.update_of_ne same]

@[simp] theorem conns_setOwner (pool : Pool) (conn db : Nat) :
    (pool.setOwner conn db).conns = pool.conns := rfl

theorem lock_sameLinks (pool : Pool) (conn : Nat) (now : Int) :
    pool.SameLinks (pool.lock conn now) :=
  modify_sameLinks pool conn (fun conn => (conn.lock now).1) (by simp)

theorem Allocated.create {pool : Pool} (allocated : pool.Allocated) (now : Int) :
    (pool.create now).Allocated := by
  refine ⟨?_, ?_⟩
  · refine List.nodup_append.mpr ⟨allocated.nodup, List.nodup_singleton _, ?_⟩
    intro conn inPool other isNew same
    have bound := allocated.below conn inPool
    rw [same, List.mem_singleton.mp isNew] at bound
    exact Nat.lt_irrefl _ bound
  · intro conn inPool
    rcases List.mem_append.mp inPool with old | isNew
    · exact Nat.lt_succ_of_lt (allocated.below conn old)
    · rw [List.mem_singleton.mp isNew]
      exact Nat.lt_succ_self _

theorem Allocated.new_notMem {pool : Pool} (allocated : pool.Allocated) :
    pool.nextId ∉ pool.cons :=
  fun inPool => Nat.lt_irrefl _ (allocated.below _ inPool)

theorem Allocated.owners_create {pool : Pool} (allocated : pool.Allocated) (now : Int) :
    (pool.create now).owners = pool.owners := by
  funext conn
  by_cases same : conn = pool.nextId
  · subst conn
    simp [owners, Pool.create, allocated.new_notMem, Connection.new]
  · simp [owners, Pool.create, same]

def survivors (pool : Pool) (now : Int) : List Nat :=
  pool.cons.take 5 ++ (pool.cons.drop 5).filter fun conn => !(pool.mem conn).isDead now

theorem survivors_subset (pool : Pool) (now : Int) : pool.survivors now ⊆ pool.cons := by
  intro conn member
  rcases List.mem_append.mp member with first | later
  · exact List.mem_of_mem_take first
  · exact List.mem_of_mem_drop (List.mem_of_mem_filter later)

@[simp] theorem detachOwner_cons (pool : Pool) (conn : Nat) :
    (pool.detachOwner conn).cons = pool.cons := by
  unfold detachOwner
  split <;> rfl

@[simp] theorem detachOwner_mem (pool : Pool) (conn : Nat) :
    (pool.detachOwner conn).mem = pool.mem := by
  unfold detachOwner
  split <;> rfl

@[simp] theorem detachOwner_nextId (pool : Pool) (conn : Nat) :
    (pool.detachOwner conn).nextId = pool.nextId := by
  unfold detachOwner
  split <;> rfl

@[simp] theorem detachOwner_maxConn (pool : Pool) (conn : Nat) :
    (pool.detachOwner conn).maxConn = pool.maxConn := by
  unfold detachOwner
  split <;> rfl

theorem detachOwner_conn_none_iff (pool : Pool) (conn db : Nat) :
    ((pool.detachOwner conn).dbs db).conn = none ↔
      (pool.dbs db).conn = none ∨ (pool.mem conn).owner = some db := by
  unfold detachOwner
  split
  next owner owned =>
    rw [owned, Option.some.injEq]
    by_cases same : db = owner
    · subst owner
      simp [setConn]
    · simp [setConn, Function.update_of_ne same, Ne.symm same]
  next free => simp [free]

theorem cleanupAt_cases (pool : Pool) (now : Int) (i : Nat) :
    pool.cleanupAt now i = pool ∧ (∀ conn ∈ pool.cons[i]?, (pool.mem conn).isDead now = false) ∨
    ∃ conn, pool.cons[i]? = some conn ∧ (pool.mem conn).isDead now = true ∧
      pool.cleanupAt now i =
        { pool.detachOwner conn with cons := pool.cons.eraseIdx i } := by
  unfold cleanupAt
  cases found : pool.cons[i]? with
  | none => exact Or.inl ⟨rfl, fun _ impossible => by simp at impossible⟩
  | some conn =>
      dsimp only
      by_cases dead : (pool.mem conn).isDead now = true
      · refine Or.inr ⟨conn, rfl, dead, ?_⟩
        rw [if_pos dead, detachOwner_cons]
      · refine Or.inl ⟨if_neg dead, fun other same => ?_⟩
        rw [← Option.some.inj same]
        simpa using dead

theorem cleanup_induction (inv : Pool → Prop) {now : Int}
    (round : ∀ pool i, inv pool → inv (pool.cleanupAt now i)) {pool : Pool}
    (start : inv pool) : inv (pool.cleanup now) := by
  unfold cleanup
  generalize pool.cons.length - 5 = count
  induction count generalizing pool with
  | zero => exact start
  | succ count ih => exact ih (round pool (count + 5) start)

theorem cleanupAt_frame (pool : Pool) (now : Int) (i : Nat) :
    (pool.cleanupAt now i).mem = pool.mem ∧ (pool.cleanupAt now i).nextId = pool.nextId ∧
      (pool.cleanupAt now i).maxConn = pool.maxConn := by
  obtain ⟨same, _⟩ | ⟨conn, _, _, removed⟩ := pool.cleanupAt_cases now i
  · rw [same]
    exact ⟨rfl, rfl, rfl⟩
  · rw [removed]
    exact ⟨by simp, by simp, by simp⟩

theorem cleanup_frame (pool : Pool) (now : Int) :
    (pool.cleanup now).mem = pool.mem ∧ (pool.cleanup now).nextId = pool.nextId ∧
      (pool.cleanup now).maxConn = pool.maxConn := by
  refine cleanup_induction (fun next => next.mem = pool.mem ∧ next.nextId = pool.nextId ∧
    next.maxConn = pool.maxConn) (fun next i kept => ?_) ⟨rfl, rfl, rfl⟩
  obtain ⟨mem, nextId, maxConn⟩ := next.cleanupAt_frame now i
  exact ⟨mem.trans kept.1, nextId.trans kept.2.1, maxConn.trans kept.2.2⟩

theorem cleanupAt_conn_none_iff (pool : Pool) (now : Int) (i db : Nat) :
    ((pool.cleanupAt now i).dbs db).conn = none ↔ (pool.dbs db).conn = none ∨
      ∃ conn, pool.cons[i]? = some conn ∧ (pool.mem conn).isDead now = true ∧
        (pool.mem conn).owner = some db := by
  obtain ⟨same, alive⟩ | ⟨conn, found, dead, removed⟩ := pool.cleanupAt_cases now i
  · rw [same, iff_self_or]
    rintro ⟨conn, found, dead, _⟩
    rw [alive conn found] at dead
    cases dead
  · rw [removed, show Pool.dbs _ = (pool.detachOwner conn).dbs from rfl,
      detachOwner_conn_none_iff]
    simp [found, dead]

theorem cleanup_conn_none {pool : Pool} {db : Nat} (free : (pool.dbs db).conn = none)
    (now : Int) : ((pool.cleanup now).dbs db).conn = none :=
  cleanup_induction (fun next => (next.dbs db).conn = none)
    (fun next i kept => (next.cleanupAt_conn_none_iff now i db).mpr (Or.inl kept)) free

theorem Allocated.cleanupAt {pool : Pool} (allocated : pool.Allocated) (now : Int) (i : Nat) :
    (pool.cleanupAt now i).Allocated := by
  obtain ⟨same, _⟩ | ⟨conn, _, _, removed⟩ := pool.cleanupAt_cases now i
  · rw [same]
    exact allocated
  · rw [removed]
    refine ⟨allocated.nodup.eraseIdx i, fun other inPool => ?_⟩
    rw [show Pool.nextId _ = pool.nextId from detachOwner_nextId pool conn]
    exact allocated.below other (List.mem_of_mem_eraseIdx inPool)

theorem Allocated.cleanup {pool : Pool} (allocated : pool.Allocated) (now : Int) :
    (pool.cleanup now).Allocated :=
  cleanup_induction Allocated (fun _ i allocated => allocated.cleanupAt now i) allocated

theorem conns_detachOwner (pool : Pool) (conn : Nat) :
    (pool.detachOwner conn).conns =
      match (pool.mem conn).owner with
      | some owner => Function.update pool.conns owner none
      | none => pool.conns := by
  unfold detachOwner
  cases (pool.mem conn).owner with
  | some owner => exact conns_setConn pool owner none
  | none => rfl

theorem owners_eraseIdx {pool : Pool} (allocated : pool.Allocated) {conn i : Nat}
    (found : pool.cons[i]? = some conn) :
    ({ pool.detachOwner conn with cons := pool.cons.eraseIdx i } : Pool).owners =
      Function.update pool.owners conn none := by
  have member (other : Nat) :
      other ∈ pool.cons.eraseIdx i ↔ other ∈ pool.cons ∧ other ≠ conn := by
    rw [List.mem_eraseIdx_iff_getElem?]
    constructor
    · rintro ⟨j, different, foundOther⟩
      refine ⟨List.mem_of_getElem? foundOther, fun same => different ?_⟩
      obtain ⟨bound, _⟩ := List.getElem?_eq_some_iff.mp foundOther
      exact (List.getElem?_inj bound allocated.nodup).mp (by rw [foundOther, found, same])
    · rintro ⟨inPool, different⟩
      obtain ⟨j, foundOther⟩ := List.mem_iff_getElem?.mp inPool
      refine ⟨j, fun same => different ?_, foundOther⟩
      rw [same, found] at foundOther
      exact (Option.some.inj foundOther).symm
  funext other
  simp only [owners, member, detachOwner_mem]
  by_cases same : other = conn
  · subst other
    simp
  · simp [same, owners]

theorem Linked.cleanupAt {pool : Pool} (linked : pool.Linked) (allocated : pool.Allocated)
    (now : Int) (i : Nat) : (pool.cleanupAt now i).Linked := by
  obtain ⟨same, _⟩ | ⟨conn, found, _, removed⟩ := pool.cleanupAt_cases now i
  · rw [same]
    exact linked
  · have inverse := (linked_iff_inverse pool).mp linked
    have inPool := List.mem_of_getElem? found
    have owners : pool.owners conn = (pool.mem conn).owner := if_pos inPool
    rw [removed, linked_iff_inverse, owners_eraseIdx allocated found]
    change Matching.Inverse (pool.detachOwner conn).conns _
    rw [conns_detachOwner]
    cases owner : (pool.mem conn).owner with
    | none =>
        have free : Function.update pool.owners conn none = pool.owners := by
          rw [← owner, ← owners, Function.update_eq_self]
        simpa only [free] using inverse
    | some db => exact inverse.unlink (linked.owned conn inPool db owner)

theorem Linked.cleanup {pool : Pool} (linked : pool.Linked) (allocated : pool.Allocated)
    (now : Int) : (pool.cleanup now).Linked :=
  (cleanup_induction (fun next => next.Linked ∧ next.Allocated)
    (fun _ i both => ⟨both.1.cleanupAt both.2 now i, both.2.cleanupAt now i⟩)
    ⟨linked, allocated⟩).1

theorem cleanupLoop_cons (now : Int) (kept middle tail : List Nat) (five : kept.length = 5)
    (pool : Pool) (shape : pool.cons = kept ++ middle ++ tail) :
    (cleanupLoop now middle.length pool).cons =
      kept ++ middle.filter (fun conn => !(pool.mem conn).isDead now) ++ tail := by
  induction middle using List.reverseRecOn generalizing pool tail with
  | nil => simpa [cleanupLoop] using shape
  | append_singleton middle conn ih =>
      have position : pool.cons[middle.length + 5]? = some conn := by
        rw [shape, List.append_assoc, List.append_assoc,
          List.getElem?_append_right (by omega), five, Nat.add_sub_cancel,
          List.getElem?_append_right (by omega), Nat.sub_self]
        rfl
      have mem := (pool.cleanupAt_frame now (middle.length + 5)).1
      rw [List.length_append, List.length_singleton, cleanupLoop]
      obtain ⟨same, alive⟩ | ⟨other, found, dead, removed⟩ :=
        pool.cleanupAt_cases now (middle.length + 5)
      · have living := alive conn position
        rw [same, ih (conn :: tail) pool (by simpa using shape)]
        simp [List.filter_append, living]
      · rw [position] at found
        rw [← Option.some.inj found] at dead
        have erased : (pool.cleanupAt now (middle.length + 5)).cons = kept ++ middle ++ tail := by
          rw [removed]
          change pool.cons.eraseIdx (middle.length + 5) = _
          rw [shape, List.append_assoc, List.append_assoc,
            List.eraseIdx_append_of_length_le (by omega), five, Nat.add_sub_cancel,
            List.eraseIdx_append_of_length_le (by omega), Nat.sub_self]
          simp
        rw [ih tail _ erased, mem]
        simp [List.filter_append, dead]

theorem cleanup_cons (pool : Pool) (now : Int) : (pool.cleanup now).cons = pool.survivors now := by
  unfold cleanup survivors
  by_cases small : pool.cons.length ≤ 5
  · rw [Nat.sub_eq_zero_of_le small, List.take_of_length_le small, List.drop_of_length_le small]
    simp [cleanupLoop]
  · have count : (pool.cons.drop 5).length = pool.cons.length - 5 := by simp
    have loop := cleanupLoop_cons now (pool.cons.take 5) (pool.cons.drop 5) []
      (by simp only [List.length_take]; omega) pool (by simp)
    rw [count] at loop
    simpa using loop

/-- When `get_connection` is called for a database without a connection, either the clean-up
leaves no connection, or as many as there may be, or the first connection that is not locked
has no owner. -/
def AssignSafe (pool : Pool) (db : Nat) (now : Int) : Prop :=
  (pool.dbs db).conn = none →
    let cons := pool.survivors now
    cons = [] ∨ pool.maxConn ≤ cons.length ∨
      ∃ conn ∈ cons.find? fun conn => (pool.mem conn).res = 0, (pool.mem conn).owner = none

theorem Allocated.sameLinks_setConn {pool : Pool} (allocated : pool.Allocated) (db : Nat)
    (conn : Option Nat) : (pool.setConn db conn).Allocated :=
  ⟨allocated.nodup, allocated.below⟩

theorem Allocated.steal {pool : Pool} (allocated : pool.Allocated) (owner : Nat) (now : Int) :
    (pool.steal owner now).1.Allocated := by
  unfold Pool.steal
  split
  · rename_i conn _
    refine ⟨?_, ?_⟩
    · change (pool.detachOwner conn).cons.Nodup
      rw [detachOwner_cons]
      exact allocated.nodup
    · change ∀ other ∈ (pool.detachOwner conn).cons, other < (pool.detachOwner conn).nextId
      rw [detachOwner_cons, detachOwner_nextId]
      exact allocated.below
  · exact allocated.cleanup now

theorem Allocated.getConnection {pool : Pool} (allocated : pool.Allocated) (owner : Nat)
    (now : Int) : (pool.getConnection owner now).1.Allocated := by
  have clean := allocated.cleanup now
  simp only [Pool.getConnection]
  split
  · exact ⟨(clean.create now).nodup, (clean.create now).below⟩
  · split
    · split
      · exact ⟨clean.nodup, clean.below⟩
      · exact ⟨(clean.create now).nodup, (clean.create now).below⟩
    · exact clean.steal owner now

theorem Allocated.assign {pool : Pool} (allocated : pool.Allocated) (db : Nat) (now : Int) :
    (pool.assign db now).1.Allocated := by
  have got := allocated.getConnection db now
  unfold Pool.assign
  split
  · exact allocated
  · split
    · rename_i result
      rw [result] at got
      exact got.sameLinks_setConn db _
    · rename_i result
      rw [result] at got
      exact got

def stored (result : Pool × Option Nat) (db : Nat) : Pool :=
  match result.2 with
  | some conn => result.1.setConn db (some conn)
  | none => result.1

theorem assign_of_own {pool : Pool} {db conn : Nat} (own : (pool.dbs db).conn = some conn)
    (now : Int) : pool.assign db now = (pool, some conn) := by
  simp only [assign, own]

theorem assign_of_free {pool : Pool} {db : Nat} (free : (pool.dbs db).conn = none) (now : Int) :
    (pool.assign db now).1 = stored (pool.getConnection db now) db := by
  simp only [assign, free]
  split
  · rename_i result
    simp [stored, result]
  · rename_i result
    simp [stored, result]

theorem assign_conn {pool : Pool} {db conn : Nat} {now : Int}
    (assigned : (pool.assign db now).2 = some conn) :
    ((pool.assign db now).1.dbs db).conn = some conn := by
  cases held : (pool.dbs db).conn with
  | some own =>
      simpa only [assign, held] using assigned
  | none =>
      simp only [assign, held] at assigned ⊢
      generalize pool.getConnection db now = got at assigned ⊢
      obtain ⟨next, given⟩ := got
      cases given with
      | none => cases assigned
      | some given => simpa [setConn] using assigned

theorem linked_setConn_iff (pool : Pool) (db conn : Nat) :
    (pool.setConn db (some conn)).Linked ↔
      Matching.Inverse (Function.update pool.conns db (some conn)) pool.owners := by
  rw [linked_iff_inverse, conns_setConn, owners_setConn]

theorem Linked.steal {pool : Pool} (linked : pool.Linked) (allocated : pool.Allocated)
    {db : Nat} (free : (pool.dbs db).conn = none) (now : Int) :
    (stored (pool.steal db now) db).Linked := by
  have inverse := (linked_iff_inverse pool).mp linked
  cases found : pool.stealable.find? fun conn => (pool.mem conn).canBeStolen with
  | none =>
      simp only [stored, Pool.steal, found]
      exact linked.cleanup allocated now
  | some conn =>
      have inPool : conn ∈ pool.cons := by
        have candidate := List.mem_of_find?_eq_some found
        rcases List.mem_append.mp candidate with higher | lower
        · exact List.mem_of_mem_filter higher
        · exact List.mem_of_mem_filter lower
      have owners : pool.owners conn = (pool.mem conn).owner := if_pos inPool
      have reserved := modify_sameLinks ((pool.detachOwner conn).setOwner conn db) conn
        (·.reserve now) rfl
      have same : (((pool.detachOwner conn).setOwner conn db).setConn db (some conn)).SameLinks
          (stored (pool.steal db now) db) := by
        simp only [stored, Pool.steal, found]
        exact ⟨rfl, reserved.owner, fun _ => rfl, rfl⟩
      rw [same.linked_iff]
      rw [linked_setConn_iff, conns_setOwner,
        owners_setOwner (by rw [detachOwner_cons]; exact inPool), conns_detachOwner]
      have ownersDetached : (pool.detachOwner conn).owners = pool.owners := by
        funext other
        simp [Pool.owners]
      rw [ownersDetached]
      cases owner : (pool.mem conn).owner with
      | none => exact inverse.link free (owners.trans owner)
      | some old =>
          have held : pool.conns old = some conn := linked.owned conn inPool old owner
          have different : db ≠ old := by
            rintro rfl
            rw [Pool.conns, free] at held
            simp at held
          have unlinked := inverse.unlink held
          have moved := unlinked.link (l := db) (r := conn)
            (by rw [Function.update_of_ne different]; exact free) (by simp)
          simpa only [Function.update_idem] using moved

theorem Linked.getConnection_iff {pool : Pool} (linked : pool.Linked)
    (allocated : pool.Allocated) {db : Nat} (free : (pool.dbs db).conn = none) (now : Int) :
    (stored (pool.getConnection db now) db).Linked ↔ pool.AssignSafe db now := by
  have clean := linked.cleanup allocated now
  have cleanAllocated := allocated.cleanup now
  have inverse := (linked_iff_inverse _).mp clean
  have cleanFree := cleanup_conn_none free now
  obtain ⟨mem, _, maxConn⟩ := pool.cleanup_frame now
  simp only [AssignSafe, free, forall_const, getConnection]
  rw [← pool.cleanup_cons now, ← mem, ← maxConn]
  generalize pool.cleanup now = pool at clean cleanAllocated inverse cleanFree ⊢
  have newFree : pool.owners pool.nextId = none := if_neg cleanAllocated.new_notMem
  have locked := lock_sameLinks (pool.create now) pool.nextId now
  by_cases empty : pool.cons = []
  · rw [if_pos (by simp [empty])]
    refine iff_of_true ?_ (Or.inl empty)
    rw [stored, linked_setConn_iff, conns_setOwner, owners_setOwner (by simp [lock, modify, create]),
      locked.conns_eq, locked.owners_eq, cleanAllocated.owners_create]
    exact inverse.link cleanFree newFree
  · rw [if_neg (by simpa using empty)]
    by_cases room : pool.cons.length < pool.maxConn
    · have notFull : ¬ pool.maxConn ≤ pool.cons.length := Nat.not_le.mpr room
      rw [if_pos room]
      cases found : pool.cons.find? fun conn => (pool.mem conn).res = 0 with
      | some conn =>
          have inPool : conn ∈ (pool.lock conn now).cons := List.mem_of_find?_eq_some found
          have same := lock_sameLinks pool conn now
          have owner : pool.owners conn = (pool.mem conn).owner := if_pos inPool
          dsimp only [stored]
          rw [linked_setConn_iff, conns_setOwner, owners_setOwner inPool, same.conns_eq,
            same.owners_eq, inverse.link_iff cleanFree, owner]
          simp [empty, notFull]
      | none =>
          dsimp only [stored]
          rw [linked_setConn_iff, locked.conns_eq, locked.owners_eq,
            cleanAllocated.owners_create]
          refine iff_of_false ?_ (by simp [empty, notFull])
          exact Matching.not_inverse_of_half (l := db) (r := pool.nextId) (by simp) (by simp [newFree])
    · rw [if_neg room]
      exact iff_of_true (clean.steal cleanAllocated cleanFree now)
        (Or.inr (Or.inl (Nat.le_of_not_lt room)))

theorem Linked.assign_iff {pool : Pool} (linked : pool.Linked) (allocated : pool.Allocated)
    (db : Nat) (now : Int) : (pool.assign db now).1.Linked ↔ pool.AssignSafe db now := by
  cases conn : (pool.dbs db).conn with
  | some conn => simp [assign, AssignSafe, conn, linked]
  | none =>
      rw [assign_of_free conn]
      exact linked.getConnection_iff allocated conn now

theorem opening_sameLinks (pool : Pool) (db : Nat) (now : Int) (dial : Dial) :
    ((pool.dbs db).lock = none →
      (pool.assign db now).1.SameLinks (pool.openConnection db now dial).1) ∧
    (pool.assign db now).1.SameLinks (pool.connect db false now dial).1 := by
  apply opening_induction
  · intro next conn change keeps same
    exact same.trans (modify_sameLinks next conn change (keeps _))
  · intro next conn now same
    exact same.trans (locked_sameLinks next conn now)
  · intro next lock now same
    exact same.trans (dropLock_sameLinks next lock now)
  · exact .refl _

theorem openConnection_sameLinks {pool : Pool} {db : Nat} (unlocked : (pool.dbs db).lock = none)
    (now : Int) (dial : Dial) :
    (pool.assign db now).1.SameLinks (pool.openConnection db now dial).1 :=
  (opening_sameLinks pool db now dial).1 unlocked

theorem connect_sameLinks (pool : Pool) (db : Nat) (now : Int) (dial : Dial) :
    (pool.assign db now).1.SameLinks (pool.connect db false now dial).1 :=
  (opening_sameLinks pool db now dial).2

theorem begin_sameLinks (pool : Pool) (db : Nat) (now : Int) (dial : Dial) (reply : Bool) :
    (pool.openConnection db now dial).1.SameLinks (pool.begin db now dial reply) := by
  obtain ⟨_, step⟩ | ⟨lock, _, step⟩ := pool.begin_cases db now dial reply
  · rw [step]
    exact .refl _
  · have stored := setLock_sameLinks (pool.openConnection db now dial).1 db (some lock) now
    obtain step | ⟨conn, step⟩ := step
    · rw [step]
      exact stored
    · rw [step]
      exact stored.trans (modify_sameLinks _ _ _ (by simp))

theorem Allocated.close {pool : Pool} (allocated : pool.Allocated) (db : Nat) (now : Int)
    (reply : Bool) : (pool.close db now reply).Allocated := by
  simp only [Pool.close]
  split
  · exact allocated
  · split
    · exact ⟨allocated.nodup, allocated.below⟩
    · exact ⟨allocated.nodup, allocated.below⟩

theorem Linked.close_iff {pool : Pool} (linked : pool.Linked) (db : Nat) (now : Int)
    (reply : Bool) :
    (pool.close db now reply).Linked ↔
      ∀ conn, (pool.dbs db).conn = some conn → (pool.mem conn).isInTransaction = true →
        reply = true := by
  cases held : (pool.dbs db).conn with
  | none => simp [close, held, linked]
  | some conn =>
      have inverse := (linked_iff_inverse pool).mp linked
      have inPool : conn ∈ pool.cons := (linked.held db conn held).1
      have released : (pool.modify conn fun conn => (conn.release now reply).1).owners =
          Function.update pool.owners conn none := by
        funext other
        by_cases same : other = conn
        · subst other
          have noOwner : ((pool.mem conn).release now reply).1.owner = none := by
            simp only [Connection.release]
            split
            · rfl
            · split <;> rfl
          simp [owners, modify, noOwner]
        · simp [owners, modify, Function.update_of_ne same]
      simp only [close, held, Option.some.injEq, forall_eq']
      rw [← (pool.mem conn).release_returns_iff now reply]
      by_cases returned : ((pool.mem conn).release now reply).2 = true
      · refine iff_of_true ?_ returned
        rw [if_pos returned, linked_iff_inverse, conns_setConn, owners_setConn, released]
        exact inverse.unlink held
      · refine iff_of_false ?_ returned
        rw [if_neg returned, linked_iff_inverse, released]
        exact Matching.not_inverse_of_half (l := db) (r := conn) held (by simp)

/-- The steps that keep the links: those that call `get_connection` find a connection that
they may take or have to steal one, and no close sees its `ROLLBACK` fail. -/
def LinkSafe (pool : Pool) : PoolEvent → Prop
  | .openConnection db now _ => (pool.dbs db).lock = none → pool.AssignSafe db now
  | .connect db timedOut now _ => timedOut = false → pool.AssignSafe db now
  | .begin db now _ _ => (pool.dbs db).lock = none → pool.AssignSafe db now
  | .close db _ reply => ∀ conn, (pool.dbs db).conn = some conn →
      (pool.mem conn).isInTransaction = true → reply = true
  | _ => True

theorem Linked.openConnection_iff {pool : Pool} (linked : pool.Linked)
    (allocated : pool.Allocated) (db : Nat) (now : Int) (dial : Dial) :
    (pool.openConnection db now dial).1.Linked ↔
      ((pool.dbs db).lock = none → pool.AssignSafe db now) := by
  cases locked : (pool.dbs db).lock with
  | some lock =>
      have same := copyLock_sameLinks pool lock
      simp [Pool.openConnection, locked, same.linked_iff, linked]
  | none =>
      rw [(openConnection_sameLinks locked now dial).linked_iff, linked.assign_iff allocated]
      simp

theorem Linked.apply_iff {pool : Pool} (linked : pool.Linked) (allocated : pool.Allocated)
    (event : PoolEvent) : (pool.apply event).Linked ↔ pool.LinkSafe event := by
  cases event with
  | openConnection db now dial =>
      rw [apply, (hold_sameLinks _).linked_iff]
      exact linked.openConnection_iff allocated db now dial
  | connect db timedOut now dial =>
      rw [apply, (hold_sameLinks _).linked_iff]
      cases timedOut with
      | true => simp [Pool.connect, LinkSafe, linked]
      | false =>
          rw [(connect_sameLinks pool db now dial).linked_iff, linked.assign_iff allocated]
          simp [LinkSafe]
  | begin db now dial reply =>
      rw [apply, (begin_sameLinks pool db now dial reply).linked_iff]
      exact linked.openConnection_iff allocated db now dial
  | close db now reply => exact linked.close_iff db now reply
  | dropHeld lock now =>
      refine iff_of_true ?_ trivial
      simp only [apply]
      split
      · exact (dropLock_sameLinks _ lock now).linked_iff.mpr ⟨linked.held, linked.owned⟩
      · exact linked
  | keepLock db lock now =>
      refine iff_of_true ?_ trivial
      simp only [apply]
      split
      · rw [((copyLock_sameLinks pool lock).trans (setLock_sameLinks _ _ _ _)).linked_iff]
        exact linked
      · exact linked
  | endTransaction db now reply =>
      have same := (transaction_sameLinks pool db now reply).1
      exact iff_of_true (same.linked_iff.mpr linked) trivial
  | began db now reply =>
      have same := (transaction_sameLinks pool db now reply).2.1
      exact iff_of_true (same.linked_iff.mpr linked) trivial
  | ended db now reply =>
      have same := (transaction_sameLinks pool db now reply).2.2
      exact iff_of_true (same.linked_iff.mpr linked) trivial
  | count now => exact iff_of_true (linked.cleanup allocated now) trivial

theorem Allocated.openConnection {pool : Pool} (allocated : pool.Allocated) (db : Nat)
    (now : Int) (dial : Dial) : (pool.openConnection db now dial).1.Allocated := by
  cases locked : (pool.dbs db).lock with
  | some lock =>
      simp only [Pool.openConnection, locked]
      exact (copyLock_sameLinks pool lock).allocated allocated
  | none => exact (openConnection_sameLinks locked now dial).allocated (allocated.assign db now)

theorem Allocated.apply {pool : Pool} (allocated : pool.Allocated) (event : PoolEvent) :
    (pool.apply event).Allocated := by
  cases event with
  | openConnection db now dial =>
      exact (hold_sameLinks _).allocated (allocated.openConnection db now dial)
  | connect db timedOut now dial =>
      apply (hold_sameLinks _).allocated
      cases timedOut with
      | true => simpa [Pool.connect] using allocated
      | false => exact (connect_sameLinks pool db now dial).allocated (allocated.assign db now)
  | begin db now dial reply =>
      exact (begin_sameLinks pool db now dial reply).allocated
        (allocated.openConnection db now dial)
  | close db now reply => exact allocated.close db now reply
  | dropHeld lock now =>
      simp only [Pool.apply]
      split
      · exact (dropLock_sameLinks _ lock now).allocated ⟨allocated.nodup, allocated.below⟩
      · exact allocated
  | keepLock db lock now =>
      simp only [Pool.apply]
      split
      · exact ((copyLock_sameLinks pool lock).trans (setLock_sameLinks _ _ _ _)).allocated allocated
      · exact allocated
  | endTransaction db now reply =>
      exact (transaction_sameLinks pool db now reply).1.allocated allocated
  | began db now reply => exact (transaction_sameLinks pool db now reply).2.1.allocated allocated
  | ended db now reply => exact (transaction_sameLinks pool db now reply).2.2.allocated allocated
  | count now => exact allocated.cleanup now

theorem initial_linked (maxConn : Nat) : (initial maxConn).Linked :=
  ⟨fun _ _ held => by simp [initial] at held, fun _ inPool => by simp [initial] at inPool⟩

theorem initial_allocated (maxConn : Nat) : (initial maxConn).Allocated :=
  ⟨List.nodup_nil, fun _ inPool => by simp [initial] at inPool⟩

theorem run_linked_iff (maxConn : Nat) (events : List PoolEvent) :
    (∀ reached, reached <+: events → (Runs.run apply (initial maxConn) reached).Linked) ↔
      Runs.Meets apply LinkSafe (initial maxConn) events :=
  Runs.always_good_iff_meets (fun _ event allocated => allocated.apply event)
    (fun _ event allocated linked => linked.apply_iff allocated event)
    (initial_allocated maxConn) (initial_linked maxConn)

/-- All states of a run have inverse links exactly when all of its steps are link safe, and
then no connection is ever shared. -/
theorem pool_linked_iff (maxConn : Nat) (events : List PoolEvent) :
    ((∀ reached, reached <+: events → (Runs.run apply (initial maxConn) reached).Linked) ↔
      Runs.Meets apply LinkSafe (initial maxConn) events) ∧
    (Runs.Meets apply LinkSafe (initial maxConn) events →
      ∀ reached, reached <+: events → ∀ db other conn,
        ((Runs.run apply (initial maxConn) reached).dbs db).conn = some conn →
        ((Runs.run apply (initial maxConn) reached).dbs other).conn = some conn →
        db = other) := by
  refine ⟨run_linked_iff maxConn events, ?_⟩
  intro meets reached isPrefix db other conn first second
  have linked := (run_linked_iff maxConn events).mpr meets reached isPrefix
  exact linked.unshared first second

def answering : Dial := { broken := false, connects := true, nonBlocking := true }

/-- The second connection of a pool gets no owner, so that stealing it for a third database
leaves it in the second one. -/
theorem second_connection_shared :
    let events : List PoolEvent := [.openConnection 0 0 answering, .openConnection 1 0 answering,
      .dropHeld 1 0, .openConnection 2 0 answering]
    let pool := Runs.run apply (initial 2) events
    (pool.dbs 1).conn = some 1 ∧ (pool.dbs 2).conn = some 1 ∧ (pool.mem 1).owner = some 2 := by
  decide

theorem pool_linked_one_connection :
    let events : List PoolEvent := [.openConnection 0 0 answering, .dropHeld 0 0,
      .openConnection 1 0 answering, .close 1 0 true]
    ∀ reached, reached <+: events → (Runs.run apply (initial 1) reached).Linked :=
  (pool_linked_iff 1 _).1.mpr ⟨fun _ _ => Or.inl rfl, trivial,
    fun _ _ => Or.inr (Or.inl (by decide)), fun _ _ _ => rfl, trivial⟩

end Pool

end PqAsync
