import PqAsync.PoolCore
import Mathlib.Data.List.Nodup
import Mathlib.Data.List.Perm.Subperm

/-!
The destructor of the connection pool, and the pools whose connections it closes all.
-/

namespace PqAsync

/-- `_pools`, in the order of the connection strings. The pools have different connections. -/
structure PoolMap where
  pools : List (List Char × List Nat)
  distinct : (pools.flatMap Prod.snd).Nodup

def PoolMap.connections (map : PoolMap) : List Nat := map.pools.flatMap Prod.snd

/-- What the destructor works on, and how often a connection was deleted. A deleted connection
stays as its own destructor left it. -/
structure PoolMemory where
  mem : Nat → Connection
  dbs : Nat → Holder
  deleted : Nat → Nat

namespace PoolMemory

def detachOwner (memory : PoolMemory) (conn : Nat) : PoolMemory :=
  match (memory.mem conn).owner with
  | some owner =>
      { memory with dbs :=
          Function.update memory.dbs owner { memory.dbs owner with conn := none } }
  | none => memory

/-- `~connection` at the time `now`. -/
def delete (memory : PoolMemory) (conn : Nat) (now : Int) : PoolMemory :=
  { memory with
    mem := Function.update memory.mem conn
      { (memory.mem conn).closeConnection now with owner := none }
    deleted := Function.update memory.deleted conn (memory.deleted conn + 1) }

/-- The loop over a vector from index `i` on. The clock is read when a connection is deleted. -/
def destroyFrom (clock : Nat → Int) (memory : PoolMemory) (cons : List Nat) (i : Nat) :
    PoolMemory :=
  if inside : i < cons.length then
    destroyFrom clock ((memory.detachOwner cons[i]).delete cons[i] (clock cons[i]))
      (cons.eraseIdx i) (i + 1)
  else memory
termination_by cons.length - i
decreasing_by
  rw [List.length_eraseIdx_of_lt inside]
  omega

/-- `~connection_pool` -/
def destroy (clock : Nat → Int) (memory : PoolMemory) (map : PoolMap) : PoolMemory :=
  map.pools.foldl (fun memory pool => destroyFrom clock memory pool.2 0) memory

def destroyAt (clock : Nat → Int) (memory : PoolMemory) (conn : Nat) : PoolMemory :=
  (memory.detachOwner conn).delete conn (clock conn)

/-- Every connection was closed and deleted once, and no database has a connection of which it
was the owner. -/
structure Complete (map : PoolMap) (before after : PoolMemory) : Prop where
  once : ∀ conn ∈ map.connections, after.deleted conn = before.deleted conn + 1
  closed : ∀ conn ∈ map.connections, (after.mem conn).opened = false
  released : ∀ conn ∈ map.connections, ∀ db, (before.mem conn).owner = some db →
    (after.dbs db).conn = none

section Visited

variable {α : Type}

def everySecond : List α → List α
  | [] => []
  | [x] => [x]
  | x :: _ :: rest => x :: everySecond rest

theorem everySecond_cons (x : α) (rest : List α) :
    everySecond (x :: rest) = x :: everySecond rest.tail := by
  cases rest <;> rfl

theorem length_everySecond (xs : List α) : (everySecond xs).length = (xs.length + 1) / 2 := by
  induction xs using everySecond.induct with
  | case1 => simp [everySecond]
  | case2 x => simp [everySecond]
  | case3 x y rest ih =>
      rw [everySecond, List.length_cons, ih, List.length_cons, List.length_cons]
      omega

theorem everySecond_of_length_le {xs : List α} (short : xs.length ≤ 1) : everySecond xs = xs := by
  match xs with
  | [] => rfl
  | [x] => rfl

theorem drop_eraseIdx_succ {xs : List α} {i : Nat} (inside : i < xs.length) :
    (xs.eraseIdx i).drop (i + 1) = (xs.drop (i + 1)).tail := by
  rw [List.eraseIdx_eq_take_drop_succ, List.drop_append, List.length_take,
    Nat.min_eq_left inside.le, List.drop_of_length_le (by rw [List.length_take]; omega),
    List.nil_append, Nat.add_sub_cancel_left, List.drop_one]

theorem everySecond_drop {xs : List α} {i : Nat} (inside : i < xs.length) :
    everySecond (xs.drop i) = xs[i] :: everySecond ((xs.eraseIdx i).drop (i + 1)) := by
  rw [List.drop_eq_getElem_cons inside, everySecond_cons, drop_eraseIdx_succ inside]

end Visited

def visited (map : PoolMap) : List Nat := map.pools.flatMap fun pool => everySecond pool.2

variable (clock : Nat → Int)

theorem destroyFrom_eq (memory : PoolMemory) (cons : List Nat) (i : Nat) :
    destroyFrom clock memory cons i =
      (everySecond (cons.drop i)).foldl (destroyAt clock) memory := by
  fun_induction destroyFrom clock memory cons i with
  | case1 memory cons i inside ih =>
      rw [ih, everySecond_drop inside, List.foldl_cons]
      rfl
  | case2 memory cons i outside =>
      rw [List.drop_of_length_le (not_lt.mp outside)]
      rfl

theorem destroy_eq (memory : PoolMemory) (map : PoolMap) :
    destroy clock memory map = (visited map).foldl (destroyAt clock) memory := by
  rw [destroy, visited, List.foldl_flatMap]
  congr
  funext memory pool
  rw [destroyFrom_eq, List.drop_zero]

section Step

variable {clock} (memory : PoolMemory) (conn : Nat)

theorem mem_detachOwner : (memory.detachOwner conn).mem = memory.mem := by
  rw [detachOwner]
  split <;> rfl

theorem deleted_detachOwner : (memory.detachOwner conn).deleted = memory.deleted := by
  rw [detachOwner]
  split <;> rfl

theorem conn_detachOwner (db : Nat) : ((memory.detachOwner conn).dbs db).conn =
    if (memory.mem conn).owner = some db then none else (memory.dbs db).conn := by
  rw [detachOwner]
  cases owned : (memory.mem conn).owner with
  | none => rw [if_neg nofun]
  | some owner =>
      dsimp only
      by_cases same : owner = db
      · subst owner
        rw [if_pos rfl, Function.update_self]
      · rw [if_neg fun is => same (Option.some.inj is), Function.update_of_ne (Ne.symm same)]

theorem mem_delete (now : Int) : (memory.delete conn now).mem = Function.update memory.mem conn
    { (memory.mem conn).closeConnection now with owner := none } := rfl

theorem deleted_delete (now : Int) : (memory.delete conn now).deleted =
    Function.update memory.deleted conn (memory.deleted conn + 1) := rfl

theorem deleted_destroyAt (other : Nat) :
    (destroyAt clock memory conn).deleted other =
      memory.deleted other + if conn = other then 1 else 0 := by
  rw [destroyAt, deleted_delete, deleted_detachOwner]
  by_cases same : conn = other
  · subst other
    rw [Function.update_self, if_pos rfl]
  · rw [Function.update_of_ne (Ne.symm same), if_neg same, Nat.add_zero]

theorem mem_destroyAt_of_ne {other : Nat} (differs : other ≠ conn) :
    (destroyAt clock memory conn).mem other = memory.mem other := by
  rw [destroyAt, mem_delete, mem_detachOwner, Function.update_of_ne differs]

theorem closed_destroyAt : ((destroyAt clock memory conn).mem conn).opened = false := by
  rw [destroyAt, mem_delete, Function.update_self, Connection.closeConnection]
  split
  · rfl
  · rename_i shut
    exact Bool.eq_false_iff.mpr shut

theorem conn_destroyAt (db : Nat) : ((destroyAt clock memory conn).dbs db).conn =
    if (memory.mem conn).owner = some db then none else (memory.dbs db).conn :=
  conn_detachOwner memory conn db

end Step

section Run

variable {clock} {conns : List Nat} (memory : PoolMemory)

theorem deleted_foldl (conn : Nat) :
    (conns.foldl (destroyAt clock) memory).deleted conn =
      memory.deleted conn + conns.count conn := by
  induction conns generalizing memory with
  | nil => rfl
  | cons first conns ih =>
      rw [List.foldl_cons, ih, deleted_destroyAt, List.count_cons, beq_eq_decide]
      simp only [decide_eq_true_eq]
      omega

theorem mem_foldl_of_notMem {conn : Nat} (outside : conn ∉ conns) :
    (conns.foldl (destroyAt clock) memory).mem conn = memory.mem conn := by
  induction conns generalizing memory with
  | nil => rfl
  | cons first conns ih =>
      rw [List.mem_cons, not_or] at outside
      rw [List.foldl_cons, ih _ outside.2, mem_destroyAt_of_ne _ _ outside.1]

theorem closed_foldl (nodup : conns.Nodup) {conn : Nat} (inside : conn ∈ conns) :
    ((conns.foldl (destroyAt clock) memory).mem conn).opened = false := by
  induction conns generalizing memory with
  | nil => cases inside
  | cons first conns ih =>
      rw [List.nodup_cons] at nodup
      rw [List.foldl_cons]
      rcases List.mem_cons.mp inside with rfl | later
      · rw [mem_foldl_of_notMem _ nodup.1]
        exact closed_destroyAt memory conn
      · exact ih _ nodup.2 later

theorem conn_foldl_of_none {db : Nat} (free : (memory.dbs db).conn = none) :
    ((conns.foldl (destroyAt clock) memory).dbs db).conn = none := by
  induction conns generalizing memory with
  | nil => exact free
  | cons first conns ih =>
      apply ih
      rw [conn_destroyAt, free, ite_self]

theorem released_foldl (nodup : conns.Nodup) {conn db : Nat} (inside : conn ∈ conns)
    (owned : (memory.mem conn).owner = some db) :
    ((conns.foldl (destroyAt clock) memory).dbs db).conn = none := by
  induction conns generalizing memory with
  | nil => cases inside
  | cons first conns ih =>
      rw [List.nodup_cons] at nodup
      rw [List.foldl_cons]
      rcases List.mem_cons.mp inside with rfl | later
      · apply conn_foldl_of_none
        rw [conn_destroyAt, if_pos owned]
      · apply ih _ nodup.2 later
        have differs : conn ≠ first := fun same => nodup.1 (same ▸ later)
        rw [mem_destroyAt_of_ne _ _ differs, owned]

end Run

theorem visited_eq_connections {map : PoolMap} (single : ∀ pool ∈ map.pools, pool.2.length ≤ 1) :
    visited map = map.connections :=
  List.flatMap_congr fun pool member => everySecond_of_length_le (single pool member)

theorem length_visited_le (pools : List (List Char × List Nat)) :
    (pools.flatMap fun pool => everySecond pool.2).length ≤ (pools.flatMap Prod.snd).length := by
  induction pools with
  | nil => exact Nat.le_refl _
  | cons pool pools ih =>
      rw [List.flatMap_cons, List.flatMap_cons, List.length_append, List.length_append,
        length_everySecond]
      omega

theorem single_of_length_le {pools : List (List Char × List Nat)}
    (all : (pools.flatMap Prod.snd).length ≤
      (pools.flatMap fun pool => everySecond pool.2).length) :
    ∀ pool ∈ pools, pool.2.length ≤ 1 := by
  induction pools with
  | nil =>
      intro pool member
      cases member
  | cons first pools ih =>
      have rest := length_visited_le pools
      rw [List.flatMap_cons, List.flatMap_cons, List.length_append, List.length_append,
        length_everySecond] at all
      intro pool member
      rcases List.mem_cons.mp member with rfl | later
      · omega
      · exact ih (by omega) pool later

/-- The destructor is complete exactly for pools with at most one connection each. -/
theorem destroy_complete_iff (memory : PoolMemory) (map : PoolMap) :
    Complete map memory (destroy clock memory map) ↔
      ∀ pool ∈ map.pools, pool.2.length ≤ 1 := by
  rw [destroy_eq]
  constructor
  · intro complete
    have inside : map.connections ⊆ visited map := by
      intro conn member
      have once := complete.once conn member
      rw [deleted_foldl] at once
      exact List.count_pos_iff.mp (by omega)
    exact single_of_length_le (List.Nodup.subperm map.distinct inside).length_le
  · intro single
    rw [visited_eq_connections single]
    constructor
    · intro conn member
      rw [deleted_foldl]
      exact congrArg _ (List.count_eq_one_of_mem map.distinct member)
    · intro conn member
      exact closed_foldl memory map.distinct member
    · intro conn member db owned
      exact released_foldl memory map.distinct member owned

theorem second_connection_kept : ∃ (map : PoolMap) (memory : PoolMemory),
    (∀ conn, memory.deleted conn = 0) ∧ (memory.mem 1).owner = some 1 ∧
      ((destroy (fun _ => 0) memory map).dbs 1).conn = some 1 ∧
      ¬Complete map memory (destroy (fun _ => 0) memory map) := by
  let map : PoolMap := { pools := [([], [0, 1])], distinct := by decide }
  let memory : PoolMemory :=
    { mem := fun conn => { Connection.new 0 with opened := true, owner := some conn }
      dbs := fun db => { conn := some db, lock := none }
      deleted := fun _ => 0 }
  have last : destroy (fun _ => 0) memory map = destroyAt (fun _ => 0) memory 0 :=
    destroy_eq _ memory map
  refine ⟨map, memory, fun _ => rfl, rfl, ?_, ?_⟩
  · rw [last]
    rfl
  · intro complete
    have once := complete.once 1 (by decide)
    rw [last, deleted_destroyAt] at once
    exact absurd once (by decide)

end PoolMemory

end PqAsync
