import Mathlib.Algebra.Ring.Int.Defs
import Mathlib.Data.Int.Order.Basic
import Mathlib.Data.List.GetD
import PqAsync.Library.Results

/-!
Allocated buffers whose cells have no value until one is stored, with every access checked.
-/

namespace Buffer

open Results

inductive Fault
  | badAlloc
  | outOfBounds
  | uninitialized
  | overflow
  deriving DecidableEq, Repr

def checkedIndex (x : Int) : Except Fault Int :=
  if -2 ^ 31 ≤ x ∧ x < 2 ^ 31 then .ok x else .error .overflow

theorem checkedIndex_ok {x : Int} (low : -2 ^ 31 ≤ x) (high : x < 2 ^ 31) :
    checkedIndex x = .ok x := if_pos ⟨low, high⟩

theorem checkedIndex_overflows {x : Int} (beyond : 2 ^ 31 ≤ x) :
    checkedIndex x = .error .overflow := if_neg (by omega)

variable {α : Type}

def allocate (α : Type) (size : Int) : Except Fault (List (Option α)) :=
  if size < 0 then .error .badAlloc else .ok (List.replicate size.toNat none)

def store (cells : List (Option α)) (index : Int) (value : α) : Except Fault (List (Option α)) :=
  if 0 ≤ index ∧ index < cells.length then .ok (cells.set index.toNat (some value))
  else .error .outOfBounds

def load (cells : List (Option α)) (index : Int) : Except Fault α :=
  if 0 ≤ index ∧ index < cells.length then
    match cells.getD index.toNat none with
    | some value => .ok value
    | none => .error .uninitialized
  else .error .outOfBounds

def storeAll (cells : List (Option α)) (index : Int) : List α → Except Fault (List (Option α))
  | [] => .ok cells
  | value :: values => do
      let cells ← store cells index value
      storeAll cells (index + 1) values

def loadAll (cells : List (Option α)) : Nat → Int → Except Fault (List α)
  | 0, _ => .ok []
  | n + 1, index => do
      let value ← load cells index
      let values ← loadAll cells n (index + 1)
      return value :: values

theorem load_append (left right : List (Option α)) (value : α) :
    load (left ++ some value :: right) left.length = .ok value := by
  have inside : 0 ≤ (left.length : Int) ∧ (left.length : Int) < (left ++ some value :: right).length := by
    rw [List.length_append, List.length_cons]
    omega
  rw [load, if_pos inside, Int.toNat_natCast, List.getD_append_right _ _ _ _ (Nat.le_refl _), Nat.sub_self]
  rfl

theorem store_append (left right : List (Option α)) (cell : Option α) (value : α) :
    store (left ++ cell :: right) left.length value = .ok (left ++ some value :: right) := by
  have inside : 0 ≤ (left.length : Int) ∧ (left.length : Int) < (left ++ cell :: right).length := by
    rw [List.length_append, List.length_cons]
    omega
  rw [store, if_pos inside, Int.toNat_natCast, List.set_append_right _ _ (Nat.le_refl _), Nat.sub_self,
    List.set_cons_zero]

def loadUntil [DecidableEq α] (stop : α) : List (Option α) → Except Fault (List α)
  | [] => .error .outOfBounds
  | none :: _ => .error .uninitialized
  | some value :: cells => do
      if value = stop then return []
      let values ← loadUntil stop cells
      return value :: values

/-- The values that were stored from the start on, and how many cells are left behind them. -/
def Filled (cells : List (Option α)) (stored : List α) (free : Nat) : Prop :=
  ∃ rest, rest.length = free ∧ cells = stored.map some ++ rest

variable {cells : List (Option α)} {stored : List α} {free : Nat}

theorem allocate_filled {size : Int} (nonneg : 0 ≤ size) :
    ∃ cells, allocate α size = .ok cells ∧ Filled cells [] size.toNat :=
  ⟨_, if_neg (not_lt.mpr nonneg), _, List.length_replicate, rfl⟩

theorem Filled.length (filled : Filled cells stored free) : cells.length = stored.length + free := by
  obtain ⟨rest, length, rfl⟩ := filled
  rw [List.length_append, List.length_map, length]

theorem Filled.store (filled : Filled cells stored (free + 1)) (value : α) :
    ∃ next, Buffer.store cells stored.length value = .ok next ∧
      Filled next (stored ++ [value]) free := by
  have size := filled.length
  obtain ⟨rest, length, rfl⟩ := filled
  obtain ⟨cell, rest, rfl⟩ := List.exists_cons_of_length_eq_add_one length
  refine ⟨_, if_pos ⟨by omega, by omega⟩, rest, by simpa using length, ?_⟩
  rw [Int.toNat_natCast, List.set_append_right _ _ (Nat.le_of_eq (List.length_map some)), List.length_map,
    Nat.sub_self, List.set_cons_zero, List.map_append, List.append_assoc]
  rfl

theorem Filled.storeAll {values : List α} (filled : Filled cells stored (values.length + free)) :
    ∃ next, Buffer.storeAll cells stored.length values = .ok next ∧
      Filled next (stored ++ values) free := by
  induction values generalizing cells stored with
  | nil =>
      rw [List.length_nil, Nat.zero_add] at filled
      refine ⟨cells, rfl, ?_⟩
      rw [List.append_nil]
      exact filled
  | cons value values ih =>
      rw [List.length_cons, Nat.add_right_comm] at filled
      obtain ⟨middle, first, filledMiddle⟩ := filled.store value
      obtain ⟨next, rest, filledNext⟩ := ih filledMiddle
      rw [List.length_append, List.length_singleton] at rest
      push_cast at rest
      rw [List.append_assoc] at filledNext
      exact ⟨next, bind_ok.mpr ⟨middle, first, rest⟩, filledNext⟩

theorem Filled.storeText {values : List α} (filled : Filled cells stored free)
    (room : values.length ≤ free) :
    ∃ next, Buffer.storeAll cells stored.length values = .ok next ∧
      Filled next (stored ++ values) (free - values.length) := by
  apply Filled.storeAll
  rw [Nat.add_sub_cancel' room]
  exact filled

theorem Filled.load (filled : Filled cells stored free) {index : Nat} (inside : index < stored.length) :
    Buffer.load cells index = .ok stored[index] := by
  have size := filled.length
  obtain ⟨rest, _, rfl⟩ := filled
  have value : (stored.map some ++ rest).getD index none = some stored[index] := by
    rw [List.getD_eq_getElem _ _ (by omega), List.getElem_append_left (by rw [List.length_map]; omega),
      List.getElem_map]
  rw [Buffer.load, if_pos ⟨by omega, by omega⟩, Int.toNat_natCast, value]

theorem Filled.loadAll (filled : Filled cells stored free) {n index : Nat}
    (inside : index + n ≤ stored.length) :
    Buffer.loadAll cells n index = .ok ((stored.drop index).take n) := by
  induction n generalizing index with
  | zero => rfl
  | succ n ih =>
      have next := @ih (index + 1) (by omega)
      push_cast at next
      have first : index < stored.length := by omega
      rw [Buffer.loadAll, filled.load first, ok_bind, next, ok_bind, List.drop_eq_getElem_cons first,
        List.take_succ_cons]
      rfl

theorem loadUntil_append [DecidableEq α] {stop : α} {values : List α}
    (others : ∀ value ∈ values, value ≠ stop) (rest : List (Option α)) :
    loadUntil stop (values.map some ++ some stop :: rest) = .ok values := by
  induction values with
  | nil =>
      rw [List.map_nil, List.nil_append, loadUntil, if_pos rfl]
      rfl
  | cons value values ih =>
      obtain ⟨own, later⟩ := List.forall_mem_cons.mp others
      rw [List.map_cons, List.cons_append, loadUntil, if_neg own, ih later]
      rfl

theorem Filled.loadUntil [DecidableEq α] {stop : α} (filled : Filled cells stored (free + 1))
    {n : Nat} (inside : n ≤ stored.length) (others : ∀ value ∈ stored.take n, value ≠ stop) :
    ∃ next, Buffer.store cells n stop = .ok next ∧ Buffer.loadUntil stop next = .ok (stored.take n) := by
  have size := filled.length
  obtain ⟨rest, length, rfl⟩ := filled
  refine ⟨_, if_pos ⟨by omega, by omega⟩, ?_⟩
  rw [Int.toNat_natCast, List.set_eq_take_append_cons_drop, if_pos (by omega),
    List.take_append_of_le_length (by rw [List.length_map]; exact inside), ← List.map_take]
  exact loadUntil_append others _

end Buffer
