import PqAsync.CheckedInt
import PqAsync.Library.Results
import PqAsync.RangeOps
import Mathlib.Tactic.Ring

/-!
Iteration over a range of integers: which ranges the loop from `begin()` to `end()` visits as the
integers that belong to them.
-/

namespace PqAsync.BoundRange

section

variable {w : Nat} (value : BoundRange (BitVec w))

def Contains (n : Int) : Prop :=
  (if value.lboundInclusion = .inclusive then value.lb.toInt ≤ n else value.lb.toInt < n) ∧
    if value.uboundInclusion = .inclusive then n ≤ value.ub.toInt else n < value.ub.toInt

/-- The loop ends without an overflow, and visits the integers of the range in ascending order. -/
def Iterates : Prop :=
  ∃ rounds visited, value.visit rounds = some (.ok visited) ∧
    (visited.map BitVec.toInt).Pairwise (· < ·) ∧
    ∀ n, n ∈ visited.map BitVec.toInt ↔ value.Contains n

def first : Int := value.lb.toInt + if value.lboundInclusion = .inclusive then 0 else 1

def stop : Int := value.ub.toInt + if value.uboundInclusion = .inclusive then 1 else 0

structure Iterable : Prop where
  ordered : value.first ≤ value.stop
  stop : value.stop < 2 ^ (w - 1)
  last : value.uboundInclusion = .exclusive → -2 ^ (w - 1) < value.ub.toInt

end

section

variable {w : Nat} {value : BoundRange (BitVec w)}

theorem contains_iff (n : Int) : value.Contains n ↔ value.first ≤ n ∧ n < value.stop := by
  rw [Contains, first, stop]
  apply and_congr
  · split
    · rw [add_zero]
    · exact Int.lt_iff_add_one_le
  · split
    · exact Int.lt_add_one_iff.symm
    · rw [add_zero]

theorem fits_toInt (v : BitVec w) : FitsInt w v.toInt := ⟨BitVec.le_toInt v, BitVec.toInt_lt⟩

variable (positive : 0 < w)

include positive

theorem beginValue_ok (hasLbound : value.hasLbound = true) {v : BitVec w} :
    value.beginValue = .ok v ↔ FitsInt w value.first ∧ v.toInt = value.first := by
  have here := fits_toInt value.lb
  rw [beginValue, lboundAbs, hasLbound, first]
  cases inclusion : value.lboundInclusion with
  | inclusive =>
      simp only [Bool.not_true, Bool.false_eq_true, if_false, if_true, add_zero, Except.ok.injEq,
        here, true_and]
      rw [eq_comm, BitVec.toInt_inj]
  | exclusive => exact checkedInt_ok_iff positive

theorem endValue_ok (hasUbound : value.hasUbound = true) {v : BitVec w} :
    value.endValue = .ok v ↔
      (value.uboundInclusion = .exclusive → -2 ^ (w - 1) < value.ub.toInt) ∧
        FitsInt w value.stop ∧ v.toInt = value.stop := by
  have here := fits_toInt value.ub
  rw [endValue, uboundAbs, hasUbound, stop]
  cases inclusion : value.uboundInclusion with
  | inclusive =>
      refine (checkedInt_ok_iff positive).trans ?_
      simp
  | exclusive =>
      simp only [Bool.not_true, Bool.false_eq_true, if_false, reduceCtorEq, Results.bind_ok,
        checkedInt_ok_iff positive, add_zero, true_imp_iff]
      obtain ⟨low, high⟩ := here
      constructor
      · rintro ⟨last, ⟨fits, lastIs⟩, _, valueIs⟩
        have below := fits.1
        exact ⟨by omega, ⟨low, high⟩, by omega⟩
      · rintro ⟨above, _, valueIs⟩
        have fits : FitsInt w (value.ub.toInt - 1) := ⟨by omega, by omega⟩
        refine ⟨BitVec.ofInt w (value.ub.toInt - 1), ⟨fits, toInt_ofInt_of_fits positive fits⟩, ?_⟩
        rw [toInt_ofInt_of_fits positive fits, sub_add_cancel]
        exact ⟨⟨low, high⟩, valueIs⟩

section

variable {last : BitVec w} (hasUbound : value.hasUbound = true) (ends : value.endValue = .ok last)

include hasUbound ends

omit positive in
theorem increment_of_ne {v : BitVec w} (different : v ≠ last) :
    value.increment v = checkedInt w (v.toInt + 1) := by
  rw [increment, if_pos hasUbound, ends, Results.ok_bind, if_neg different]

theorem visitFrom_below {n : Nat} {v : BitVec w} (distance : v.toInt + n = last.toInt) :
    ∃ visited, value.visitFrom last (n + 1) v = some (.ok visited) ∧
      visited.map BitVec.toInt = (List.range n).map fun i : Nat => v.toInt + i := by
  induction n generalizing v with
  | zero =>
      have same : v = last := BitVec.eq_of_toInt_eq (by simpa using distance)
      exact ⟨[], by rw [visitFrom, if_pos same], rfl⟩
  | succ n ih =>
      have different : v ≠ last := by
        rintro rfl
        omega
      have fits : FitsInt w (v.toInt + 1) := by
        have low := (fits_toInt v).1
        have high := (fits_toInt last).2
        exact ⟨by omega, by omega⟩
      have next := toInt_ofInt_of_fits positive fits
      have step : value.increment v = .ok (BitVec.ofInt w (v.toInt + 1)) := by
        rw [increment_of_ne hasUbound ends different]
        exact (checkedInt_ok_iff positive).mpr ⟨fits, next⟩
      obtain ⟨visited, run, values⟩ := ih (v := BitVec.ofInt w (v.toInt + 1)) (by omega)
      refine ⟨v :: visited, ?_, ?_⟩
      · rw [visitFrom, if_neg different, step]
        dsimp only
        rw [run]
        rfl
      · rw [List.map_cons, values, next, List.range_succ_eq_map, List.map_cons, List.map_map]
        refine congrArg₂ List.cons (by simp) (List.map_congr_left fun i _ => ?_)
        simp only [Function.comp_apply]
        push_cast
        ring

theorem visitFrom_above {rounds : Nat} {v : BitVec w} {visited : List (BitVec w)}
    (past : last.toInt < v.toInt) : value.visitFrom last rounds v ≠ some (.ok visited) := by
  induction rounds generalizing v visited with
  | zero => simp [visitFrom]
  | succ rounds ih =>
      have different : v ≠ last := by
        rintro rfl
        omega
      rw [visitFrom, if_neg different, increment_of_ne hasUbound ends different]
      cases step : checkedInt w (v.toInt + 1) with
      | error failure => simp
      | ok next =>
          have nextIs := ((checkedInt_ok_iff positive).mp step).2
          dsimp only
          cases run : value.visitFrom last rounds next with
          | none => simp
          | some result =>
              cases result with
              | error failure => simp [Except.map]
              | ok later => exact absurd run (ih (by omega))

end

theorem iterates_of_iterable (hasLbound : value.hasLbound = true)
    (hasUbound : value.hasUbound = true) (iterable : value.Iterable) : value.Iterates := by
  obtain ⟨ordered, high, last⟩ := iterable
  have low : -2 ^ (w - 1) ≤ value.first := by
    have here := (fits_toInt value.lb).1
    rw [first]
    split
    · omega
    · omega
  have firstFits : FitsInt w value.first := ⟨low, by omega⟩
  have stopFits : FitsInt w value.stop := ⟨by omega, high⟩
  have firstIs := toInt_ofInt_of_fits positive firstFits
  have stopIs := toInt_ofInt_of_fits positive stopFits
  have begins := (beginValue_ok positive hasLbound).mpr ⟨firstFits, firstIs⟩
  have ends := (endValue_ok positive hasUbound).mpr ⟨last, stopFits, stopIs⟩
  obtain ⟨n, distance⟩ := Int.le.dest ordered
  obtain ⟨visited, run, values⟩ := visitFrom_below positive hasUbound ends
    (n := n) (v := BitVec.ofInt w value.first) (by rw [firstIs, stopIs, distance])
  refine ⟨n + 1, visited, ?_, ?_, ?_⟩
  · rw [visit, begins, ends]
    exact run
  · rw [values, List.pairwise_map]
    exact List.pairwise_lt_range.imp (by omega)
  · intro x
    rw [contains_iff, values, firstIs]
    simp only [List.mem_map, List.mem_range]
    constructor
    · rintro ⟨i, inside, rfl⟩
      omega
    · rintro ⟨above, below⟩
      exact ⟨(x - value.first).toNat, by omega, by omega⟩

theorem iterable_of_iterates (hasLbound : value.hasLbound = true)
    (hasUbound : value.hasUbound = true) (iterates : value.Iterates) : value.Iterable := by
  obtain ⟨rounds, visited, run, _, _⟩ := iterates
  rw [visit] at run
  cases begins : value.beginValue with
  | error failure =>
      rw [begins] at run
      cases run
  | ok v =>
      cases ends : value.endValue with
      | error failure =>
          rw [begins, ends] at run
          cases run
      | ok last =>
          rw [begins, ends] at run
          obtain ⟨_, firstIs⟩ := (beginValue_ok positive hasLbound).mp begins
          obtain ⟨least, stopFits, stopIs⟩ := (endValue_ok positive hasUbound).mp ends
          refine ⟨?_, stopFits.2, least⟩
          by_contra past
          rw [← firstIs, ← stopIs, not_le] at past
          exact visitFrom_above positive hasUbound ends past run

theorem iterates_iff (hasLbound : value.hasLbound = true) (hasUbound : value.hasUbound = true) :
    value.Iterates ↔ value.Iterable :=
  ⟨iterable_of_iterates positive hasLbound hasUbound,
    iterates_of_iterable positive hasLbound hasUbound⟩

end

/-- A range of integers with both bounds is iterated over exactly if its first integer is not
behind its end, which the type has, and the least value of the type does not bound it from above
without belonging to it. -/
theorem int_ranges_iterate_iff (value : Int4range) (wide : Int8range) :
    (value.hasLbound = true → value.hasUbound = true → (value.Iterates ↔ value.Iterable)) ∧
      (wide.hasLbound = true → wide.hasUbound = true → (wide.Iterates ↔ wide.Iterable)) :=
  ⟨iterates_iff (w := 32) (by decide), iterates_iff (w := 64) (by decide)⟩

theorem int_ranges_iterate_ordinary :
    (ofBounds (0 : BitVec 32) 5).Iterates ∧ (ofBounds (0 : BitVec 64) 5).Iterates :=
  ⟨((int_ranges_iterate_iff _ (ofBounds 0 5)).1 rfl rfl).mpr ⟨by decide, by decide, by decide⟩,
    ((int_ranges_iterate_iff (ofBounds 0 5) _).2 rfl rfl).mpr ⟨by decide, by decide, by decide⟩⟩

theorem int_ranges_overrun :
    ¬(ofBounds (5 : BitVec 32) 1).Iterates ∧
      ¬((ofBounds (0 : BitVec 32) 0x7fffffff).setUboundInclusion .inclusive).Iterates := by
  constructor
  · intro iterates
    exact absurd (iterable_of_iterates (by decide) rfl rfl iterates).ordered (by decide)
  · intro iterates
    exact absurd (iterable_of_iterates (by decide) rfl rfl iterates).stop (by decide)

end PqAsync.BoundRange
