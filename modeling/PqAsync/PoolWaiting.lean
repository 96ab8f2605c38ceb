import PqAsync.PoolBound

/-!
The loop in which `_get_connection` waits for a connection that it can steal, while the clock and
the connections of the pool do what they like.
-/

namespace PqAsync

/-- What goes on around a call that waits: the clock and the pool at each instant, and the
instants at which the call looks at them. The lock of the pools is held, so that no connection
comes or goes. -/
structure Waiting where
  clock : Nat → Int
  pools : Nat → Pool
  start : Nat
  /-- candidate `i` is looked at in pass `k` -/
  look : Nat → Nat → Nat
  /-- the clock is read after the sleep of pass `k` -/
  test : Nat → Nat
  start_look : ∀ i, start ≤ look 0 i
  look_test : ∀ k i, look k i ≤ test k
  test_look : ∀ k i, test k < look (k + 1) i
  same_cons : ∀ instant, (pools instant).cons = (pools start).cons

inductive StealEnding
  | stolen (conn : Nat) (pool : Pool)
  /-- `connection_pool_assign_exception`, with the last value that was read from the clock -/
  | threw (now : Int) (pool : Pool)

def nanoseconds (milliseconds : Int) : Int := milliseconds * 1000000

def effectiveTimeout (timeoutMs : Int) : Int := if timeoutMs ≤ 0 then 2147483647 else timeoutMs

def Pool.stealConn (pool : Pool) (conn owner : Nat) (now : Int) : Pool :=
  { ((pool.detachOwner conn).setOwner conn owner).modify conn (·.reserve now) with
    lastStolenConnId := connectionId conn }

namespace Waiting

variable (wait : Waiting)

def scons : List Nat := (wait.pools wait.start).stealable

def canBeStolen (conn instant : Nat) : Bool := ((wait.pools instant).mem conn).canBeStolen

/-- A pass over the candidates from number `i` on: the first one that can be stolen, and the
instant at which it is found so. -/
def pass (k : Nat) : List Nat → Nat → Option (Nat × Nat)
  | [], _ => none
  | conn :: scons, i =>
      if wait.canBeStolen conn (wait.look k i) then some (conn, wait.look k i)
      else pass k scons (i + 1)

/-- `now() - milliseconds(timeout_ms)` -/
def timeoutDate (timeoutMs : Int) : Int :=
  wait.clock wait.start - nanoseconds (effectiveTimeout timeoutMs)

/-- The end of the loop behind the test of pass `k`; the text of the exception holds the count. -/
def refuse (k : Nat) : StealEnding :=
  let now := wait.clock (wait.test k)
  .threw now ((wait.pools (wait.test k)).getOpenedConnectionCount now).1

/-- The loop from pass `k` on, for as many passes as there is fuel. -/
def stealLoop (owner : Nat) (timeoutMs : Int) : Nat → Nat → Option StealEnding
  | 0, _ => none
  | fuel + 1, k =>
      match wait.pass k wait.scons 0 with
      | some (conn, instant) =>
          some (.stolen conn ((wait.pools instant).stealConn conn owner (wait.clock instant)))
      | none =>
          if wait.timeoutDate timeoutMs > wait.clock (wait.test k) then
            stealLoop owner timeoutMs fuel (k + 1)
          else some (wait.refuse k)

def Ends (owner : Nat) (timeoutMs : Int) (ending : StealEnding) : Prop :=
  ∃ fuel, wait.stealLoop owner timeoutMs fuel 0 = some ending

def deadline (timeoutMs : Int) : Int :=
  wait.clock wait.start + nanoseconds (effectiveTimeout timeoutMs)

/-- A connection that can be stolen from 10 ms before the deadline on, or longer. -/
def FreeEarly (timeoutMs : Int) : Prop :=
  ∃ instant, wait.clock instant + nanoseconds 10 ≤ wait.deadline timeoutMs ∧
    ∃ conn ∈ (wait.pools instant).cons,
      ∀ later, instant ≤ later → wait.canBeStolen conn later = true

structure HonoursTimeout (owner : Nat) (timeoutMs : Int) : Prop where
  late : ∀ now pool, wait.Ends owner timeoutMs (.threw now pool) → wait.deadline timeoutMs ≤ now
  returned : wait.FreeEarly timeoutMs → ∃ conn pool, wait.Ends owner timeoutMs (.stolen conn pool)

/-- Test `k` is the first one that does not read a time before the start minus the timeout. With
a clock that is never set back this is the first test. -/
def StopsAt (timeoutMs : Int) (k : Nat) : Prop :=
  wait.timeoutDate timeoutMs ≤ wait.clock (wait.test k) ∧
    ∀ j < k, wait.clock (wait.test j) < wait.timeoutDate timeoutMs

def Finds (k : Nat) : Prop := wait.pass k wait.scons 0 ≠ none

def GoesOn (timeoutMs : Int) (k : Nat) : Prop :=
  ¬ wait.Finds k ∧ wait.clock (wait.test k) < wait.timeoutDate timeoutMs

variable {wait} {owner : Nat} {timeoutMs : Int}

theorem pass_of_free {k conn : Nat} (free : ∀ i, wait.canBeStolen conn (wait.look k i) = true)
    {scons : List Nat} (member : conn ∈ scons) (i : Nat) : wait.pass k scons i ≠ none := by
  induction scons generalizing i with
  | nil => exact absurd member List.not_mem_nil
  | cons first scons ih =>
      rw [pass]
      by_cases found : wait.canBeStolen first (wait.look k i) = true
      · rw [if_pos found]
        exact Option.some_ne_none _
      · rw [if_neg found]
        rcases List.mem_cons.mp member with rfl | later
        · exact absurd (free i) found
        · exact ih later (i + 1)

theorem stealLoop_found {k conn instant : Nat}
    (found : wait.pass k wait.scons 0 = some (conn, instant)) (fuel : Nat) :
    wait.stealLoop owner timeoutMs (fuel + 1) k =
      some (.stolen conn ((wait.pools instant).stealConn conn owner (wait.clock instant))) := by
  rw [stealLoop, found]

theorem stealLoop_goesOn {k : Nat} (goes : wait.GoesOn timeoutMs k) (fuel : Nat) :
    wait.stealLoop owner timeoutMs (fuel + 1) k = wait.stealLoop owner timeoutMs fuel (k + 1) := by
  rw [stealLoop, not_not.mp goes.1]
  exact if_pos goes.2

theorem stealLoop_stops {k : Nat} (quiet : ¬ wait.Finds k)
    (stops : wait.timeoutDate timeoutMs ≤ wait.clock (wait.test k)) (fuel : Nat) :
    wait.stealLoop owner timeoutMs (fuel + 1) k = some (wait.refuse k) := by
  rw [stealLoop, not_not.mp quiet]
  exact if_neg (Int.not_lt.mpr stops)

theorem stealLoop_after {n : Nat} (goes : ∀ j < n, wait.GoesOn timeoutMs j) (fuel : Nat) :
    wait.stealLoop owner timeoutMs (n + fuel) 0 = wait.stealLoop owner timeoutMs fuel n := by
  induction n generalizing fuel with
  | zero => rw [Nat.zero_add]
  | succ n ih =>
      rw [Nat.add_right_comm, Nat.add_assoc, ih (fun j before => goes j (by omega)),
        stealLoop_goesOn (goes n (by omega))]

theorem stealLoop_ended {fuel k : Nat} {ending : StealEnding}
    (run : wait.stealLoop owner timeoutMs fuel k = some ending) :
    ∃ n, (∀ j, k ≤ j → j < n → wait.GoesOn timeoutMs j) ∧ k ≤ n ∧
      ((∃ conn instant, wait.pass n wait.scons 0 = some (conn, instant) ∧ ending =
          .stolen conn ((wait.pools instant).stealConn conn owner (wait.clock instant))) ∨
        ¬ wait.Finds n ∧ wait.timeoutDate timeoutMs ≤ wait.clock (wait.test n) ∧
          ending = wait.refuse n) := by
  induction fuel generalizing k with
  | zero => cases run
  | succ fuel ih =>
      have nothing : ∀ j, k ≤ j → j < k → wait.GoesOn timeoutMs j := fun j from_ until_ =>
        absurd from_ (Nat.not_le.mpr until_)
      by_cases finds : wait.Finds k
      · obtain ⟨⟨conn, instant⟩, found⟩ := Option.ne_none_iff_exists'.mp finds
        rw [stealLoop_found found] at run
        exact ⟨k, nothing, Nat.le_refl k,
          Or.inl ⟨conn, instant, found, (Option.some.inj run).symm⟩⟩
      · by_cases stops : wait.timeoutDate timeoutMs ≤ wait.clock (wait.test k)
        · rw [stealLoop_stops finds stops] at run
          exact ⟨k, nothing, Nat.le_refl k,
            Or.inr ⟨finds, stops, (Option.some.inj run).symm⟩⟩
        · have goes : wait.GoesOn timeoutMs k := ⟨finds, Int.not_le.mp stops⟩
          rw [stealLoop_goesOn goes] at run
          obtain ⟨n, before, after, last⟩ := ih run
          refine ⟨n, ?_, by omega, last⟩
          intro j from_ until_
          rcases Nat.eq_or_lt_of_le from_ with rfl | later
          · exact goes
          · exact before j later until_

theorem ends_threw {k : Nat} (stops : wait.StopsAt timeoutMs k) (quiet : ∀ j ≤ k, ¬ wait.Finds j) :
    wait.Ends owner timeoutMs (wait.refuse k) := by
  have goes : ∀ j < k, wait.GoesOn timeoutMs j := fun j before =>
    ⟨quiet j before.le, stops.2 j before⟩
  refine ⟨k + 1, ?_⟩
  rw [stealLoop_after goes, stealLoop_stops (quiet k (Nat.le_refl k)) stops.1]

theorem ends_stolen {k : Nat} (finds : wait.Finds k)
    (goes : ∀ j < k, wait.clock (wait.test j) < wait.timeoutDate timeoutMs) :
    ∃ conn pool, wait.Ends owner timeoutMs (.stolen conn pool) := by
  induction k using Nat.strongRecOn with
  | ind k ih =>
      by_cases earlier : ∃ j < k, wait.Finds j
      · obtain ⟨j, before, found⟩ := earlier
        exact ih j before found fun i inside => goes i (by omega)
      · obtain ⟨⟨conn, instant⟩, found⟩ := Option.ne_none_iff_exists'.mp finds
        have quiet : ∀ j < k, wait.GoesOn timeoutMs j := fun j before =>
          ⟨fun found => earlier ⟨j, before, found⟩, goes j before⟩
        exact ⟨conn, _, k + 1, (stealLoop_after quiet 1).trans (stealLoop_found found 0)⟩

theorem le_test (wait : Waiting) (k : Nat) : k ≤ wait.test k := by
  induction k with
  | zero => exact Nat.zero_le _
  | succ k ih =>
      have later := wait.test_look k 0
      have own := wait.look_test (k + 1) 0
      omega

theorem FreeEarly.finds (free : wait.FreeEarly timeoutMs) : ∃ k, wait.Finds k := by
  obtain ⟨instant, _, conn, member, stays⟩ := free
  rw [wait.same_cons instant] at member
  have looked (i : Nat) : wait.canBeStolen conn (wait.look (instant + 1) i) = true := by
    have later := wait.test_look instant i
    have reached := wait.le_test instant
    exact stays _ (by omega)
  exact ⟨instant + 1, pass_of_free looked ((Pool.mem_stealable _ conn).mpr member) 0⟩

theorem stopsAt_zero (steady : wait.clock wait.start ≤ wait.clock (wait.test 0)) :
    wait.StopsAt timeoutMs 0 := by
  have positive : 0 ≤ nanoseconds (effectiveTimeout timeoutMs) := by
    rw [nanoseconds, effectiveTimeout]
    split <;> omega
  refine ⟨?_, fun j before => absurd before (Nat.not_lt_zero j)⟩
  rw [timeoutDate]
  omega

theorem pass_eq_find {pool : Pool} (unchanged : ∀ instant, wait.pools instant = pool) {k : Nat}
    (scons : List Nat) (i : Nat) : (wait.pass k scons i).map Prod.fst =
      scons.find? fun conn => (pool.mem conn).canBeStolen := by
  induction scons generalizing i with
  | nil => rfl
  | cons conn scons ih =>
      rw [pass, canBeStolen, unchanged, List.find?_cons]
      cases (pool.mem conn).canBeStolen with
      | true => rfl
      | false => exact ih (i + 1)

/-- Where nothing happens during the wait and the clock is not set back, the loop is the one pass
of `steal`. -/
theorem ends_steal {pool : Pool} (unchanged : ∀ instant, wait.pools instant = pool)
    (steady : wait.clock wait.start ≤ wait.clock (wait.test 0)) :
    ∃ now, match pool.steal owner now with
      | (after, some conn) => wait.Ends owner timeoutMs (.stolen conn after)
      | (after, none) => wait.Ends owner timeoutMs (.threw now after) := by
  have candidates : wait.scons = pool.stealable := by rw [scons, unchanged]
  have found := @pass_eq_find wait pool unchanged 0 wait.scons 0
  rw [candidates] at found
  cases passed : wait.pass 0 wait.scons 0 with
  | none =>
      rw [← candidates, passed, candidates] at found
      have quiet : ∀ j ≤ 0, ¬ wait.Finds j := by
        intro j first
        obtain rfl := Nat.le_zero.mp first
        exact not_not.mpr passed
      have ended : wait.Ends owner timeoutMs (wait.refuse 0) := ends_threw (stopsAt_zero steady) quiet
      rw [refuse, unchanged] at ended
      refine ⟨wait.clock (wait.test 0), ?_⟩
      rw [Pool.steal, ← found]
      exact ended
  | some result =>
      obtain ⟨conn, instant⟩ := result
      rw [← candidates, passed, candidates] at found
      refine ⟨wait.clock instant, ?_⟩
      rw [Pool.steal, ← found]
      have ended := @stealLoop_found wait owner timeoutMs 0 conn instant passed 0
      rw [unchanged] at ended
      exact ⟨1, ended⟩

/-- The timeout is honoured exactly if the test that ends the loop either has a connection found
before it, or is at the deadline already and no connection was free in time. -/
theorem honoursTimeout_iff (wait : Waiting) (owner : Nat) (timeoutMs : Int) :
    wait.HonoursTimeout owner timeoutMs ↔ ∀ k, wait.StopsAt timeoutMs k →
      (∃ j ≤ k, wait.Finds j) ∨
        wait.deadline timeoutMs ≤ wait.clock (wait.test k) ∧ ¬ wait.FreeEarly timeoutMs := by
  constructor
  · intro honours k stops
    by_cases found : ∃ j ≤ k, wait.Finds j
    · exact Or.inl found
    · have quiet : ∀ j ≤ k, ¬ wait.Finds j := fun j before finds => found ⟨j, before, finds⟩
      refine Or.inr ⟨honours.late _ _ (ends_threw stops quiet), ?_⟩
      intro free
      obtain ⟨conn, pool, fuel, run⟩ := honours.returned free
      obtain ⟨n, goes, _, ⟨conn, instant, finds, _⟩ | ⟨_, _, refused⟩⟩ := stealLoop_ended run
      · have behind : k < n := by
          by_contra inside
          exact quiet n (by omega) (by rw [Finds, finds]; exact Option.some_ne_none _)
        have gone := (goes k (Nat.zero_le k) behind).2
        exact absurd stops.1 (Int.not_le.mpr gone)
      · cases refused
  · intro condition
    constructor
    · rintro now pool ⟨fuel, run⟩
      obtain ⟨n, goes, _, ⟨_, _, _, stolen⟩ | ⟨quiet, stops, refused⟩⟩ := stealLoop_ended run
      · cases stolen
      · have before (j : Nat) (inside : j < n) := goes j (Nat.zero_le j) inside
        rcases condition n ⟨stops, fun j inside => (before j inside).2⟩ with found | inTime
        · obtain ⟨j, until_, finds⟩ := found
          rcases Nat.eq_or_lt_of_le until_ with rfl | earlier
          · exact absurd finds quiet
          · exact absurd finds (before j earlier).1
        · cases refused
          exact inTime.1
    · intro free
      by_cases stopping : ∃ k, wait.StopsAt timeoutMs k
      · obtain ⟨k, stops⟩ := stopping
        rcases condition k stops with ⟨j, until_, finds⟩ | inTime
        · exact ends_stolen finds fun i before => stops.2 i (by omega)
        · exact absurd free inTime.2
      · obtain ⟨k, finds⟩ := free.finds
        refine ends_stolen finds ?_
        intro j _
        induction j using Nat.strongRecOn with
        | ind j ih =>
            by_contra late
            exact stopping ⟨j, Int.not_lt.mp late, fun i before => ih i before (by omega)⟩

def freedLater : Waiting where
  clock instant := nanoseconds (10 * instant)
  pools instant :=
    let pool := ((Pool.initial 1).openConnection 0 0 ⟨false, true, true⟩).1
    if instant < 3 then pool else pool.dropLock 0 0
  start := 0
  look k _ := 2 * k
  test k := 2 * k + 1
  start_look _ := Nat.zero_le _
  look_test k _ := Nat.le_succ _
  test_look k _ := by omega
  same_cons instant := by
    dsimp only
    split <;> rfl

theorem freedLater_threw : ¬ ∀ (wait : Waiting) (owner : Nat) (timeoutMs : Int),
    wait.HonoursTimeout owner timeoutMs := by
  intro honours
  have stops : freedLater.StopsAt 1000 0 := stopsAt_zero (by decide)
  have quiet : ∀ j ≤ 0, ¬ freedLater.Finds j := by
    intro j first
    obtain rfl := Nat.le_zero.mp first
    exact not_not.mpr rfl
  have late := (honours freedLater 1 1000).late _ _ (ends_threw stops quiet)
  exact absurd late (by decide)

end Waiting

end PqAsync
