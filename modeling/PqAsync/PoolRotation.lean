import PqAsync.PoolBound
import PqAsync.Library.RoundRobin

/-!
Stealing takes turns among the connections of a connection string exactly when the texts of
their ids have the order of the vector and no steal elsewhere moves the turn. A `Pool` is the
vector of one connection string; `last_stolen_conn_id` is one text for all of them.
-/

namespace PqAsync

namespace Pool

/-- Steals from one full pool, all of whose connections can be stolen each time, and the calls
for other connection strings between them. `others conn` are the connections that such a call
may steal after `conn` was stolen here. -/
inductive StealRun (cons : List Nat) (others : Nat → Set Nat) :
    Set Nat → List Char → List Nat → Prop
  | done (allowed : Set Nat) (last : List Char) : StealRun cons others allowed last []
  | steal {allowed : Set Nat} (pool : Pool) (owner : Nat) (now : Int) {conn : Nat}
      {taken : List Nat} (same : pool.cons = cons) (kept : (pool.cleanup now).cons = cons)
      (full : pool.maxConn ≤ cons.length)
      (free : ∀ conn ∈ cons, (pool.mem conn).canBeStolen = true)
      (stolen : (pool.getConnection owner now).2 = some conn)
      (later : StealRun cons others (others conn)
        (pool.getConnection owner now).1.lastStolenConnId taken) :
      StealRun cons others allowed pool.lastStolenConnId (conn :: taken)
  | elsewhere {allowed : Set Nat} (other : Pool) (owner : Nat) (now : Int) {taken : List Nat}
      (apart : ∀ conn ∈ other.cons, conn ∉ cons)
      (within : ∀ conn ∈ other.cons, (other.getConnection owner now).1.lastStolenConnId =
        connectionId conn → conn ∈ allowed)
      (later : StealRun cons others allowed
        (other.getConnection owner now).1.lastStolenConnId taken) :
      StealRun cons others allowed other.lastStolenConnId taken

/-- The candidates are the connections of the pool, and every window of as many steals as there
are connections takes each of them once. -/
structure Rotates (cons : List Nat) (others : Nat → Set Nat) (last : List Char) : Prop where
  candidates : ∀ pool : Pool, pool.cons = cons → pool.lastStolenConnId = last →
    pool.stealable.Perm cons
  fair : ∀ taken, StealRun cons others Set.univ last taken → ∀ before block after,
    taken = before ++ (block ++ after) → block.length = cons.length → block.Perm cons

/-- The texts of the ids increase along the vector, and a connection that is stolen elsewhere
between two steals leaves the turn where it is. -/
structure KeepsTurn (cons : List Nat) (others : Nat → Set Nat) : Prop where
  texts : cons.Pairwise fun a b => connectionId a < connectionId b
  elsewhere : ∀ conn ∈ cons, ∀ other ∈ others conn, other ∉ cons →
    RoundRobin.SameTurn connectionId cons (connectionId conn) (connectionId other)

theorem stealable_eq (pool : Pool) :
    pool.stealable = RoundRobin.order connectionId pool.lastStolenConnId pool.cons := by
  rw [stealable, RoundRobin.order]
  congr
  funext conn
  exact decide_eq_decide.mpr Iff.rfl

theorem cleanup_lastStolenConnId (pool : Pool) (now : Int) :
    (pool.cleanup now).lastStolenConnId = pool.lastStolenConnId := by
  refine cleanup_induction (fun next => next.lastStolenConnId = pool.lastStolenConnId) ?_ rfl
  intro next i same
  obtain ⟨kept, _⟩ | ⟨conn, _, _, removed⟩ := next.cleanupAt_cases now i
  · rw [kept, same]
  · rw [removed, ← same, detachOwner]
    split <;> rfl

theorem getConnection_remembers (pool : Pool) (owner : Nat) (now : Int) :
    (pool.getConnection owner now).1.lastStolenConnId = pool.lastStolenConnId ∨
      ∃ conn ∈ pool.cons,
        (pool.getConnection owner now).1.lastStolenConnId = connectionId conn := by
  have clean := pool.cleanup_lastStolenConnId now
  obtain ⟨_, step⟩ | ⟨_, _, _, _, step⟩ | ⟨_, _, _, step⟩ | ⟨_, _, step⟩ :=
    pool.getConnection_cases owner now
  · exact .inl ((congrArg (·.1.lastStolenConnId) step).trans clean)
  · exact .inl ((congrArg (·.1.lastStolenConnId) step).trans clean)
  · exact .inl ((congrArg (·.1.lastStolenConnId) step).trans clean)
  · rw [step]
    obtain ⟨conn, inPool, _, stolen⟩ | ⟨_, refused⟩ := (pool.cleanup now).steal_cases owner now
    · refine .inr ⟨conn, ?_, by rw [stolen]⟩
      rw [cleanup_cons] at inPool
      exact survivors_subset pool now inPool
    · refine .inl ?_
      rw [refused, cleanup_lastStolenConnId, clean]

theorem steal_first {pool : Pool} (free : ∀ conn ∈ pool.cons, (pool.mem conn).canBeStolen = true)
    {conn : Nat} {rest : List Nat} (first : pool.stealable = conn :: rest) (owner : Nat)
    (now : Int) : (pool.steal owner now).2 = some conn ∧
      (pool.steal owner now).1.lastStolenConnId = connectionId conn := by
  have inPool : conn ∈ pool.cons := by
    rw [← mem_stealable, first]
    exact List.mem_cons_self
  have found : (pool.stealable.find? fun conn => (pool.mem conn).canBeStolen) = some conn := by
    rw [first]
    exact List.find?_cons_of_pos (free conn inPool)
  rw [steal, found]
  exact ⟨rfl, rfl⟩

def fullPool (cons : List Nat) (last : List Char) : Pool :=
  { initial cons.length with
    cons := cons
    mem := fun _ => { Connection.new 0 with res := 1 }
    lastStolenConnId := last }

theorem fullPool_kept (cons : List Nat) (last : List Char) (now : Int) :
    ((fullPool cons last).cleanup now).cons = cons := by
  refine (cleanup_induction (fun next => next.cons = cons ∧
    next.mem = fun _ => { Connection.new 0 with res := 1 }) ?_ ⟨rfl, rfl⟩).1
  rintro next i ⟨sameCons, sameMem⟩
  obtain ⟨kept, _⟩ | ⟨conn, _, dead, _⟩ := next.cleanupAt_cases now i
  · rw [kept]
    exact ⟨sameCons, sameMem⟩
  · rw [sameMem] at dead
    cases dead

section Full

variable {cons : List Nat} (some_ : cons ≠ [])

include some_

theorem getConnection_full {pool : Pool} {now : Int} (kept : (pool.cleanup now).cons = cons)
    (full : pool.maxConn ≤ cons.length) (owner : Nat) :
    pool.getConnection owner now = (pool.cleanup now).steal owner now := by
  have some_ : ¬(pool.cleanup now).cons.length = 0 := by
    rwa [kept, List.length_eq_zero_iff]
  have room : ¬(pool.cleanup now).cons.length < (pool.cleanup now).maxConn := by
    rw [kept, cleanup_maxConn]
    omega
  exact (if_neg some_).trans (if_neg room)

theorem getConnection_turn {pool : Pool} {now : Int} (kept : (pool.cleanup now).cons = cons)
    (full : pool.maxConn ≤ cons.length)
    (free : ∀ conn ∈ cons, (pool.mem conn).canBeStolen = true) (owner : Nat) :
    ∃ conn, (RoundRobin.order connectionId pool.lastStolenConnId cons).head? = some conn ∧
      (pool.getConnection owner now).2 = some conn ∧
      (pool.getConnection owner now).1.lastStolenConnId = connectionId conn := by
  have clean : (pool.cleanup now).stealable =
      RoundRobin.order connectionId pool.lastStolenConnId cons := by
    rw [stealable_eq, cleanup_lastStolenConnId, kept]
  have can : ∀ conn ∈ (pool.cleanup now).cons,
      ((pool.cleanup now).mem conn).canBeStolen = true := by
    rw [kept, (pool.cleanup_frame now).1]
    exact free
  cases queue : (pool.cleanup now).stealable with
  | nil =>
      have perm : cons.Perm [] := by
        rw [← queue, clean]
        exact RoundRobin.order_perm.symm
      exact absurd perm.eq_nil some_
  | cons conn rest =>
      refine ⟨conn, ?_, ?_⟩
      · rw [← clean, queue]
        rfl
      · rw [getConnection_full some_ kept full]
        exact steal_first can queue owner now

theorem stealRun_cons {others : Nat → Set Nat} {allowed : Set Nat} {last : List Char}
    {conn : Nat} {taken : List Nat}
    (head : (RoundRobin.order connectionId last cons).head? = some conn)
    (later : StealRun cons others (others conn) (connectionId conn) taken) :
    StealRun cons others allowed last (conn :: taken) := by
  have kept : ((fullPool cons last).cleanup 0).cons = cons := fullPool_kept cons last 0
  have free : ∀ conn ∈ cons, ((fullPool cons last).mem conn).canBeStolen = true :=
    fun _ _ => rfl
  obtain ⟨first, turn, stolen, remembered⟩ :=
    getConnection_turn some_ kept (Nat.le_refl _) free 0
  obtain rfl := Option.some.inj (turn.symm.trans head)
  refine .steal (fullPool cons last) 0 0 rfl kept (Nat.le_refl _) free stolen ?_
  rw [remembered]
  exact later

theorem stealRun_append {others : Nat → Set Nat} {allowed : Set Nat} {last : List Char}
    {front rest : List Nat} {conn : Nat}
    (turns : RoundRobin.Turns connectionId cons last (front ++ [conn]))
    (later : StealRun cons others (others conn) (connectionId conn) rest) :
    StealRun cons others allowed last (front ++ conn :: rest) := by
  induction front generalizing last allowed with
  | nil => exact stealRun_cons some_ turns.1 later
  | cons first front ih => exact stealRun_cons some_ turns.1 (ih turns.2)

theorem stealRun_of_turns {others : Nat → Set Nat} {allowed : Set Nat} {last : List Char}
    {taken : List Nat} (turns : RoundRobin.Turns connectionId cons last taken) :
    StealRun cons others allowed last taken := by
  induction taken generalizing last allowed with
  | nil => exact .done allowed last
  | cons conn taken ih => exact stealRun_cons some_ turns.1 (ih turns.2)

theorem StealRun.turns {others : Nat → Set Nat} (keeps : KeepsTurn cons others)
    {allowed : Set Nat} {last : List Char} {taken : List Nat}
    (run : StealRun cons others allowed last taken) {key : List Char}
    (sameTurn : (RoundRobin.order connectionId last cons).head? =
      (RoundRobin.order connectionId key cons).head?)
    (harmless : ∀ conn ∈ allowed, conn ∉ cons →
      (RoundRobin.order connectionId (connectionId conn) cons).head? =
        (RoundRobin.order connectionId key cons).head?) :
    RoundRobin.Turns connectionId cons key taken := by
  induction run generalizing key with
  | done allowed last => trivial
  | steal pool owner now same kept full free stolen later ih =>
      obtain ⟨conn, head, taken, remembered⟩ := getConnection_turn some_ kept full free owner
      obtain rfl := Option.some.inj (taken.symm.trans stolen)
      have inPool : conn ∈ cons :=
        RoundRobin.order_perm.subset (List.mem_of_mem_head? head)
      refine ⟨sameTurn.symm.trans head, ih (by rw [remembered]) fun other member apart => ?_⟩
      exact (keeps.elsewhere conn inPool other member apart).head.symm
  | elsewhere other owner now apart within later ih =>
      refine ih ?_ harmless
      rcases other.getConnection_remembers owner now with kept | ⟨conn, inPool, stolen⟩
      · rwa [kept]
      · rw [stolen]
        exact harmless conn (within conn inPool stolen) (apart conn inPool)

theorem StealRun.some_turns {others : Nat → Set Nat} (keeps : KeepsTurn cons others)
    {allowed : Set Nat} {last : List Char} {taken : List Nat}
    (run : StealRun cons others allowed last taken) :
    ∃ key, RoundRobin.Turns connectionId cons key taken := by
  induction run with
  | done allowed last => exact ⟨last, trivial⟩
  | steal pool owner now same kept full free stolen later ih =>
      refine ⟨pool.lastStolenConnId, ?_⟩
      obtain ⟨conn, head, taken, remembered⟩ := getConnection_turn some_ kept full free owner
      obtain rfl := Option.some.inj (taken.symm.trans stolen)
      have inPool : conn ∈ cons :=
        RoundRobin.order_perm.subset (List.mem_of_mem_head? head)
      refine ⟨head, later.turns some_ keeps (by rw [remembered]) fun other member apart => ?_⟩
      exact (keeps.elsewhere conn inPool other member apart).head.symm
  | elsewhere other owner now apart within later ih => exact ih

theorem Rotates.sameTurn {others : Nat → Set Nat} {last : List Char} (two : 2 ≤ cons.length)
    (rotates : Rotates cons others last) (sorted : RoundRobin.Sorted connectionId cons)
    {conn other : Nat} (inPool : conn ∈ cons) (allowed : other ∈ others conn)
    (apart : other ∉ cons) :
    RoundRobin.SameTurn connectionId cons (connectionId conn) (connectionId other) := by
  rw [← RoundRobin.sameTurn_iff sorted inPool]
  obtain ⟨front, long, turns⟩ :=
    RoundRobin.exists_turns_to sorted inPool (cons.length - 2) last
  have next (key : List Char) :
      ∃ following, (RoundRobin.order connectionId key cons).head? = some following := by
    obtain ⟨taken, length, turns⟩ := @RoundRobin.exists_turns _ _ _ connectionId _ some_ 1 key
    cases taken with
    | nil => cases length
    | cons following rest => exact ⟨following, turns.1⟩
  have window : ∀ following, StealRun cons others (others conn) (connectionId conn) [following] →
      (front.drop (front.length - (cons.length - 2)) ++ [conn, following]).Perm cons := by
    intro following run
    refine rotates.fair _ (stealRun_append some_ turns run)
      (front.take (front.length - (cons.length - 2))) _ [] ?_ ?_
    · rw [List.append_nil, ← List.append_assoc, List.take_append_drop]
    · rw [List.length_append, List.length_drop, List.length_cons, List.length_singleton]
      omega
  obtain ⟨here, head⟩ := next (connectionId conn)
  obtain ⟨there, moved⟩ := next (connectionId other)
  have undisturbed := window here (stealRun_cons some_ head (.done _ _))
  have disturbed : StealRun cons others (others conn) (connectionId conn) [there] := by
    have full : ((fullPool [other] (connectionId conn)).cleanup 0).cons = [other] :=
      fullPool_kept [other] (connectionId conn) 0
    obtain ⟨stolen, turn, _, remembered⟩ := getConnection_turn (List.cons_ne_nil other [])
      full (Nat.le_refl _) (fun _ _ => rfl) 0
    obtain rfl : stolen = other :=
      List.mem_singleton.mp (RoundRobin.order_perm.subset (List.mem_of_mem_head? turn))
    refine .elsewhere (fullPool [stolen] (connectionId conn)) 0 0 ?_ ?_ ?_
    · intro member inside
      rwa [List.mem_singleton.mp inside]
    · intro member inside _
      rwa [List.mem_singleton.mp inside]
    · rw [remembered]
      exact stealRun_cons some_ moved (.done _ _)
  have same := (List.perm_append_left_iff _).mp (undisturbed.trans (window there disturbed).symm)
  have same := ((List.perm_cons conn).mp same).singleton_eq
  rw [head, moved, List.singleton_inj.mp same]

end Full

/-- Stealing is a rotation exactly for connections whose ids, as texts, increase along the
vector, while steals for other connection strings leave the turn where it is. -/
theorem steals_rotate_iff (cons : List Nat) (two : 2 ≤ cons.length) (different : cons.Nodup)
    (others : Nat → Set Nat) (last : List Char) :
    Rotates cons others last ↔ KeepsTurn cons others := by
  have some_ : cons ≠ [] := List.ne_nil_of_length_pos (by omega)
  constructor
  · intro rotates
    have sorted : RoundRobin.Sorted connectionId cons :=
      (RoundRobin.fair_iff_sorted different last).mp fun taken turns =>
        rotates.fair taken (stealRun_of_turns some_ turns)
    exact ⟨sorted, fun conn inPool other allowed apart =>
      rotates.sameTurn some_ two sorted inPool allowed apart⟩
  · intro keeps
    constructor
    · rintro pool rfl rfl
      rw [stealable_eq]
      exact RoundRobin.order_perm
    · intro taken run
      obtain ⟨key, turns⟩ := run.some_turns some_ keeps
      exact (RoundRobin.fair_iff_sorted different key).mpr keeps.texts taken turns

theorem steals_rotate_iff_digits : Rotates [8, 9] (fun _ => {1}) [] ↔
    KeepsTurn [8, 9] fun _ => {1} :=
  steals_rotate_iff [8, 9] (by decide) (by decide) _ []

theorem two_digits_never_stolen : ¬Rotates [9, 10] (fun _ => ∅) [] := by
  intro rotates
  have turns : RoundRobin.Turns connectionId [9, 10] [] [9, 9] :=
    ⟨by decide, by decide, trivial⟩
  have window := rotates.fair [9, 9] (stealRun_of_turns (by decide) turns) [] [9, 9] [] rfl rfl
  exact absurd (window.symm.subset (List.mem_cons_of_mem 9 List.mem_cons_self)) (by decide)

end Pool

end PqAsync
