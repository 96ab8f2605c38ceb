import PqAsync.Library.Runs
import PqAsync.ParametersCore
import PqAsync.Wire
import Mathlib.Data.List.InsertIdx

/-!
The arrays of parameters over runs: exactly which calls leave every object with arrays that
describe its current parameters.
-/

namespace PqAsync

namespace Heap

def Describes (heap : Heap) (i : Nat) (this : ParametersT) : Prop :=
  ∃ params : List Parameter, this.p = params.map .live ∧
    heap.types i = some (params.map fun param => param.oid) ∧
    heap.values i = some (params.map fun param => param.value) ∧
    heap.lengths i = some (params.map fun param => param.length) ∧
    heap.formats i = some (params.map fun param => param.format)

/-- No memory was misused, and the arrays of every object describe its current parameters. -/
structure AllDescribed (heap : Heap) : Prop where
  sane : heap.faulted = false
  describes {i : Nat} {this : ParametersT} : heap.objects[i]? = some this → heap.Describes i this

structure Sound (heap : Heap) (this : ParametersT) (params : List Parameter) : Prop where
  list : this.p = params.map .live
  small : this.arrays = none → params.length < 2 ^ 31
  built {block : Nat} : this.arrays = some block → heap.blocks[block]? = some (.ofParams params)

theorem liveParams_map (params : List Parameter) :
    liveParams (params.map .live) = some params := by
  induction params with
  | nil => rfl
  | cons param params ih =>
      rw [List.map_cons, liveParams, ih]
      rfl

theorem toInt_eq_iff (size : Nat) : toInt size = size ↔ size < 2 ^ 31 := by
  constructor
  · intro same
    have below := @BitVec.toInt_lt 32 (BitVec.ofNat 32 size)
    change toInt size < _ at below
    omega
  · exact toInt_of_lt

section

variable {heap : Heap} {i : Nat} {this : ParametersT} {params : List Parameter}

theorem length_of_list (list : this.p = params.map .live) : this.p.length = params.length := by
  rw [list, List.length_map]

theorem init_sound (sound : heap.Sound this params) (unbuilt : this.arrays = none) :
    heap.init i this =
      { heap.place i { this with arrays := some heap.blocks.length } with
        blocks := heap.blocks ++ [.ofParams params] } := by
  have length := length_of_list sound.list
  have fits : toInt this.p.length = this.p.length := by
    rw [toInt_eq_iff, length]
    exact sound.small unbuilt
  rw [init, unbuilt]
  dsimp only
  rw [fits, if_neg (by omega), sound.list, liveParams_map]
  dsimp only
  rw [if_pos rfl]

theorem returned_sound (sane : heap.faulted = false) (here : heap.objects[i]? = some this)
    (sound : heap.Sound this params) : heap.returned i = some (.ofParams params) := by
  have inside : i < heap.objects.length := (List.getElem?_eq_some_iff.mp here).1
  rw [returned, here]
  cases built : this.arrays with
  | some block =>
      have same : heap.init i this = heap := by rw [init, built]
      simp only [Option.bind_eq_bind, Option.bind_some, same, here, sane, Heap.block, built,
        sound.built built]
      rfl
  | none =>
      simp only [Option.bind_eq_bind, Option.bind_some, init_sound sound built, place,
        List.getElem?_set_self inside, sane, Heap.block, List.getElem?_concat_length]
      rfl

theorem describes_of_sound (sane : heap.faulted = false) (here : heap.objects[i]? = some this)
    (sound : heap.Sound this params) : heap.Describes i this := by
  have returned := returned_sound sane here sound
  refine ⟨params, sound.list, ?_⟩
  rw [types, values, lengths, formats, returned]
  exact ⟨rfl, rfl, rfl, rfl⟩

theorem returned_ok {arrays : Arrays} (here : heap.objects[i]? = some this)
    (returned : heap.returned i = some arrays) :
    arrays.freed = false ∧ ∃ after block, (heap.init i this).objects[i]? = some after ∧
      after.arrays = some block ∧ (heap.init i this).blocks[block]? = some arrays ∧
      (heap.init i this).faulted = false := by
  rw [Heap.returned, here] at returned
  simp only [Option.bind_eq_bind, Option.bind_some, Option.bind_eq_some_iff] at returned
  obtain ⟨after, found, returned⟩ := returned
  split at returned
  · contradiction
  · next sane =>
      simp only [Heap.block, Option.bind_eq_bind, Option.bind_eq_some_iff] at returned
      obtain ⟨block, pointed, own, inHeap, returned⟩ := returned
      split at returned
      · contradiction
      · next kept =>
          cases returned
          exact ⟨Bool.not_eq_true _ ▸ kept, after, block, found, pointed, inHeap,
            Bool.not_eq_true _ ▸ sane⟩

theorem small_of_init {after : ParametersT} (unbuilt : this.arrays = none)
    (here : heap.objects[i]? = some this) (found : (heap.init i this).objects[i]? = some after)
    {block : Nat} (pointed : after.arrays = some block) :
    this.p.length < 2 ^ 31 := by
  have still {other : Heap} (same : other.objects = heap.objects)
      (found : other.objects[i]? = some after) : False := by
    rw [same, here] at found
    cases found
    rw [unbuilt] at pointed
    contradiction
  rw [init, unbuilt] at found
  dsimp only at found
  rw [← toInt_eq_iff]
  split at found
  · exact (still rfl found).elim
  · split at found
    · split at found
      · next fits => exact fits
      · exact (still rfl found).elim
    · exact (still rfl found).elim

theorem sound_of_describes (here : heap.objects[i]? = some this)
    (describes : heap.Describes i this) : ∃ params, heap.Sound this params := by
  obtain ⟨params, list, types, values, lengths, formats⟩ := describes
  obtain ⟨arrays, returned, typesEq⟩ := Option.map_eq_some_iff.mp types
  rw [Heap.values, returned] at values
  rw [Heap.lengths, returned] at lengths
  rw [Heap.formats, returned] at formats
  obtain ⟨kept, after, block, found, pointed, inHeap, _⟩ := returned_ok here returned
  refine ⟨params, list, ?_, ?_⟩
  · intro unbuilt
    rw [← length_of_list list]
    exact small_of_init unbuilt here found pointed
  · intro own built
    have same : heap.init i this = heap := by rw [init, built]
    rw [same] at found inHeap
    rw [here] at found
    cases found
    rw [built] at pointed
    cases pointed
    have ofParams : arrays = .ofParams params := by
      obtain ⟨ownTypes, ownValues, ownLengths, ownFormats, freed⟩ := arrays
      simp only [Option.map_some, Option.some.injEq] at values lengths formats
      subst typesEq values lengths formats kept
      rfl
    rw [inHeap, ofParams]

theorem allDescribed_iff : heap.AllDescribed ↔ heap.faulted = false ∧
    ∀ (i : Nat) (this : ParametersT), heap.objects[i]? = some this →
      ∃ params, heap.Sound this params := by
  constructor
  · rintro ⟨sane, describes⟩
    exact ⟨sane, fun i this here => sound_of_describes here (describes here)⟩
  · rintro ⟨sane, sound⟩
    refine ⟨sane, ?_⟩
    intro i this here
    obtain ⟨params, own⟩ := sound i this here
    exact describes_of_sound sane here own

theorem AllDescribed.sound (described : heap.AllDescribed) (here : heap.objects[i]? = some this) :
    ∃ params, heap.Sound this params :=
  (allDescribed_iff.mp described).2 i this here

theorem length_of_built {changed : ParametersT} {others : List Parameter} {block : Nat}
    (sound : heap.Sound this params) (other : heap.Sound changed others)
    (built : this.arrays = some block) (shared : changed.arrays = this.arrays) :
    params.length = others.length := by
  have same : Arrays.ofParams params = .ofParams others :=
    Option.some.inj ((sound.built built).symm.trans (other.built (shared.trans built)))
  have types : params.map (fun param => param.oid) = others.map (fun param => param.oid) :=
    congrArg Arrays.types same
  simpa only [List.length_map] using congrArg List.length types

end

/-- The parameters of the arguments up to the first one that throws. -/
def accepted : List Arg → List Parameter
  | [] => []
  | arg :: args =>
      match arg.newParameter with
      | .ok param => param :: accepted args
      | .error _ => []

def completes (args : List Arg) : Prop := ∀ arg ∈ args, ∃ param, arg.newParameter = .ok param

section

variable {heap : Heap} {i : Nat} {this : ParametersT} {params : List Parameter}

theorem sound_congr {other : Heap} (same : other.blocks = heap.blocks) :
    other.Sound this params ↔ heap.Sound this params := by
  constructor
  · rintro ⟨list, small, built⟩
    exact ⟨list, small, fun pointed => same ▸ built pointed⟩
  · rintro ⟨list, small, built⟩
    exact ⟨list, small, fun pointed => same.symm ▸ built pointed⟩

theorem sound_place {changed : ParametersT} :
    (heap.place i changed).Sound this params ↔ heap.Sound this params :=
  @sound_congr heap this params (heap.place i changed) rfl

theorem described_place (described : heap.AllDescribed) (here : heap.objects[i]? = some this)
    {changed : ParametersT} :
    (heap.place i changed).AllDescribed ↔ ∃ params, heap.Sound changed params := by
  obtain ⟨sane, sound⟩ := allDescribed_iff.mp described
  have inside : i < heap.objects.length := (List.getElem?_eq_some_iff.mp here).1
  rw [allDescribed_iff]
  constructor
  · rintro ⟨_, all⟩
    obtain ⟨params, own⟩ := all i changed (List.getElem?_set_self inside)
    exact ⟨params, sound_place.mp own⟩
  · rintro ⟨params, own⟩
    refine ⟨sane, ?_⟩
    intro j that there
    change (heap.objects.set i changed)[j]? = some that at there
    by_cases same : i = j
    · subst same
      rw [List.getElem?_set_self inside] at there
      cases there
      exact ⟨params, sound_place.mpr own⟩
    · rw [List.getElem?_set_ne same] at there
      obtain ⟨others, theirs⟩ := sound j that there
      exact ⟨others, sound_place.mpr theirs⟩

theorem cleanup_unbuilt (unbuilt : this.arrays = none) : heap.cleanup this = heap := by
  rw [cleanup, unbuilt]

def Stale (heap : Heap) (this : ParametersT) : Prop :=
  ∃ block arrays, this.arrays = some block ∧ heap.blocks[block]? = some arrays ∧ arrays.freed = true

theorem stale_cleanup {block : Nat} (sound : heap.Sound this params)
    (built : this.arrays = some block) : (heap.cleanup this).Stale this := by
  have own := sound.built built
  have inside : block < heap.blocks.length := (List.getElem?_eq_some_iff.mp own).1
  rw [cleanup, built]
  dsimp only
  rw [free, own]
  exact ⟨block, _, built, List.getElem?_set_self inside, rfl⟩

theorem Stale.cleanup (stale : heap.Stale this) : (heap.cleanup this).Stale this := by
  obtain ⟨block, arrays, built, own, freed⟩ := stale
  rw [Heap.cleanup, built]
  dsimp only
  rw [free, own]
  dsimp only
  rw [if_pos freed]
  exact ⟨block, arrays, built, own, freed⟩

theorem Stale.not_sound (stale : heap.Stale this) : ¬heap.Sound this params := by
  intro sound
  obtain ⟨block, arrays, built, own, freed⟩ := stale
  rw [sound.built built] at own
  cases own
  contradiction

theorem Stale.not_described (stale : heap.Stale this) (here : heap.objects[i]? = some this) :
    ¬heap.AllDescribed := by
  intro described
  obtain ⟨_, sound⟩ := allDescribed_iff.mp described
  obtain ⟨params, own⟩ := sound i this here
  exact stale.not_sound own

theorem Stale.place (stale : heap.Stale this) (inside : i < heap.objects.length) :
    ¬(heap.place i this).AllDescribed :=
  @Stale.not_described (heap.place i this) i this stale (List.getElem?_set_self inside)

theorem length_cleanup : (heap.cleanup this).objects.length = heap.objects.length := by
  rw [Heap.cleanup]
  split
  · rw [free]
    split
    · split
      · rfl
      · rfl
    · rfl
  · rfl

theorem pushArgs_unbuilt (args : List Arg) (unbuilt : this.arrays = none) :
    ∃ completed, pushArgs args heap this =
        (heap, { this with p := this.p ++ (accepted args).map .live }, completed) ∧
      (completed = true ↔ completes args) := by
  induction args generalizing this with
  | nil => exact ⟨true, by simp [pushArgs, accepted], iff_of_true rfl (List.forall_mem_nil _)⟩
  | cons arg args ih =>
      rw [pushArgs, accepted, completes, List.forall_mem_cons, cleanup_unbuilt unbuilt]
      cases arg.newParameter with
      | error failure =>
          refine ⟨false, by simp, iff_of_false Bool.false_ne_true ?_⟩
          rintro ⟨⟨param, made⟩, _⟩
          contradiction
      | ok param =>
          obtain ⟨completed, pushed, all⟩ := @ih { this with p := this.p ++ [.live param] } unbuilt
          refine ⟨completed, ?_, all.trans (and_iff_right ⟨param, rfl⟩).symm⟩
          simp [pushed]

theorem pushArgs_stale (args : List Arg) (stale : heap.Stale this) :
    (pushArgs args heap this).1.Stale (pushArgs args heap this).2.1 ∧
      (pushArgs args heap this).1.objects.length = heap.objects.length := by
  induction args generalizing heap this with
  | nil => exact ⟨stale, rfl⟩
  | cons arg args ih =>
      rw [pushArgs]
      cases arg.newParameter with
      | error failure => exact ⟨stale.cleanup, length_cleanup⟩
      | ok param =>
          obtain ⟨later, length⟩ := @ih (heap.cleanup this) { this with p := this.p ++ [.live param] }
            stale.cleanup
          exact ⟨later, length.trans length_cleanup⟩

/-- The calls that keep the arrays of every object up to date. Arrays that were built forbid every
call that changes the list, and the move of a list that is not empty. -/
def Allowed (heap : Heap) : ParametersEvent → Prop
  | .construct args => completes args → args.length < 2 ^ 31
  | .pushBackPointer i p => ∀ this, heap.objects[i]? = some this →
      this.arrays = none ∧ p ≠ none ∧ this.p.length + 1 < 2 ^ 31
  | .pushBack i args => ∀ this, heap.objects[i]? = some this →
      args = [] ∨ this.arrays = none ∧ this.p.length + (accepted args).length < 2 ^ 31
  | .replace i pos value => ∀ this, heap.objects[i]? = some this →
      this.p.length ≤ pos ∨ this.arrays = none ∧ ∃ param, value = .ok param
  | .removeAt i pos => ∀ this, heap.objects[i]? = some this →
      this.p.length ≤ pos ∨ this.arrays = none
  | .moveConstruct i => ∀ this, heap.objects[i]? = some this → this.arrays = none ∨ this.p = []
  | .access _ _ => True

theorem length_accepted {args : List Arg} (all : completes args) :
    (accepted args).length = args.length := by
  induction args with
  | nil => rfl
  | cons arg args ih =>
      obtain ⟨⟨param, made⟩, others⟩ := List.forall_mem_cons.mp all
      rw [accepted, made, List.length_cons, List.length_cons, ih others]

theorem on_iff (described : heap.AllDescribed) {call : ParametersT → Heap} {cond : ParametersT → Prop}
    (each : ∀ this, heap.objects[i]? = some this → ((call this).AllDescribed ↔ cond this)) :
    (heap.on i call).AllDescribed ↔ ∀ this, heap.objects[i]? = some this → cond this := by
  rw [on]
  cases here : heap.objects[i]? with
  | none => exact iff_of_true described nofun
  | some this =>
      dsimp only
      rw [each this here]
      constructor
      · rintro holds _ ⟨⟩
        exact holds
      · intro all
        exact all this rfl

end

section

variable {heap : Heap} (described : heap.AllDescribed) {i : Nat} {this : ParametersT}
  (here : heap.objects[i]? = some this)

include described here

theorem built_not_described {block : Nat} (built : this.arrays = some block) (p : List Slot) :
    ¬((heap.cleanup this).place i { this with p }).AllDescribed := by
  obtain ⟨params, sound⟩ := described.sound here
  have inside : i < (heap.cleanup this).objects.length := by
    rw [length_cleanup]
    exact (List.getElem?_eq_some_iff.mp here).1
  have stale : (heap.cleanup this).Stale this := stale_cleanup sound built
  exact @Stale.place (heap.cleanup this) i { this with p } stale inside

theorem described_unbuilt (unbuilt : this.arrays = none) (p : List Slot) :
    (heap.place i { this with p }).AllDescribed ↔
      ∃ params : List Parameter, p = params.map .live ∧ params.length < 2 ^ 31 := by
  rw [described_place described here]
  constructor
  · rintro ⟨params, list, small, _⟩
    exact ⟨params, list, small unbuilt⟩
  · rintro ⟨params, list, small⟩
    refine ⟨params, list, fun _ => small, ?_⟩
    intro block built
    rw [unbuilt] at built
    contradiction

theorem pushBackPointer_iff {p : Option Parameter} :
    (heap.pushBackPointer i this p).AllDescribed ↔
      this.arrays = none ∧ p ≠ none ∧ this.p.length + 1 < 2 ^ 31 := by
  obtain ⟨params, sound⟩ := described.sound here
  rw [pushBackPointer]
  by_cases unbuilt : this.arrays = none
  · rw [cleanup_unbuilt unbuilt, described_unbuilt described here unbuilt, and_iff_right unbuilt,
      length_of_list sound.list, sound.list]
    constructor
    · rintro ⟨longer, list, small⟩
      have length := congrArg List.length list
      rw [List.length_append, List.length_map, List.length_map, List.length_singleton] at length
      refine ⟨?_, by omega⟩
      rintro rfl
      have member : Slot.null ∈ longer.map Slot.live := by
        rw [← list]
        exact List.mem_append_right _ (List.mem_singleton.mpr rfl)
      obtain ⟨param, _, same⟩ := List.mem_map.mp member
      contradiction
    · rintro ⟨given, small⟩
      obtain ⟨param, rfl⟩ := Option.ne_none_iff_exists'.mp given
      refine ⟨params ++ [param], ?_, ?_⟩
      · rw [List.map_append]
        rfl
      · rw [List.length_append, List.length_singleton]
        exact small
  · obtain ⟨block, built⟩ := Option.ne_none_iff_exists'.mp unbuilt
    exact iff_of_false (built_not_described described here built _) fun given => unbuilt given.1

theorem pushBack_iff {args : List Arg} :
    (heap.pushBack i this args).AllDescribed ↔
      args = [] ∨ this.arrays = none ∧ this.p.length + (accepted args).length < 2 ^ 31 := by
  obtain ⟨params, sound⟩ := described.sound here
  cases args with
  | nil =>
      refine iff_of_true ?_ (Or.inl rfl)
      change (heap.place i this).AllDescribed
      exact (described_place described here).mpr ⟨params, sound⟩
  | cons arg args =>
      rw [or_iff_right (List.cons_ne_nil arg args), pushBack]
      by_cases unbuilt : this.arrays = none
      · obtain ⟨completed, pushed, _⟩ := @pushArgs_unbuilt heap this (arg :: args) unbuilt
        rw [pushed]
        dsimp only
        rw [described_unbuilt described here unbuilt, and_iff_right unbuilt, sound.list,
          List.length_map, ← List.map_append]
        constructor
        · rintro ⟨longer, list, small⟩
          have length := congrArg List.length list
          simp only [List.length_map, List.length_append] at length
          omega
        · intro small
          exact ⟨_, rfl, by rw [List.length_append]; exact small⟩
      · obtain ⟨block, built⟩ := Option.ne_none_iff_exists'.mp unbuilt
        have stale : (heap.cleanup this).Stale this := stale_cleanup sound built
        have inside : i < (heap.cleanup this).objects.length := by
          rw [length_cleanup]
          exact (List.getElem?_eq_some_iff.mp here).1
        refine iff_of_false ?_ fun given => unbuilt given.1
        rw [pushArgs]
        cases arg.newParameter with
        | error failure => exact stale.place inside
        | ok param =>
            obtain ⟨later, length⟩ := @pushArgs_stale (heap.cleanup this)
              { this with p := this.p ++ [.live param] } args stale
            exact later.place (by rw [length]; exact inside)

theorem replace_iff {pos : Nat} {value : Except WireError Parameter} :
    (heap.replace i this pos value).AllDescribed ↔
      this.p.length ≤ pos ∨ this.arrays = none ∧ ∃ param, value = .ok param := by
  obtain ⟨params, sound⟩ := described.sound here
  rw [Heap.replace.eq_def]
  by_cases outside : pos ≥ this.p.length
  · rw [if_pos outside]
    exact iff_of_true described (Or.inl outside)
  · have inList : pos < params.length := by
      rw [← length_of_list sound.list]
      omega
    have kept : this.p[pos]? ≠ some .deleted := by
      rw [sound.list, List.getElem?_map, List.getElem?_eq_getElem inList]
      nofun
    rw [if_neg outside, or_iff_right outside]
    dsimp only
    rw [if_neg kept]
    by_cases unbuilt : this.arrays = none
    · rw [cleanup_unbuilt unbuilt, described_unbuilt described here unbuilt, and_iff_right unbuilt,
        sound.list]
      cases value with
      | error failure =>
          refine iff_of_false ?_ nofun
          rintro ⟨others, list, _⟩
          have member : Slot.deleted ∈ others.map Slot.live := by
            rw [← list]
            exact List.mem_set (by rw [List.length_map]; exact inList) _
          obtain ⟨param, _, same⟩ := List.mem_map.mp member
          contradiction
      | ok param =>
          refine iff_of_true ⟨params.set pos param, List.map_set.symm, ?_⟩ ⟨param, rfl⟩
          rw [List.length_set]
          exact sound.small unbuilt
    · obtain ⟨block, built⟩ := Option.ne_none_iff_exists'.mp unbuilt
      exact iff_of_false (built_not_described described here built _) fun given => unbuilt given.1

theorem removeAt_iff {pos : Nat} :
    (heap.removeAt i this pos).AllDescribed ↔ this.p.length ≤ pos ∨ this.arrays = none := by
  obtain ⟨params, sound⟩ := described.sound here
  rw [removeAt]
  by_cases outside : pos ≥ this.p.length
  · rw [if_pos outside]
    exact iff_of_true described (Or.inl outside)
  · rw [if_neg outside, or_iff_right outside]
    by_cases unbuilt : this.arrays = none
    · rw [described_unbuilt described here unbuilt, sound.list]
      refine iff_of_true ⟨params.eraseIdx pos, List.eraseIdx_map _ _ _, ?_⟩ unbuilt
      exact lt_of_le_of_lt (List.length_eraseIdx_le _ _) (sound.small unbuilt)
    · obtain ⟨block, built⟩ := Option.ne_none_iff_exists'.mp unbuilt
      refine iff_of_false ?_ unbuilt
      rw [described_place described here]
      rintro ⟨others, stale⟩
      have entries := length_of_built sound stale built rfl
      have shorter := length_of_list stale.list
      have whole := length_of_list sound.list
      rw [List.length_eraseIdx_of_lt (by omega)] at shorter
      omega

theorem moveConstruct_iff :
    (heap.moveConstruct i this).AllDescribed ↔ this.arrays = none ∨ this.p = [] := by
  obtain ⟨params, sound⟩ := described.sound here
  obtain ⟨sane, all⟩ := allDescribed_iff.mp described
  have inside : i < heap.objects.length := (List.getElem?_eq_some_iff.mp here).1
  have source : (heap.moveConstruct i this).objects[i]? = some { this with p := [] } := by
    rw [moveConstruct]
    dsimp only [place]
    rw [List.getElem?_append_left (by rw [List.length_set]; exact inside),
      List.getElem?_set_self inside]
  have blocks {that : ParametersT} {others : List Parameter} :
      (heap.moveConstruct i this).Sound that others ↔ heap.Sound that others :=
    @sound_congr heap that others (heap.moveConstruct i this) rfl
  rw [allDescribed_iff]
  constructor
  · rintro ⟨_, after⟩
    obtain ⟨none, own⟩ := after i _ source
    have empty : none = [] := List.map_eq_nil_iff.mp (blocks.mp own).list.symm
    subst empty
    by_cases unbuilt : this.arrays = .none
    · exact Or.inl unbuilt
    · obtain ⟨block, built⟩ := Option.ne_none_iff_exists'.mp unbuilt
      have none := length_of_built sound (blocks.mp own) built rfl
      right
      rw [sound.list, List.length_eq_zero_iff.mp none]
      rfl
  · intro movable
    refine ⟨sane, ?_⟩
    intro j that there
    rw [moveConstruct] at there
    dsimp only [place] at there
    rw [List.getElem?_append, List.length_set] at there
    split at there
    · by_cases same : i = j
      · subst same
        rw [List.getElem?_set_self inside] at there
        cases there
        refine ⟨[], blocks.mpr ⟨rfl, fun _ => by decide, ?_⟩⟩
        intro block built
        rcases movable with unbuilt | empty
        · rw [unbuilt] at built
          contradiction
        · have none : params = [] := List.map_eq_nil_iff.mp (sound.list.symm.trans empty)
          rw [← none]
          exact sound.built built
      · rw [List.getElem?_set_ne same] at there
        obtain ⟨others, theirs⟩ := all j that there
        exact ⟨others, blocks.mpr theirs⟩
    · rw [List.getElem?_singleton] at there
      split at there
      · cases there
        exact ⟨params, blocks.mpr sound⟩
      · contradiction

theorem init_described : (heap.init i this).AllDescribed := by
  obtain ⟨params, sound⟩ := described.sound here
  obtain ⟨sane, all⟩ := allDescribed_iff.mp described
  have inside : i < heap.objects.length := (List.getElem?_eq_some_iff.mp here).1
  by_cases unbuilt : this.arrays = none
  · rw [init_sound sound unbuilt, allDescribed_iff]
    refine ⟨sane, ?_⟩
    intro j that there
    dsimp only [place] at there
    by_cases same : i = j
    · subst same
      rw [List.getElem?_set_self inside] at there
      cases there
      refine ⟨params, sound.list, nofun, ?_⟩
      rintro _ ⟨⟩
      exact List.getElem?_concat_length
    · rw [List.getElem?_set_ne same] at there
      obtain ⟨others, list, small, built⟩ := all j that there
      refine ⟨others, list, small, ?_⟩
      intro block pointed
      have own := built pointed
      exact (List.getElem?_append_left (List.getElem?_eq_some_iff.mp own).1).trans own
  · obtain ⟨block, built⟩ := Option.ne_none_iff_exists'.mp unbuilt
    rw [init, built]
    exact described

end

section

variable {heap : Heap} (described : heap.AllDescribed)

include described

theorem construct_iff {args : List Arg} :
    (heap.construct args).AllDescribed ↔ (completes args → args.length < 2 ^ 31) := by
  obtain ⟨sane, all⟩ := allDescribed_iff.mp described
  obtain ⟨completed, pushed, complete⟩ := @pushArgs_unbuilt heap {} args rfl
  rw [construct, pushed]
  dsimp only
  cases completed with
  | false =>
      refine iff_of_true described ?_
      intro done
      exact absurd (complete.mpr done) Bool.false_ne_true
  | true =>
      have done := complete.mp rfl
      rw [if_pos rfl, forall_prop_of_true done, allDescribed_iff, ← length_accepted done]
      constructor
      · rintro ⟨_, after⟩
        obtain ⟨params, list, small, _⟩ := after heap.objects.length _ List.getElem?_concat_length
        have length := congrArg List.length list
        simp only [List.nil_append, List.length_map] at length
        rw [length]
        exact small rfl
      · intro small
        refine ⟨sane, ?_⟩
        intro j that there
        rw [List.getElem?_append] at there
        split at there
        · obtain ⟨others, list, few, built⟩ := all j that there
          exact ⟨others, list, few, built⟩
        · rw [List.getElem?_singleton] at there
          split at there
          · cases there
            exact ⟨accepted args, rfl, fun _ => small, nofun⟩
          · contradiction

theorem apply_iff (event : ParametersEvent) :
    (heap.apply event).AllDescribed ↔ heap.Allowed event := by
  cases event with
  | construct args => exact construct_iff described
  | pushBackPointer i p =>
      exact on_iff described fun this here => pushBackPointer_iff described here
  | pushBack i args => exact on_iff described fun this here => pushBack_iff described here
  | replace i pos value => exact on_iff described fun this here => replace_iff described here
  | removeAt i pos => exact on_iff described fun this here => removeAt_iff described here
  | moveConstruct i => exact on_iff described fun this here => moveConstruct_iff described here
  | access i accessor =>
      refine iff_of_true ?_ trivial
      rw [apply, on]
      split
      · next this here => exact init_described described here
      · exact described

end

theorem empty_described : AllDescribed {} := by
  refine ⟨rfl, ?_⟩
  intro i this here
  rw [List.getElem?_nil] at here
  contradiction

/-- In a run of calls the arrays of every object describe its current parameters after each call
exactly if all of the calls are allowed ones. -/
theorem arrays_describe_iff (events : List ParametersEvent) :
    (∀ reached, reached <+: events → (Runs.run apply {} reached).AllDescribed) ↔
      Runs.Meets apply Allowed {} events := by
  refine @Runs.always_good_iff_meets _ _ apply Allowed (fun _ => True) AllDescribed
    (fun _ _ _ => trivial) ?_ {} events trivial empty_described
  intro heap event _ described
  exact apply_iff described event

/-- After `types`, a `push_back` frees the arrays that the next accessor returns, and a `remove_at`
leaves them with one entry too many. -/
theorem arrays_outlive_their_list :
    ¬(Runs.run apply {} [.construct [], .pushBack 0 [.nullptr], .access 0 .types,
        .pushBack 0 [.nullptr]]).AllDescribed ∧
      ¬(Runs.run apply {} [.construct [], .pushBack 0 [.nullptr], .access 0 .types,
        .removeAt 0 0]).AllDescribed := by
  constructor
  · rintro ⟨_, describes⟩
    obtain ⟨params, _, types, _⟩ := @describes 0 _ rfl
    have freed : Heap.types (Runs.run apply {} [.construct [], .pushBack 0 [.nullptr],
        .access 0 .types, .pushBack 0 [.nullptr]]) 0 = none := rfl
    rw [freed] at types
    contradiction
  · rintro ⟨_, describes⟩
    obtain ⟨params, list, types, _⟩ := @describes 0 _ rfl
    have kept : Heap.types (Runs.run apply {} [.construct [], .pushBack 0 [.nullptr],
        .access 0 .types, .removeAt 0 0]) 0 = some [0] := rfl
    have none : params = [] := List.map_eq_nil_iff.mp list.symm
    rw [kept, none] at types
    contradiction

end Heap

end PqAsync
