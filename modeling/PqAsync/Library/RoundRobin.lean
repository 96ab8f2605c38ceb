import Mathlib.Data.List.Nodup
import Mathlib.Data.List.Perm.Basic
import Mathlib.Order.Lattice

/-!
Taking turns by keys: of a list of items, the next one is the first with a higher key than the
one before it, or else the first of the list. Every window of turns is fair exactly when the
keys increase along the list.
-/

namespace RoundRobin

variable {α β : Type*} [LinearOrder β] (key : α → β)

/-- The items in the order in which they are tried after the key `last`. -/
def order (last : β) (items : List α) : List α :=
  items.filter (fun item => last < key item) ++ items.filter (fun item => key item ≤ last)

/-- The items that are taken one after another, the first of them after the key `last`. -/
def Turns (items : List α) : β → List α → Prop
  | _, [] => True
  | last, item :: taken => (order key last items).head? = some item ∧ Turns items (key item) taken

def Sorted (items : List α) : Prop := items.Pairwise fun a b => key a < key b

variable {key} {items : List α} {last : β}

theorem order_perm : (order key last items).Perm items := by
  have rest : (fun item => decide (key item ≤ last)) = fun item => !decide (last < key item) := by
    funext item
    rw [← decide_not, decide_eq_decide, not_lt]
  rw [order, rest]
  exact List.filter_append_perm _ items

theorem turns_append {before after : List α} (turns : Turns key items last (before ++ after)) :
    ∃ last, Turns key items last after := by
  induction before generalizing last with
  | nil => exact ⟨last, turns⟩
  | cons item before ih => exact ih turns.2

theorem turns_front {before after : List α} (turns : Turns key items last (before ++ after)) :
    Turns key items last before := by
  induction before generalizing last with
  | nil => trivial
  | cons item before ih => exact ⟨turns.1, ih turns.2⟩

theorem exists_turns (nonempty : items ≠ []) (count : Nat) (last : β) :
    ∃ taken, taken.length = count ∧ Turns key items last taken := by
  induction count generalizing last with
  | zero => exact ⟨[], rfl, trivial⟩
  | succ count ih =>
      cases queue : order key last items with
      | nil => exact absurd (order_perm.symm.trans (.of_eq queue)).eq_nil nonempty
      | cons item rest =>
          obtain ⟨taken, length, turns⟩ := ih (key item)
          exact ⟨item :: taken, congrArg Nat.succ length, congrArg List.head? queue, turns⟩

theorem filter_all {p : α → Prop} [DecidablePred p] (all : ∀ item ∈ items, p item) :
    items.filter (fun item => p item) = items :=
  List.filter_eq_self.mpr fun item member => decide_eq_true (all item member)

theorem filter_none {p : α → Prop} [DecidablePred p] (none : ∀ item ∈ items, ¬p item) :
    items.filter (fun item => p item) = [] :=
  List.filter_eq_nil_iff.mpr fun item member holds => none item member (of_decide_eq_true holds)

section Fair

variable {before after : List α} {item : α}

theorem order_at (sorted : Sorted key (before ++ item :: after)) :
    order key (key item) (before ++ item :: after) = after ++ (before ++ [item]) := by
  obtain ⟨_, tail, across⟩ := List.pairwise_append.mp sorted
  have below : ∀ other ∈ before, key other < key item :=
    fun other member => across other member item List.mem_cons_self
  have above : ∀ other ∈ after, key item < key other := (List.pairwise_cons.mp tail).1
  have higher : (before ++ item :: after).filter (fun other => key item < key other) = after := by
    rw [List.filter_append, filter_none fun other member => (below other member).not_gt,
      List.nil_append, List.filter_cons_of_neg (by simp), filter_all above]
  have lower : (before ++ item :: after).filter (fun other => key other ≤ key item) =
      before ++ [item] := by
    rw [List.filter_append, filter_all fun other member => (below other member).le,
      List.filter_cons_of_pos (by simp), filter_none fun other member => (above other member).not_ge]
  rw [order, higher, lower]

theorem sorted_split (sorted : Sorted key items) (last : β) :
    items.filter (fun item => key item ≤ last) ++ items.filter (fun item => last < key item) =
      items := by
  induction items with
  | nil => rfl
  | cons item items ih =>
      obtain ⟨above, rest⟩ := List.pairwise_cons.mp sorted
      by_cases low : key item ≤ last
      · rw [List.filter_cons_of_pos (by simpa using low),
          List.filter_cons_of_neg (by simpa using low), List.cons_append, ih rest]
      · have high : ∀ other ∈ item :: items, last < key other := by
          intro other member
          rcases List.mem_cons.mp member with rfl | later
          · exact not_le.mp low
          · exact (not_le.mp low).trans (above other later)
        rw [filter_none fun other member => (high other member).not_ge, filter_all high,
          List.nil_append]

theorem order_next (sorted : Sorted key items) {queue : List α}
    (now : order key last items = item :: queue) : order key (key item) items = queue ++ [item] := by
  have split := sorted_split sorted last
  rw [order] at now
  cases high : items.filter fun item => last < key item with
  | nil =>
      rw [high, List.nil_append] at now
      rw [high, List.append_nil, now] at split
      rw [← split] at sorted ⊢
      exact @order_at _ _ _ key [] queue item sorted
  | cons first high' =>
      rw [high, List.cons_append, List.cons.injEq] at now
      rw [high, now.1] at split
      rw [← now.2, List.append_assoc]
      generalize items.filter (fun item => key item ≤ last) = low at *
      subst split
      exact order_at sorted

theorem turns_queue (sorted : Sorted key items) {front back taken rest : List α}
    (turns : Turns key items last (taken ++ rest)) (queue : order key last items = front ++ back)
    (length : taken.length = front.length) : taken = front := by
  induction front generalizing last back taken with
  | nil => exact List.length_eq_zero_iff.mp length
  | cons item front ih =>
      cases taken with
      | nil => cases length
      | cons first taken =>
          obtain ⟨head, later⟩ := turns
          rw [queue] at head
          obtain rfl : item = first := Option.some.inj head
          have next : order key (key item) items = front ++ (back ++ [item]) :=
            (order_next sorted queue).trans (List.append_assoc _ _ _)
          rw [ih later next (Nat.succ.inj length)]

end Fair

/-- The next item is the same after either key: they have the same items above them, or nothing
is above the first one and everything above the second. -/
def SameTurn (key : α → β) (items : List α) (first second : β) : Prop :=
  (∀ item ∈ items, first < key item ↔ second < key item) ∨
    ((∀ item ∈ items, ¬first < key item) ∧ ∀ item ∈ items, second < key item)

instance (first second : β) : Decidable (SameTurn key items first second) := by
  unfold SameTurn
  infer_instance

theorem SameTurn.head {first second : β} (same : SameTurn key items first second) :
    (order key first items).head? = (order key second items).head? := by
  rcases same with same | ⟨none, all⟩
  · have above : items.filter (fun item => first < key item) =
        items.filter (fun item => second < key item) :=
      List.filter_congr fun item member => decide_eq_decide.mpr (same item member)
    have below : items.filter (fun item => key item ≤ first) =
        items.filter (fun item => key item ≤ second) := by
      refine List.filter_congr fun item member => decide_eq_decide.mpr ?_
      rw [← not_lt, ← not_lt, same item member]
    rw [order, order, above, below]
  · have low : ∀ item ∈ items, key item ≤ first := fun item member => not_lt.mp (none item member)
    have high : ∀ item ∈ items, ¬key item ≤ second := fun item member =>
      not_le.mpr (all item member)
    rw [order, order, filter_none none, filter_all low, filter_all all, filter_none high,
      List.nil_append, List.append_nil]

theorem head_above (sorted : Sorted key items) {item : α}
    (head : (order key last items).head? = some item) :
    (∀ other ∈ items, last < key other ↔ key item ≤ key other) ∨
      ((∀ other ∈ items, ¬last < key other) ∧ ∀ other ∈ items, key item ≤ key other) := by
  have split := sorted_split sorted last
  have parts : ∀ other ∈ items, last < key other ↔
      other ∈ items.filter (fun item => last < key item) := by
    intro other member
    rw [List.mem_filter, decide_eq_true_eq]
    exact (and_iff_right member).symm
  rw [order] at head
  cases high : items.filter fun item => last < key item with
  | nil =>
      right
      rw [high, List.append_nil] at split
      rw [high, List.nil_append, split] at head
      rw [high] at parts
      refine ⟨fun other member above => List.not_mem_nil ((parts other member).mp above), ?_⟩
      obtain ⟨rest, rfl⟩ := List.head?_eq_some_iff.mp head
      intro other member
      rcases List.mem_cons.mp member with rfl | later
      · exact le_rfl
      · exact ((List.pairwise_cons.mp sorted).1 other later).le
  | cons first rest =>
      left
      rw [high] at head parts split
      obtain rfl : first = item := Option.some.inj head
      rw [← split] at sorted
      obtain ⟨_, tail, across⟩ := List.pairwise_append.mp sorted
      intro other member
      rw [parts other member]
      constructor
      · intro inside
        rcases List.mem_cons.mp inside with rfl | later
        · exact le_rfl
        · exact ((List.pairwise_cons.mp tail).1 other later).le
      · intro above
        rw [← split] at member
        refine (List.mem_append.mp member).resolve_left fun below => ?_
        exact absurd (across other below first List.mem_cons_self) above.not_gt

theorem sameTurn_iff (sorted : Sorted key items) {item : α} (member : item ∈ items) :
    (order key (key item) items).head? = (order key last items).head? ↔
      SameTurn key items (key item) last := by
  constructor
  · intro same
    cases head : (order key (key item) items).head? with
    | none =>
        have empty := List.head?_eq_none_iff.mp head
        exact absurd (order_perm.symm.subset member) (by rw [empty]; exact List.not_mem_nil)
    | some next =>
        rcases head_above sorted head with first | ⟨none, least⟩
        · rcases head_above sorted (same.symm.trans head) with second | ⟨_, least⟩
          · exact .inl fun other inside => (first other inside).trans (second other inside).symm
          · exact absurd ((first item member).mpr (least item member)) (lt_irrefl _)
        · rcases head_above sorted (same.symm.trans head) with second | ⟨none', _⟩
          · exact .inr ⟨none, fun other inside => (second other inside).mpr (least other inside)⟩
          · exact .inl fun other inside => iff_of_false (none other inside) (none' other inside)
  · exact SameTurn.head

theorem turns_record {taken : List α} (turns : Turns key items last taken) :
    ∀ item ∈ taken, ∃ before after, items = before ++ item :: after ∧
      ∀ other ∈ before, key other < key item := by
  induction taken generalizing last with
  | nil =>
      intro item member
      cases member
  | cons first taken ih =>
      intro item member
      rcases List.mem_cons.mp member with rfl | later
      · have head := turns.1
        rw [order, List.head?_append] at head
        cases found : (items.filter fun item => last < key item).head? with
        | some higher =>
            rw [found] at head
            obtain rfl : higher = item := Option.some.inj head
            rw [List.head?_filter, List.find?_eq_some_iff_append] at found
            obtain ⟨higher, before, after, split, low⟩ := found
            refine ⟨before, after, split, ?_⟩
            intro other inFront
            have below : ¬last < key other := by simpa using low other inFront
            exact (not_lt.mp below).trans_lt (of_decide_eq_true higher)
        | none =>
            rw [found, Option.none_or] at head
            have low : ∀ other ∈ items, key other ≤ last := by
              intro other inside
              have none := List.filter_eq_nil_iff.mp (List.head?_eq_none_iff.mp found) other inside
              exact not_lt.mp fun above => none (decide_eq_true above)
            rw [filter_all low] at head
            obtain ⟨after, split⟩ := List.head?_eq_some_iff.mp head
            exact ⟨[], after, split, fun other impossible => nomatch impossible⟩
      · exact ih turns.2 item later

theorem sorted_of_records (nodup : items.Nodup)
    (records : ∀ item ∈ items, ∃ before after, items = before ++ item :: after ∧
      ∀ other ∈ before, key other < key item) : Sorted key items := by
  rw [Sorted, List.pairwise_iff_getElem]
  intro i j inside bound less
  obtain ⟨item, is⟩ : ∃ item, item = items[j] := ⟨_, rfl⟩
  obtain ⟨before, after, split, above⟩ := records item (is ▸ List.getElem_mem bound)
  have within : before.length < items.length := by
    rw [split, List.length_append, List.length_cons]
    omega
  have same : items[before.length] = items[j] := by
    rw [← is]
    simp only [split, List.getElem_append_right (Nat.le_refl _), Nat.sub_self,
      List.getElem_cons_zero]
  have position : before.length = j := nodup.getElem_inj_iff.mp same
  have inFront : i < before.length := less.trans_eq position.symm
  have front : items[i] = before[i] := by
    simp only [split]
    exact List.getElem_append_left inFront
  rw [← is, front]
  exact above _ (List.getElem_mem inFront)

theorem fair_iff_sorted (nodup : items.Nodup) (last : β) :
    (∀ taken, Turns key items last taken → ∀ before block after,
      taken = before ++ (block ++ after) → block.length = items.length → block.Perm items) ↔
      Sorted key items := by
  constructor
  · intro fair
    by_cases empty : items = []
    · rw [empty]
      exact List.Pairwise.nil
    · obtain ⟨taken, length, turns⟩ := exists_turns empty items.length last
      have all := fair taken turns [] taken [] (List.append_nil taken).symm length
      refine sorted_of_records nodup fun item member => ?_
      exact turns_record turns item (all.symm.subset member)
  · rintro sorted taken turns before block after rfl length
    obtain ⟨last, window⟩ := turns_append turns
    have front := turns_queue sorted window (List.append_nil _).symm
      (length.trans order_perm.length_eq.symm)
    rw [front]
    exact order_perm

theorem exists_turns_to (sorted : Sorted key items) {item : α} (member : item ∈ items)
    (count : Nat) (last : β) :
    ∃ front, count ≤ front.length ∧ Turns key items last (front ++ [item]) := by
  obtain ⟨taken, length, turns⟩ :=
    exists_turns (List.ne_nil_of_mem member) (count + items.length) last
  have whole : taken.take count ++ taken.drop count = taken := List.take_append_drop count taken
  have nodup : items.Nodup := sorted.imp fun less same => (same ▸ less).false
  have window : (taken.drop count).Perm items :=
    (fair_iff_sorted nodup last).mpr sorted taken turns (taken.take count) (taken.drop count) []
      (by rw [List.append_nil, whole]) (by rw [List.length_drop, length, Nat.add_sub_cancel_left])
  obtain ⟨before, after, split⟩ := List.append_of_mem (window.symm.subset member)
  refine ⟨taken.take count ++ before, ?_, ?_⟩
  · rw [List.length_append, List.length_take, length]
    omega
  · rw [← whole, split, ← List.singleton_append, ← List.append_assoc, ← List.append_assoc] at turns
    exact turns_front turns

end RoundRobin
