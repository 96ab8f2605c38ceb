import Mathlib.Order.Basic
import Mathlib.Data.Int.Order.Basic
import Mathlib.Data.List.Lex
import Mathlib.Data.Prod.Lex

/-!
Three-way comparisons: a number whose sign tells how two values are ordered.
-/

namespace ThreeWay

variable {β : Type*} [LinearOrder β]

/-- The sign of `stat` is the order of the values. -/
structure Orders (stat : Int) (left right : β) : Prop where
  below : stat < 0 ↔ left < right
  same : stat = 0 ↔ left = right
  above : 0 < stat ↔ right < left

variable {stat : Int} {left right : β}

theorem Orders.of_lt (negative : stat < 0) (order : left < right) : Orders stat left right where
  below := iff_of_true negative order
  same := iff_of_false negative.ne order.ne
  above := iff_of_false negative.le.not_gt order.le.not_gt

theorem Orders.of_eq (zero : stat = 0) (order : left = right) : Orders stat left right where
  below := iff_of_false zero.not_lt order.not_lt
  same := iff_of_true zero order
  above := iff_of_false zero.not_gt order.not_gt

theorem Orders.of_gt (positive : 0 < stat) (order : right < left) : Orders stat left right where
  below := iff_of_false positive.le.not_gt order.le.not_gt
  same := iff_of_false positive.ne' order.ne'
  above := iff_of_true positive order

theorem Orders.reverse {γ : Type*} [LinearOrder γ] {flip : β → γ}
    (antitone : ∀ a b, flip a < flip b ↔ b < a) (orders : Orders stat left right) :
    Orders stat (flip right) (flip left) := by
  rcases lt_trichotomy stat 0 with negative | zero | positive
  · exact .of_lt negative ((antitone right left).mpr (orders.below.mp negative))
  · exact .of_eq zero (congrArg flip (orders.same.mp zero).symm)
  · exact .of_gt positive ((antitone left right).mpr (orders.above.mp positive))

theorem Orders.transfer {γ : Type*} [LinearOrder γ] {left' right' : γ}
    (orders : Orders stat left right) (below : left < right → left' < right')
    (same : left = right → left' = right') (above : right < left → right' < left') :
    Orders stat left' right' := by
  rcases lt_trichotomy stat 0 with negative | zero | positive
  · exact .of_lt negative (below (orders.below.mp negative))
  · exact .of_eq zero (same (orders.same.mp zero))
  · exact .of_gt positive (above (orders.above.mp positive))

theorem Orders.of_ifs [DecidableLT β] (left right : β) :
    Orders (if left < right then -1 else if right < left then 1 else 0) left right := by
  by_cases below : left < right
  · rw [if_pos below]
    exact .of_lt (by decide) below
  · by_cases above : right < left
    · rw [if_neg below, if_pos above]
      exact .of_gt (by decide) above
    · rw [if_neg below, if_neg above]
      exact .of_eq rfl (le_antisymm (not_lt.mp above) (not_lt.mp below))

theorem Orders.le_iff (orders : Orders stat left right) : stat ≤ 0 ↔ left ≤ right := by
  rw [← not_lt, ← not_lt, orders.above]

theorem Orders.ge_iff (orders : Orders stat left right) : 0 ≤ stat ↔ right ≤ left := by
  rw [← not_lt, ← not_lt, orders.below]

section Lexicographic

variable {γ : Type*} [LinearOrder γ] {first second : Int}

def thenBy (first second : Int) : Int := if first ≠ 0 then first else second

@[simp] theorem thenBy_zero (second : Int) : thenBy 0 second = second := rfl

theorem thenBy_of_ne {first : Int} (decided : first ≠ 0) (second : Int) :
    thenBy first second = first := if_pos decided

theorem thenBy_assoc (first second third : Int) :
    thenBy (thenBy first second) third = thenBy first (thenBy second third) := by
  by_cases zero : first = 0
  · rw [zero, thenBy_zero, thenBy_zero]
  · rw [thenBy_of_ne zero, thenBy_of_ne zero, thenBy_of_ne zero]

theorem Orders.lex {a b : β} {c d : γ} (major : Orders first a b)
    (minor : a = b → Orders second c d) :
    Orders (thenBy first second) (toLex (a, c)) (toLex (b, d)) := by
  rcases lt_trichotomy first 0 with negative | zero | positive
  · rw [thenBy_of_ne negative.ne]
    exact .of_lt negative (Prod.Lex.toLex_lt_toLex.mpr (.inl (major.below.mp negative)))
  · have same := major.same.mp zero
    subst same
    rw [zero, thenBy_zero]
    have rest := minor rfl
    rcases lt_trichotomy second 0 with negative | zero | positive
    · exact .of_lt negative (Prod.Lex.toLex_lt_toLex.mpr (.inr ⟨rfl, rest.below.mp negative⟩))
    · exact .of_eq zero (congrArg (fun c => toLex (a, c)) (rest.same.mp zero))
    · exact .of_gt positive (Prod.Lex.toLex_lt_toLex.mpr (.inr ⟨rfl, rest.above.mp positive⟩))
  · rw [thenBy_of_ne positive.ne']
    exact .of_gt positive (Prod.Lex.toLex_lt_toLex.mpr (.inl (major.above.mp positive)))

theorem lt_of_append_lt {l r : List β} (order : l < r) (length : l.length = r.length)
    (l' r' : List β) : l ++ l' < r ++ r' := by
  induction l generalizing r with
  | nil =>
      obtain rfl := List.length_eq_zero_iff.mp length.symm
      exact absurd order (lt_irrefl _)
  | cons a l ih =>
      cases r with
      | nil => cases length
      | cons b r =>
          rcases List.cons_lt_cons_iff.mp order with less | ⟨rfl, less⟩
          · exact List.cons_lt_cons_iff.mpr (.inl less)
          · exact List.cons_lt_cons_iff.mpr (.inr ⟨rfl, ih less (Nat.succ.inj length)⟩)

theorem append_lt_append (l : List β) {l' r' : List β} (order : l' < r') : l ++ l' < l ++ r' := by
  induction l with
  | nil => exact order
  | cons a l ih => exact List.cons_lt_cons_iff.mpr (.inr ⟨rfl, ih⟩)

theorem Orders.prepend {l r : List β} (orders : Orders first l r) (front : List β) :
    Orders first (front ++ l) (front ++ r) := by
  rcases lt_trichotomy first 0 with negative | zero | positive
  · exact .of_lt negative (append_lt_append front (orders.below.mp negative))
  · exact .of_eq zero (congrArg (front ++ ·) (orders.same.mp zero))
  · exact .of_gt positive (append_lt_append front (orders.above.mp positive))

theorem Orders.append {l r l' r' : List β} (length : l.length = r.length)
    (major : Orders first l r) (minor : Orders second l' r') :
    Orders (thenBy first second) (l ++ l') (r ++ r') := by
  rcases lt_trichotomy first 0 with negative | zero | positive
  · rw [thenBy_of_ne negative.ne]
    exact .of_lt negative (lt_of_append_lt (major.below.mp negative) length l' r')
  · rw [zero, thenBy_zero, major.same.mp zero]
    exact minor.prepend r
  · rw [thenBy_of_ne positive.ne']
    exact .of_gt positive (lt_of_append_lt (major.above.mp positive) length.symm r' l')

theorem Orders.of_length {l r : List β} (ended : l = [] ∨ r = []) :
    Orders ((l.length : Int) - r.length) l r := by
  cases l with
  | nil =>
      cases r with
      | nil => exact .of_eq rfl rfl
      | cons b r =>
          refine .of_lt ?_ (List.nil_lt_cons b r)
          rw [List.length_nil, List.length_cons]
          omega
  | cons a l =>
      obtain rfl := ended.resolve_left (List.cons_ne_nil a l)
      refine .of_gt ?_ (List.nil_lt_cons a l)
      rw [List.length_nil, List.length_cons]
      omega

theorem Orders.common {l r : List β} {common : Nat} (least : common = min l.length r.length)
    (major : Orders first (l.take common) (r.take common)) :
    Orders (thenBy first ((l.length : Int) - r.length)) l r := by
  have ended : l.drop common = [] ∨ r.drop common = [] := by
    rw [List.drop_eq_nil_iff, List.drop_eq_nil_iff]
    omega
  have minor : Orders ((l.length : Int) - r.length) (l.drop common) (r.drop common) := by
    have rest := Orders.of_length ended
    have difference : (((l.drop common).length : Nat) : Int) - (r.drop common).length =
        l.length - r.length := by
      rw [List.length_drop, List.length_drop]
      omega
    rwa [difference] at rest
  have both := Orders.append (by rw [List.length_take, List.length_take]; omega) major minor
  rwa [List.take_append_drop, List.take_append_drop] at both

end Lexicographic

section Keys

/-- What makes a three-way comparison that of a total order. -/
structure Total {α : Type*} (cmp : α → α → Int) (a b c : α) : Prop where
  swapped : cmp a b < 0 ↔ 0 < cmp b a
  antisymm : cmp a b ≤ 0 → cmp b a ≤ 0 → cmp a b = 0
  trans : cmp a b ≤ 0 → cmp b c ≤ 0 → cmp a c ≤ 0
  total : cmp a b ≤ 0 ∨ cmp b a ≤ 0

theorem Total.of_key {α : Type*} {cmp : α → α → Int} {key : α → β} {Valid : α → Prop}
    (orders : ∀ {a b}, Valid a → Valid b → Orders (cmp a b) (key a) (key b)) {a b c : α}
    (validA : Valid a) (validB : Valid b) (validC : Valid c) : Total cmp a b c where
  swapped := (orders validA validB).below.trans (orders validB validA).above.symm
  antisymm := by
    rw [(orders validA validB).le_iff, (orders validB validA).le_iff, (orders validA validB).same]
    exact le_antisymm
  trans := by
    rw [(orders validA validB).le_iff, (orders validB validC).le_iff, (orders validA validC).le_iff]
    exact le_trans
  total := by
    rw [(orders validA validB).le_iff, (orders validB validA).le_iff]
    exact le_total _ _

end Keys

section Operators

structure Operators (α : Type*) where
  equal : α → α → Bool
  notEqual : α → α → Bool
  less : α → α → Bool
  lessEqual : α → α → Bool
  greater : α → α → Bool
  greaterEqual : α → α → Bool

def Operators.ofCmp {α : Type*} (cmp : α → α → Int) : Operators α where
  equal a b := cmp a b = 0
  notEqual a b := cmp a b ≠ 0
  less a b := cmp a b < 0
  lessEqual a b := cmp a b ≤ 0
  greater a b := cmp a b > 0
  greaterEqual a b := cmp a b ≥ 0

structure Operators.OrderBy {α : Type*} (operators : Operators α) (key : α → β) (a b : α) :
    Prop where
  equal : operators.equal a b = true ↔ key a = key b
  notEqual : operators.notEqual a b = true ↔ key a ≠ key b
  less : operators.less a b = true ↔ key a < key b
  lessEqual : operators.lessEqual a b = true ↔ key a ≤ key b
  greater : operators.greater a b = true ↔ key a > key b
  greaterEqual : operators.greaterEqual a b = true ↔ key a ≥ key b

variable {α : Type*} {operators : Operators α} {key : α → β} {a b : α}

theorem Operators.ofCmp_orderBy {cmp : α → α → Int} (orders : Orders (cmp a b) (key a) (key b)) :
    (ofCmp cmp).OrderBy key a b where
  equal := decide_eq_true_iff.trans orders.same
  notEqual := decide_eq_true_iff.trans (not_congr orders.same)
  less := decide_eq_true_iff.trans orders.below
  lessEqual := decide_eq_true_iff.trans orders.le_iff
  greater := decide_eq_true_iff.trans orders.above
  greaterEqual := decide_eq_true_iff.trans orders.ge_iff

theorem Operators.OrderBy.trichotomy (orderBy : operators.OrderBy key a b) :
    (operators.less a b).toNat + (operators.equal a b).toNat + (operators.greater a b).toNat = 1 := by
  have less := orderBy.less
  have equal := orderBy.equal
  have greater := orderBy.greater
  rcases lt_trichotomy (key a) (key b) with below | same | above
  · rw [less.mpr below, Bool.eq_false_iff.mpr (mt equal.mp below.ne),
      Bool.eq_false_iff.mpr (mt greater.mp below.not_gt)]
    rfl
  · rw [equal.mpr same, Bool.eq_false_iff.mpr (mt less.mp same.not_lt),
      Bool.eq_false_iff.mpr (mt greater.mp same.not_gt)]
    rfl
  · rw [greater.mpr above, Bool.eq_false_iff.mpr (mt less.mp above.not_gt),
      Bool.eq_false_iff.mpr (mt equal.mp above.ne')]
    rfl

theorem Operators.OrderBy.greaterEqual_eq_not (orderBy : operators.OrderBy key a b) :
    operators.greaterEqual a b = !operators.less a b := by
  rw [Bool.eq_iff_iff, orderBy.greaterEqual, Bool.not_eq_true', ← Bool.not_eq_true, orderBy.less]
  exact not_lt.symm

end Operators

end ThreeWay
