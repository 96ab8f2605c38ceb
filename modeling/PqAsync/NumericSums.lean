import PqAsync.NumericNan
import PqAsync.NumericOrder
import PqAsync.PrinterBuffers
import Mathlib.Algebra.BigOperators.Group.List.Basic

/-!
Sums and differences of many numerics: the order and the grouping of the operators do not change
what is obtained, down to its digits, nor how it compares.
-/

namespace PqAsync

open ThreeWay

/-- An expression of `operator+` and `operator-`. -/
inductive NumericSum
  | number (x : Numeric) (stripped : x.Stripped)
  | add (a b : NumericSum)
  | sub (a b : NumericSum)

namespace NumericSum

open Results Numeric

def eval : NumericSum → Except NumericError Numeric
  | number x _ => .ok x
  | add a b => do
      let x ← a.eval
      let y ← b.eval
      x.add y
  | sub a b => do
      let x ← a.eval
      let y ← b.eval
      x.sub y

/-- The numbers that are added, and those that are taken away. -/
def terms : NumericSum → List (Bool × Numeric)
  | number x _ => [(true, x)]
  | add a b => a.terms ++ b.terms
  | sub a b => a.terms ++ b.terms.map fun (added, x) => (!added, x)

def value : NumericSum → ℚ
  | number x _ => x.value
  | add a b => a.value + b.value
  | sub a b => a.value - b.value

def dscale : NumericSum → Int
  | number x _ => x.dscale
  | add a b => max a.dscale b.dscale
  | sub a b => max a.dscale b.dscale

theorem eval_returns (sum : NumericSum) : Returns sum.eval sum.value sum.dscale := by
  induction sum with
  | number x stripped => exact ⟨x, rfl, stripped, rfl, rfl⟩
  | add a b iha ihb =>
      obtain ⟨x, evalA, strippedX, valueX, scaleX⟩ := iha
      obtain ⟨y, evalB, strippedY, valueY, scaleY⟩ := ihb
      rw [eval, evalA, ok_bind, evalB, ok_bind, value, dscale, ← valueX, ← valueY, ← scaleX,
        ← scaleY]
      exact addVar_spec strippedX.wellFormed strippedY.wellFormed
  | sub a b iha ihb =>
      obtain ⟨x, evalA, strippedX, valueX, scaleX⟩ := iha
      obtain ⟨y, evalB, strippedY, valueY, scaleY⟩ := ihb
      rw [eval, evalA, ok_bind, evalB, ok_bind, value, dscale, ← valueX, ← valueY, ← scaleX,
        ← scaleY]
      exact subVar_spec strippedX.wellFormed strippedY.wellFormed

def termValue (term : Bool × Numeric) : ℚ := if term.1 then term.2.value else -term.2.value

theorem sum_taken (terms : List (Bool × Numeric)) :
    ((terms.map fun (added, x) => (!added, x)).map termValue).sum = -(terms.map termValue).sum := by
  induction terms with
  | nil => simp
  | cons term terms ih =>
      obtain ⟨added, x⟩ := term
      rw [List.map_cons, List.map_cons, List.sum_cons, ih, List.map_cons, List.sum_cons, neg_add]
      cases added <;> simp [termValue]

theorem value_eq (sum : NumericSum) : sum.value = (sum.terms.map termValue).sum := by
  induction sum with
  | number x stripped => simp [value, terms, termValue]
  | add a b iha ihb => rw [value, terms, List.map_append, List.sum_append, iha, ihb]
  | sub a b iha ihb =>
      rw [value, terms, List.map_append, List.sum_append, sum_taken, iha, ihb, sub_eq_add_neg]

def scales (terms : List (Bool × Numeric)) : Set Int :=
  { scale | ∃ term ∈ terms, term.2.dscale = scale }

theorem scales_append (front back : List (Bool × Numeric)) :
    scales (front ++ back) = scales front ∪ scales back := by
  ext scale
  simp only [scales, List.mem_append, or_and_right, exists_or]
  rfl

theorem scales_taken (terms : List (Bool × Numeric)) :
    scales (terms.map fun (added, x) => (!added, x)) = scales terms := by
  ext scale
  simp only [scales, Set.mem_ofPred_eq, List.mem_map]
  constructor
  · rintro ⟨_, ⟨term, member, rfl⟩, same⟩
    exact ⟨term, member, same⟩
  · rintro ⟨term, member, same⟩
    exact ⟨_, ⟨term, member, rfl⟩, same⟩

theorem dscale_greatest (sum : NumericSum) : IsGreatest (scales sum.terms) sum.dscale := by
  induction sum with
  | number x stripped =>
      refine ⟨⟨(true, x), List.mem_singleton.mpr rfl, rfl⟩, ?_⟩
      rintro scale ⟨term, member, rfl⟩
      rw [List.mem_singleton.mp member]
      exact le_rfl
  | add a b iha ihb =>
      rw [terms, scales_append]
      exact iha.union ihb
  | sub a b iha ihb =>
      rw [terms, scales_append, scales_taken]
      exact iha.union ihb

theorem dscale_perm {a b : NumericSum} (perm : a.terms.Perm b.terms) : a.dscale = b.dscale := by
  have same : scales a.terms = scales b.terms := by
    ext scale
    simp only [scales, Set.mem_ofPred_eq, perm.mem_iff]
  have greatest := a.dscale_greatest
  rw [same] at greatest
  exact greatest.unique b.dscale_greatest

theorem value_perm {a b : NumericSum} (perm : a.terms.Perm b.terms) : a.value = b.value := by
  rw [value_eq, value_eq]
  exact (perm.map termValue).sum_eq

end NumericSum

namespace Numeric

structure Alike (x y : Numeric) : Prop where
  digits : x.digits = y.digits
  weight : x.weight = y.weight
  sign : x.sign = y.sign
  dscale : x.dscale = y.dscale

theorem Stripped.alike {x y : Numeric} (strippedX : x.Stripped) (strippedY : y.Stripped)
    (value : x.value = y.value) (dscale : x.dscale = y.dscale) : x.Alike y := by
  have negative : x.sign = numericNeg ↔ y.sign = numericNeg := by
    rw [strippedX.wellFormed.sign_neg_iff, strippedY.wellFormed.sign_neg_iff, value]
  have sign : x.sign = y.sign := by
    rcases strippedX.sign with posX | negX
    · rcases strippedY.sign with posY | negY
      · rw [posX, posY]
      · rw [negative.mpr negY, negY]
    · rw [negX, negative.mp negX]
  -- the digits of a number do not depend on the scale that it is printed with
  have bare {z : Numeric} (stripped : z.Stripped) : { z with dscale := 0 }.Trimmed :=
    ⟨stripped.digits, stripped.leading, stripped.trailing, fun none => (stripped.zero none).1,
      le_rfl⟩
  obtain ⟨digits, weight⟩ :=
    (bare strippedX).eq_of_magnitude (bare strippedY) (magnitude_of_value sign value)
  exact ⟨digits, weight, sign, dscale⟩

theorem Alike.inserted {x y : Numeric} (alike : x.Alike y) :
    signInto x = signInto y ∧ frontInto x = frontInto y ∧ scaleInto x = scaleInto y := by
  obtain ⟨digits, weight, sign, dscale⟩ := alike
  refine ⟨?_, ?_, ?_⟩
  · funext str
    rw [signInto, signInto, sign]
  · funext str cp
    rw [frontInto, frontInto, weight, digits]
  · funext str cp
    rw [scaleInto, scaleInto, dscale, weight, digits]

theorem Alike.printed {x y : Numeric} (alike : x.Alike y) :
    getStrFromVar x = getStrFromVar y := by
  obtain ⟨sign, front, scale⟩ := alike.inserted
  rw [getStrFromVar, getStrFromVar, sign, front, scale, alike.weight, alike.dscale]

theorem Alike.sent {x y : Numeric} (alike : x.Alike y) :
    newParameterNumeric x = newParameterNumeric y := by
  rw [newParameterNumeric, newParameterNumeric, numericLength, numericLength, numericMemory,
    numericMemory, ndigits, ndigits, alike.digits, alike.weight, alike.sign, alike.dscale]

end Numeric

open NumericSum in
/-- Two sums compare as their values do, and are printed, overflows included, and sent alike if they
have the same value and scale, as they do if they have the same terms. -/
theorem sums_compare (a b : NumericSum) : ∃ x y, a.eval = .ok x ∧ b.eval = .ok y ∧
    Orders (x.cmp y) a.value b.value ∧
    (a.value = b.value → a.dscale = b.dscale → getStrFromVar x = getStrFromVar y ∧
      newParameterNumeric x = newParameterNumeric y) ∧
    (a.terms.Perm b.terms → getStrFromVar x = getStrFromVar y ∧
      newParameterNumeric x = newParameterNumeric y) := by
  obtain ⟨x, evalA, strippedX, valueX, scaleX⟩ := a.eval_returns
  obtain ⟨y, evalB, strippedY, valueY, scaleY⟩ := b.eval_returns
  have alike (value : a.value = b.value) (scale : a.dscale = b.dscale) : x.Alike y :=
    strippedX.alike strippedY (valueX.trans (value.trans valueY.symm))
      (scaleX.trans (scale.trans scaleY.symm))
  refine ⟨x, y, evalA, evalB, ?_, ?_, ?_⟩
  · rw [← valueX, ← valueY]
    exact Numeric.cmp_orders strippedX.wellFormed.regular strippedY.wellFormed.regular
  · intro value scale
    exact ⟨(alike value scale).printed, (alike value scale).sent⟩
  · intro perm
    have own := alike (value_perm perm) (dscale_perm perm)
    exact ⟨own.printed, own.sent⟩

end PqAsync
