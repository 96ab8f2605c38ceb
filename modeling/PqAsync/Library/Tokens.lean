import Mathlib.Data.List.Basic

/-!
Tokens of a text that is cut into chunks: blank chunks separate tokens, and adjacent chunks
belong to one token when the characters at their edges touch.
-/

namespace Tokens

variable {Symbol : Type*} (blank : List Symbol → Bool) (touches : Symbol → Symbol → Bool)

def fore : List (List Symbol) → Option Symbol
  | [] => none
  | chunk :: _ => if blank chunk then none else chunk.head?

def aft (chunks : List (List Symbol)) : Option Symbol :=
  chunks.getLast?.bind fun chunk => if blank chunk then none else chunk.getLast?

def meets (left right : List (List Symbol)) : Bool :=
  match aft blank left, fore blank right with
  | some l, some r => touches l r
  | _, _ => false

def extend (chunk : List Symbol) : List (List Symbol) → List (List Symbol)
  | [] => [chunk]
  | token :: rest => (chunk ++ token) :: rest

def tokens : List (List Symbol) → List (List Symbol)
  | [] => []
  | chunk :: rest =>
      if blank chunk then tokens rest
      else if meets blank touches [chunk] rest then extend chunk (tokens rest)
      else chunk :: tokens rest

variable {blank touches}

theorem tokens_cons_blank {chunk : List Symbol} (isBlank : blank chunk = true)
    (rest : List (List Symbol)) :
    tokens blank touches (chunk :: rest) = tokens blank touches rest := by
  simp [tokens, isBlank]

theorem tokens_cons_ne_nil {chunk : List Symbol} (solid : blank chunk = false)
    (rest : List (List Symbol)) : tokens blank touches (chunk :: rest) ≠ [] := by
  simp only [tokens, solid, Bool.false_eq_true, ↓reduceIte]
  split
  · cases tokens blank touches rest <;> simp [extend]
  · simp

theorem tokens_singleton {chunk : List Symbol} (solid : blank chunk = false) :
    tokens blank touches [chunk] = [chunk] := by
  simp [tokens, solid, meets, fore]

theorem extend_append {chunk : List Symbol} {left : List (List Symbol)} (nonempty : left ≠ [])
    (right : List (List Symbol)) : extend chunk (left ++ right) = extend chunk left ++ right := by
  cases left with
  | nil => exact absurd rfl nonempty
  | cons token left => rfl

theorem length_extend {chunk : List Symbol} {rest : List (List Symbol)} (nonempty : rest ≠ []) :
    (extend chunk rest).length = rest.length := by
  cases rest with
  | nil => exact absurd rfl nonempty
  | cons token rest => rfl

theorem aft_cons_cons (first second : List Symbol) (rest : List (List Symbol)) :
    aft blank (first :: second :: rest) = aft blank (second :: rest) := by
  simp [aft, List.getLast?_cons_cons]

theorem meets_cons_cons (first second : List Symbol) (left right : List (List Symbol)) :
    meets blank touches (first :: second :: left) right =
      meets blank touches (second :: left) right := by
  simp only [meets, aft_cons_cons]

theorem fore_of_meets {left right : List (List Symbol)}
    (meeting : meets blank touches left right = true) :
    ∃ chunk rest, right = chunk :: rest ∧ blank chunk = false := by
  cases right with
  | nil => simp [meets, fore] at meeting
  | cons chunk rest =>
      refine ⟨chunk, rest, rfl, ?_⟩
      by_contra solid
      simp [meets, fore, solid] at meeting

theorem not_blank_of_meets {chunk : List Symbol} {right : List (List Symbol)}
    (meeting : meets blank touches [chunk] right = true) : blank chunk = false := by
  by_contra solid
  simp [meets, aft, solid] at meeting

theorem tokens_append {left right : List (List Symbol)}
    (apart : meets blank touches left right = false) :
    tokens blank touches (left ++ right) =
      tokens blank touches left ++ tokens blank touches right := by
  induction left with
  | nil => rfl
  | cons chunk left ih =>
      by_cases isBlank : blank chunk = true
      · rw [List.cons_append, tokens_cons_blank isBlank, tokens_cons_blank isBlank]
        cases left with
        | nil => rfl
        | cons second left =>
            rw [meets_cons_cons] at apart
            exact ih apart
      · cases left with
        | nil =>
            have solid : blank chunk = false := by simpa using isBlank
            rw [tokens_singleton solid, List.singleton_append, tokens]
            simp only [solid, apart, Bool.false_eq_true, ↓reduceIte]
            rfl
        | cons second left =>
            rw [meets_cons_cons] at apart
            have whole := ih apart
            have same : meets blank touches [chunk] (second :: left ++ right) =
                meets blank touches [chunk] (second :: left) := rfl
            rw [List.cons_append, tokens, same, whole]
            conv_rhs => rw [tokens]
            simp only [isBlank, Bool.false_eq_true, ↓reduceIte]
            split
            next meeting =>
              obtain ⟨_, _, shape, solid⟩ := fore_of_meets meeting
              obtain ⟨rfl, rfl⟩ := List.cons.inj shape
              exact extend_append (tokens_cons_ne_nil solid left) _
            next => rfl

theorem length_tokens_append {left right : List (List Symbol)}
    (meeting : meets blank touches left right = true) :
    (tokens blank touches (left ++ right)).length + 1 =
      (tokens blank touches left).length + (tokens blank touches right).length := by
  induction left with
  | nil => simp [meets, aft] at meeting
  | cons chunk left ih =>
      cases left with
      | nil =>
          have solid := not_blank_of_meets meeting
          obtain ⟨next, rest, rfl, nextSolid⟩ := fore_of_meets meeting
          have nonempty : tokens blank touches (next :: rest) ≠ [] :=
            tokens_cons_ne_nil nextSolid rest
          have joined : tokens blank touches (chunk :: next :: rest) =
              extend chunk (tokens blank touches (next :: rest)) := by
            conv_lhs => rw [tokens]
            simp only [solid, meeting, Bool.false_eq_true, ↓reduceIte]
          rw [List.singleton_append, joined, length_extend nonempty, tokens_singleton solid]
          simp only [List.length_singleton]
          omega
      | cons second left =>
          rw [meets_cons_cons] at meeting
          have whole := ih meeting
          have same : meets blank touches [chunk] (second :: left ++ right) =
              meets blank touches [chunk] (second :: left) := rfl
          by_cases isBlank : blank chunk = true
          · rw [List.cons_append, tokens_cons_blank isBlank, tokens_cons_blank isBlank]
            exact whole
          · rw [List.cons_append, tokens, same]
            conv_rhs => rw [tokens]
            simp only [isBlank, Bool.false_eq_true, ↓reduceIte]
            split
            next inner =>
              obtain ⟨_, _, shape, solid⟩ := fore_of_meets inner
              obtain ⟨rfl, rfl⟩ := List.cons.inj shape
              rw [List.cons_append] at whole ⊢
              rw [length_extend (tokens_cons_ne_nil solid _),
                length_extend (tokens_cons_ne_nil solid _)]
              exact whole
            next =>
              simp only [List.length_cons]
              omega

theorem tokens_append_blank {chunk : List Symbol} (isBlank : blank chunk = true)
    (left right : List (List Symbol)) :
    tokens blank touches (left ++ chunk :: right) =
      tokens blank touches left ++ tokens blank touches right := by
  rw [tokens_append, tokens_cons_blank isBlank]
  simp [meets, fore, isBlank]

theorem tokens_merge {first second : List Symbol} (solid : blank first = false)
    (solidSecond : blank second = false) (solidBoth : blank (first ++ second) = false)
    (nonempty : second ≠ []) {l r : Symbol} (last : first.getLast? = some l)
    (head : second.head? = some r) (touching : touches l r = true)
    (rest : List (List Symbol)) :
    tokens blank touches (first :: second :: rest) =
      tokens blank touches ((first ++ second) :: rest) := by
  have meeting : meets blank touches [first] (second :: rest) = true := by
    simp [meets, aft, fore, solid, solidSecond, last, head, touching]
  have sameEnd : meets blank touches [first ++ second] rest =
      meets blank touches [second] rest := by
    simp [meets, aft, solidBoth, solidSecond, List.getLast?_append_of_ne_nil _ nonempty]
  rw [tokens]
  simp only [solid, meeting, Bool.false_eq_true, ↓reduceIte]
  rw [tokens, tokens]
  simp only [solidSecond, solidBoth, sameEnd, Bool.false_eq_true, ↓reduceIte]
  split
  · cases tokens blank touches rest <;> simp [extend]
  · rfl

theorem tokens_cons_congr {rest other : List (List Symbol)} (chunk : List Symbol)
    (same : tokens blank touches rest = tokens blank touches other)
    (sameFore : fore blank rest = fore blank other) :
    tokens blank touches (chunk :: rest) = tokens blank touches (chunk :: other) := by
  have sameMeets : meets blank touches [chunk] rest = meets blank touches [chunk] other := by
    simp only [meets, sameFore]
  rw [tokens, tokens, same, sameMeets]

theorem tokens_flatten_filter (visible : Symbol → Bool)
    (hidden : ∀ chunk, blank chunk = true → chunk.filter visible = [])
    (chunks : List (List Symbol)) :
    (tokens blank touches chunks).flatten.filter visible = chunks.flatten.filter visible := by
  have extended : ∀ (chunk : List Symbol) (rest : List (List Symbol)),
      (extend chunk rest).flatten = chunk ++ rest.flatten := by
    intro chunk rest
    cases rest <;> simp [extend]
  induction chunks with
  | nil => rfl
  | cons chunk chunks ih =>
      rw [tokens]
      split
      next isBlank => simp [ih, hidden chunk isBlank]
      next =>
        split
        · rw [extended]
          simp [ih]
        · simp [ih]

end Tokens
