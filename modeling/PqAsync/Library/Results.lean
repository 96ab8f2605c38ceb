import Mathlib.Data.List.Forall2

/-!
Inversion of computations in `Except`.
-/

namespace Results

variable {ε α β : Type}

theorem ok_bind (a : α) (f : α → Except ε β) : Except.ok a >>= f = f a := rfl

theorem error_bind (failure : ε) (f : α → Except ε β) :
    Except.error failure >>= f = .error failure := rfl

theorem bind_ok {x : Except ε α} {f : α → Except ε β} {b : β} :
    x >>= f = .ok b ↔ ∃ a, x = .ok a ∧ f a = .ok b := by
  cases x with
  | error failure => simp [bind, Except.bind]
  | ok a => simp [bind, Except.bind]

theorem bind_ok_inj {x : Except ε α} {f : α → β} (injective : ∀ a b, f a = f b → a = b) {a : α} :
    (x >>= fun a => .ok (f a)) = .ok (f a) ↔ x = .ok a := by
  constructor
  · intro read
    obtain ⟨own, done, same⟩ := bind_ok.mp read
    rw [done, injective own a (Except.ok.inj same)]
  · intro read
    rw [read]
    rfl

theorem map_ok {x : Except ε α} {f : α → β} {b : β} :
    x.map f = .ok b ↔ ∃ a, x = .ok a ∧ f a = b := by
  cases x with
  | error failure => simp [Except.map]
  | ok a => simp [Except.map]

theorem mapM_ok {f : α → Except ε β} {as : List α} {bs : List β} :
    as.mapM f = .ok bs ↔ List.Forall₂ (fun a b => f a = .ok b) as bs := by
  induction as generalizing bs with
  | nil =>
      cases bs with
      | nil => simp [pure, Except.pure]
      | cons b bs => simp [pure, Except.pure]
  | cons a as ih =>
      rw [List.mapM_cons, bind_ok]
      constructor
      · rintro ⟨b, own, rest⟩
        obtain ⟨tail, done, same⟩ := bind_ok.mp rest
        cases same
        exact List.Forall₂.cons own (ih.mp done)
      · rintro (_ | ⟨own, rest⟩)
        exact ⟨_, own, bind_ok.mpr ⟨_, ih.mpr rest, rfl⟩⟩

theorem exists_mapM {γ : Type} {f : α → Except ε β} {related : γ → β → Prop} {cs : List γ}
    {as : List α} (each : List.Forall₂ (fun c a => ∃ b, f a = .ok b ∧ related c b) cs as) :
    ∃ bs, as.mapM f = .ok bs ∧ List.Forall₂ related cs bs := by
  induction each with
  | nil => exact ⟨[], rfl, List.Forall₂.nil⟩
  | cons own others ih =>
      obtain ⟨b, done, property⟩ := own
      obtain ⟨bs, rest, properties⟩ := ih
      refine ⟨b :: bs, ?_, List.Forall₂.cons property properties⟩
      exact mapM_ok.mpr (List.Forall₂.cons done (mapM_ok.mp rest))

theorem forall₂_right {related : α → β → Prop} {as : List α} {bs : List β}
    (each : List.Forall₂ related as bs) {b : β} (member : b ∈ bs) : ∃ a, related a b := by
  induction each with
  | nil => exact absurd member List.not_mem_nil
  | cons own others ih =>
      rcases List.mem_cons.mp member with same | later
      · rw [same]
        exact ⟨_, own⟩
      · exact ih later

/-- A computation that does not fail with `bad`, and the property of what it returns. -/
def Avoids (bad : ε) (good : α → Prop) : Except ε α → Prop
  | .ok a => good a
  | .error failure => failure ≠ bad

theorem Avoids.bind {bad : ε} {good : α → Prop} {x : Except ε α} (first : Avoids bad good x)
    {result : β → Prop} {f : α → Except ε β} (next : ∀ a, good a → Avoids bad result (f a)) :
    Avoids bad result (x >>= f) := by
  cases x with
  | error failure => exact first
  | ok a => exact next a first

theorem Avoids.ne {bad : ε} {good : α → Prop} {x : Except ε α} (avoids : Avoids bad good x) :
    x ≠ .error bad := by
  rintro rfl
  exact avoids rfl

end Results
