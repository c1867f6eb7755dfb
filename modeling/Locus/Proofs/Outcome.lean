/-! Computations that may fail: what the result of a sequence says about its parts, what holds of a
result or of a failure, and when two of them have results that look the same. -/

namespace Locus
set_option autoImplicit false

variable {ε α β γ δ : Type}

theorem bind_eq_ok {x : Except ε α} {f : α → Except ε β} {b : β} :
    (x >>= f) = .ok b ↔ ∃ a, x = .ok a ∧ f a = .ok b := by
  cases x with
  | error e => simp [bind, Except.bind]
  | ok a => simp [bind, Except.bind]

@[simp] theorem ok_bind (a : α) (f : α → Except ε β) : (Except.ok a >>= f) = f a := rfl

@[simp] theorem error_bind (e : ε) (f : α → Except ε β) :
    ((Except.error e : Except ε α) >>= f) = .error e := rfl

@[simp] theorem pure_eq_ok (a : α) : (pure a : Except ε α) = .ok a := rfl

theorem exists_of_isOk {x : Except ε α} (h : x.isOk) : ∃ a, x = .ok a := by
  cases x with
  | error e => cases h
  | ok a => exact ⟨a, rfl⟩

/-! ## Results and failures -/

/-- A computation fails with an error that satisfies `blame`, or its result satisfies `p`. -/
def EndsWith (blame : ε → Prop) (p : α → Prop) : Except ε α → Prop
  | .error e => blame e
  | .ok a => p a

section

variable {blame : ε → Prop} {p p' : α → Prop} {q : β → Prop} {x : Except ε α}

theorem EndsWith.mono (hx : EndsWith blame p x) (h : ∀ a, p a → p' a) : EndsWith blame p' x := by
  cases x with
  | error e => exact hx
  | ok a => exact h a hx

theorem EndsWith.bind {f : α → Except ε β} (hx : EndsWith blame p x)
    (hf : ∀ a, p a → EndsWith blame q (f a)) : EndsWith blame q (x >>= f) := by
  cases x with
  | error e => exact hx
  | ok a => exact hf a hx

end

/-! ## Agreement -/

/-- Two computations agree on what is seen of their results: both fail for the same reason, or both
succeed. -/
def AgreeOn (view : α → γ) (x y : Except ε α) : Prop := x.map view = y.map view

variable {view : α → γ} {view' : β → δ} {x y z : Except ε α}

theorem agreeOn_ok {a b : α} (h : view a = view b) :
    AgreeOn view (.ok a : Except ε α) (.ok b) :=
  congrArg Except.ok h

theorem AgreeOn.symm (h : AgreeOn view x y) : AgreeOn view y x := Eq.symm h

theorem AgreeOn.trans (h : AgreeOn view x y) (h' : AgreeOn view y z) : AgreeOn view x z :=
  Eq.trans h h'

theorem AgreeOn.cases (h : AgreeOn view x y) :
    (∃ fault, x = .error fault ∧ y = .error fault) ∨
      ∃ a b, x = .ok a ∧ y = .ok b ∧ view a = view b := by
  cases x with
  | error fault =>
    cases y with
    | error fault' =>
      cases h
      exact .inl ⟨fault, rfl, rfl⟩
    | ok b => cases h
  | ok a =>
    cases y with
    | error fault => cases h
    | ok b => exact .inr ⟨a, b, rfl, rfl, Except.ok.inj h⟩

/-- Sequences with one first part agree where their second parts do. -/
theorem agreeOn_bind {f g : α → Except ε β} (h : ∀ a, AgreeOn view' (f a) (g a)) :
    AgreeOn view' (x >>= f) (x >>= g) := by
  cases x with
  | error fault => exact rfl
  | ok a => exact h a

/-- Sequences agree whose first parts agree, and whose second parts do for results that look the
same. -/
theorem AgreeOn.bind {f g : α → Except ε β} (h : AgreeOn view x y)
    (hfg : ∀ a b, view a = view b → AgreeOn view' (f a) (g b)) :
    AgreeOn view' (x >>= f) (y >>= g) := by
  rcases h.cases with ⟨fault, rfl, rfl⟩ | ⟨a, b, rfl, rfl, hview⟩
  · exact rfl
  · exact hfg a b hview

end Locus
