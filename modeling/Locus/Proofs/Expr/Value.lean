import Mathlib
import Locus.Proofs.Expr.Commuted
import Locus.Proofs.Simplify.Literals

/-! Exact values of expressions. A valuation gives each variable a rational number and each function
a partial map of the rationals; an expression then has a value or none, and an equation counts as
the difference of its sides. Expressions that are the same up to the order of operands agree in
their values, unless an equation in the one is the mirror image of an equation in the other
(`agree_or_mirrors`). -/

namespace Locus
set_option autoImplicit false

open Locus.Expr Locus.Operator

/-! ## Values -/

structure Valuation where
  ofVar : String → Rat
  ofCall : String → Rat → Option Rat

/-- The power with an integral exponent. Zero has no negative powers. -/
def rationalPower? (x y : Rat) : Option Rat :=
  if y.den = 1 ∧ ¬(x = 0 ∧ y.num < 0) then some (x ^ y.num) else none

def Operator.compute? (op : Operator) (x y : Rat) : Option Rat :=
  match op with
  | plus => some (x + y)
  | minus | equals => some (x - y)
  | times => some (x * y)
  | divide => if y = 0 then none else some (x / y)
  | power => rationalPower? x y

/-- The number that a literal stands for. One that is not finite stands for none. -/
def Literal.value? (a : Literal) : Option Rat :=
  match a.typedValue with
  | .ok v => some v
  | .error _ => none

def Expr.value? (ν : Valuation) : Expr → Option Rat
  | .empty => none
  | .number a => a.value?
  | .var x => some (ν.ofVar x)
  | .call f a => do ν.ofCall f (← a.value? ν)
  | .binary op l r => do op.compute? (← l.value? ν) (← r.value? ν)

/-- An expression takes the place of another: where that one has a value, it has the same. -/
def Refines (ν : Valuation) (e e' : Expr) : Prop :=
  ∀ v, e.value? ν = some v → e'.value? ν = some v

/-- Two expressions have one value, if they both have any. -/
def Agree (ν : Valuation) (a b : Expr) : Prop :=
  ∀ x y, a.value? ν = some x → b.value? ν = some y → x = y

variable {ν : Valuation}

theorem Refines.refl (e : Expr) : Refines ν e e := fun _ h => h

theorem Refines.trans {a b c : Expr} (h₁ : Refines ν a b) (h₂ : Refines ν b c) : Refines ν a c :=
  fun v h => h₂ v (h₁ v h)

theorem Agree.refl (e : Expr) : Agree ν e e := fun _ _ h h' => Option.some.inj (h.symm.trans h')

section

attribute [local simp] value?

theorem value?_int (n : Int) : (int n).value? ν = some (n : Rat) := rfl

theorem value?_call_eq_some {f : String} {a : Expr} {v : Rat} :
    (call f a).value? ν = some v ↔ ∃ x, a.value? ν = some x ∧ ν.ofCall f x = some v := by
  simp only [value?, Option.bind_eq_bind, Option.bind_eq_some_iff]

theorem value?_binary_eq_some {op : Operator} {l r : Expr} {v : Rat} :
    (binary op l r).value? ν = some v ↔
      ∃ x y, l.value? ν = some x ∧ r.value? ν = some y ∧ op.compute? x y = some v := by
  simp only [value?, Option.bind_eq_bind, Option.bind_eq_some_iff]
  constructor
  · rintro ⟨x, hx, y, hy, h⟩
    exact ⟨x, y, hx, hy, h⟩
  · rintro ⟨x, y, hx, hy, h⟩
    exact ⟨x, hx, y, hy, h⟩

theorem value?_binary {op : Operator} {l r : Expr} {x y : Rat} (hl : l.value? ν = some x)
    (hr : r.value? ν = some y) : (binary op l r).value? ν = op.compute? x y := by
  simp [hl, hr]

end

/-! ## Replacing a part -/

theorem Refines.call {f : String} {a a' : Expr} (h : Refines ν a a') :
    Refines ν (call f a) (call f a') := by
  intro v hv
  obtain ⟨x, hx, hf⟩ := value?_call_eq_some.mp hv
  exact value?_call_eq_some.mpr ⟨x, h x hx, hf⟩

theorem Refines.binary {op : Operator} {l l' r r' : Expr} (hl : Refines ν l l')
    (hr : Refines ν r r') : Refines ν (binary op l r) (binary op l' r') := by
  intro v hv
  obtain ⟨x, y, hx, hy, hop⟩ := value?_binary_eq_some.mp hv
  exact value?_binary_eq_some.mpr ⟨x, y, hl x hx, hr y hy, hop⟩

/-! ## Equations -/

/-- No equation occurs. -/
def Expr.EquationFree : Expr → Prop
  | .call _ a => a.EquationFree
  | .binary op l r => op ≠ equals ∧ l.EquationFree ∧ r.EquationFree
  | _ => True

/-- The two sides of every equation that occurs. -/
def Expr.equations : Expr → List (Expr × Expr)
  | .call _ a => a.equations
  | .binary op l r => (if op = equals then [(l, r)] else []) ++ (l.equations ++ r.equations)
  | _ => []

theorem equations_subset_left (op : Operator) (l r : Expr) :
    l.equations ⊆ (binary op l r).equations := fun _ h =>
  List.mem_append_right _ (List.mem_append_left _ h)

theorem equations_subset_right (op : Operator) (l r : Expr) :
    r.equations ⊆ (binary op l r).equations := fun _ h =>
  List.mem_append_right _ (List.mem_append_right _ h)

theorem equations_subset_of_isPart {part e : Expr} (h : part.IsPart e) :
    part.equations ⊆ e.equations := by
  induction h with
  | self => exact List.Subset.refl _
  | argument _ ih => exact ih
  | left _ ih => exact List.Subset.trans ih (equations_subset_left _ _ _)
  | right _ ih => exact List.Subset.trans ih (equations_subset_right _ _ _)

theorem equations_equals (l r : Expr) :
    (binary equals l r).equations = (l, r) :: (l.equations ++ r.equations) := rfl

theorem equations_of_ne {op : Operator} (hop : op ≠ equals) (l r : Expr) :
    (binary op l r).equations = l.equations ++ r.equations := by
  rw [Expr.equations, if_neg hop, List.nil_append]

theorem equationFree_iff {e : Expr} : e.EquationFree ↔ e.equations = [] := by
  induction e with
  | call f a ih => exact ih
  | binary op l r ihl ihr =>
    rw [EquationFree, ihl, ihr]
    by_cases hop : op = equals
    · subst hop
      simp [equations_equals]
    · simp [equations_of_ne hop, hop]
  | _ => exact ⟨fun _ => rfl, fun _ => trivial⟩

/-- Of no two equations the one has the values of the other's sides in reverse order, unless the
sides are equal. -/
def Unmirrored (ν : Valuation) (equations : List (Expr × Expr)) : Prop :=
  ∀ p ∈ equations, ∀ q ∈ equations, ∀ x y, p.1.value? ν = some x → p.2.value? ν = some y →
    q.1.value? ν = some y → q.2.value? ν = some x → x = y

theorem unmirrored_nil : Unmirrored ν [] := fun _ hp => nomatch hp

theorem Unmirrored.mono {some' all : List (Expr × Expr)} (h : Unmirrored ν all)
    (hsubset : some' ⊆ all) : Unmirrored ν some' := fun p hp q hq =>
  h p (hsubset hp) q (hsubset hq)

/-! ## Order of operands -/

theorem Operator.compute?_comm {op : Operator} (hsymmetric : op.isSymmetric) (hop : op ≠ equals)
    (x y : Rat) : op.compute? x y = op.compute? y x := by
  cases op with
  | plus => simp only [compute?, add_comm]
  | times => simp only [compute?, mul_comm]
  | equals => exact absurd rfl hop
  | _ => cases hsymmetric

theorem value?_binary_comm {op : Operator} (hsymmetric : op.isSymmetric) (hop : op ≠ equals)
    (l r : Expr) : (binary op l r).value? ν = (binary op r l).value? ν := by
  cases hl : l.value? ν with
  | none => simp [Expr.value?, hl]
  | some x =>
    cases hr : r.value? ν with
    | none => simp [Expr.value?, hl, hr]
    | some y => rw [value?_binary hl hr, value?_binary hr hl, compute?_comm hsymmetric hop]

theorem Literal.eq_of_sameValue {a b : Literal} (ha : a.IsInteger) (hb : b.IsInteger)
    (h : a.sameValue b) : a = b := by
  cases a with
  | double x => cases ha
  | int m =>
    cases b with
    | double x => cases hb
    | int n =>
      have hmn : (m : Rat) = (n : Rat) := by simpa [sameValue, toRat?] using h
      rw [Rat.intCast_inj.mp hmn]

/-- Two equations are mirror images: each side of the one is the same as the other side of the other,
up to the order of operands, and has its value, and the sides have different values. -/
def Mirrored (ν : Valuation) (p q : Expr × Expr) : Prop :=
  p.1.sameUpToOrder q.2 ∧ p.2.sameUpToOrder q.1 ∧
    ∃ x y, p.1.value? ν = some x ∧ p.2.value? ν = some y ∧ q.1.value? ν = some y ∧
      q.2.value? ν = some x ∧ x ≠ y

/-- An equation in the one expression has its mirror image in the other. -/
def Mirrors (ν : Valuation) (a b : Expr) : Prop :=
  ∃ p ∈ a.equations, ∃ q ∈ b.equations, Mirrored ν p q

theorem Mirrors.of_isPart {a b e e' : Expr} (h : Mirrors ν a b) (ha : a.IsPart e)
    (hb : b.IsPart e') : Mirrors ν e e' := by
  obtain ⟨p, hp, q, hq, hmirrored⟩ := h
  exact ⟨p, equations_subset_of_isPart ha hp, q, equations_subset_of_isPart hb hq, hmirrored⟩

theorem Unmirrored.not_mirrors {e : Expr} (h : Unmirrored ν e.equations) : ¬Mirrors ν e e := by
  rintro ⟨p, hp, q, hq, -, -, x, y, hpx, hpy, hqy, hqx, hne⟩
  exact hne (h p hp q hq x y hpx hpy hqy hqx)

/-- Where expressions that are the same up to the order of operands differ in value, it is because an
equation is turned over. -/
theorem mirrors_of_ne {e e' : Expr} (he : e.AllLiterals Literal.IsInteger)
    (he' : e'.AllLiterals Literal.IsInteger) (h : e.sameUpToOrder e') {v v' : Rat}
    (hv : e.value? ν = some v) (hv' : e'.value? ν = some v') (hne : v ≠ v') : Mirrors ν e e' := by
  induction e generalizing e' v v' with
  | empty => cases hv
  | number a =>
    cases e' with
    | number b =>
      rw [Literal.eq_of_sameValue he he' h] at hv
      exact absurd (Option.some.inj (hv.symm.trans hv')) hne
    | _ => cases h
  | var x =>
    cases e' with
    | var y =>
      rw [show x = y by simpa [sameUpToOrder] using h] at hv
      exact absurd (Option.some.inj (hv.symm.trans hv')) hne
    | _ => cases h
  | call f a ih =>
    cases e' with
    | call g b =>
      obtain ⟨rfl, hargument⟩ := sameUpToOrder_call.mp h
      obtain ⟨x, hx, hfx⟩ := value?_call_eq_some.mp hv
      obtain ⟨y, hy, hfy⟩ := value?_call_eq_some.mp hv'
      have hxy : x ≠ y := by
        rintro rfl
        exact hne (Option.some.inj (hfx.symm.trans hfy))
      have hb : b.AllLiterals Literal.IsInteger := he'
      have hinside : Mirrors ν a b := ih he hb hargument hx hy hxy
      exact hinside.of_isPart (.argument .self) (.argument .self)
    | _ => cases h
  | binary op a b iha ihb =>
    cases e' with
    | binary op' c d =>
      obtain ⟨rfl, hoperands⟩ := sameUpToOrder_binary.mp h
      obtain ⟨w, x, hw, hx, hop⟩ := value?_binary_eq_some.mp hv
      obtain ⟨y, z, hy, hz, hop'⟩ := value?_binary_eq_some.mp hv'
      rcases hoperands with ⟨hac, hbd⟩ | ⟨hsymmetric, had, hbc⟩
      · by_cases hwy : w = y
        · by_cases hxz : x = z
          · rw [hwy, hxz] at hop
            exact absurd (Option.some.inj (hop.symm.trans hop')) hne
          · exact (ihb he.2 he'.2 hbd hx hz hxz).of_isPart (.right .self) (.right .self)
        · exact (iha he.1 he'.1 hac hw hy hwy).of_isPart (.left .self) (.left .self)
      · by_cases hwz : w = z
        · by_cases hxy : x = y
          · subst hwz hxy
            -- the values are exchanged, which only an equation does not bear
            by_cases hequals : op = equals
            · subst hequals
              refine ⟨(a, b), List.mem_cons_self, (c, d), List.mem_cons_self, had, hbc,
                w, x, hw, hx, hy, hz, ?_⟩
              rintro rfl
              exact hne (Option.some.inj (hop.symm.trans hop'))
            · rw [compute?_comm hsymmetric hequals] at hop
              exact absurd (Option.some.inj (hop.symm.trans hop')) hne
          · exact (ihb he.2 he'.1 hbc hx hy hxy).of_isPart (.right .self) (.left .self)
        · exact (iha he.1 he'.2 had hw hz hwz).of_isPart (.left .self) (.right .self)
    | _ => cases h

theorem agree_or_mirrors {e e' : Expr} (he : e.AllLiterals Literal.IsInteger)
    (he' : e'.AllLiterals Literal.IsInteger) (h : e.sameUpToOrder e') :
    Agree ν e e' ∨ Mirrors ν e e' := by
  by_contra hneither
  rw [not_or] at hneither
  refine hneither.1 fun x y hx hy => ?_
  by_contra hne
  exact hneither.2 (mirrors_of_ne he he' h hx hy hne)

end Locus
