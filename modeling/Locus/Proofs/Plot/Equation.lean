import Mathlib
import Locus.Plot.Basic
import Locus.Proofs.Simplify.Soundness
import Locus.Proofs.Simplify.Variables

/-! Completing an expression to an equation. No rule applies to an equation or to the side that
completing adds, so a step of the equation is a step of the expression in it, and since steps keep the
variables the same side is added before and after. Completing and simplifying commute, unless
simplification leaves the empty expression (`completing_commutes_iff`). -/

namespace Locus
set_option autoImplicit false

open Locus.Expr Locus.Operator

variable {e e' : Expr}

/-! ## Equations with one side added -/

/-- An expression in an equation: on the left with zero, or on the right with `y`. -/
def equate (implicit : Bool) (e : Expr) : Expr :=
  if implicit then binary equals e (int 0) else binary equals (var "y") e

theorem complete_of_open (hempty : e ≠ .empty) (hequals : e.isOperator equals = false) :
    complete e = equate (e.variableNames.contains "y") e := by
  unfold complete
  split
  · exact absurd rfl hempty
  · cases hequals
  · rfl

theorem complete_equate (implicit : Bool) (e : Expr) :
    complete (equate implicit e) = equate implicit e := by
  cases implicit <;> rfl

theorem complete_complete (e : Expr) : complete (complete e) = complete e := by
  by_cases hempty : e = .empty
  · rw [hempty]
    rfl
  · cases hequals : e.isOperator equals with
    | false => rw [complete_of_open hempty hequals, complete_equate]
    | true =>
      cases e with
      | binary op l r =>
        obtain rfl : op = equals := by simpa [isOperator, operator?] using hequals
        rfl
      | _ => cases hequals

/-! ## Steps of an equation -/

theorem applyFirst_equation (l r : Expr) : applyFirst standardRules (binary equals l r) = .ok none := by
  have hratios : distributeRatios (binary equals l r) = .ok none := by
    unfold distributeRatios
    split
    · next hratios =>
      cases hratios
      rfl
    · rfl
  simp only [standardRules, catalogue, List.map_cons, List.map_nil, applyFirst, foldConstants,
    eliminateIdentities, withoutNeutral?, hratios, consolidatePowers, orderCoefficients]

/-- A step of the equation is a step of the expression in it. -/
theorem step_equate (implicit : Bool) (e : Expr) :
    step standardRules (equate implicit e)
      = (step standardRules e).map (Option.map (equate implicit)) := by
  have hzero : step standardRules (int 0) = .ok none := rfl
  have hy : step standardRules (var "y") = .ok none := rfl
  cases implicit with
  | true =>
    rw [equate, if_pos rfl, step, applyFirst_equation, ok_bind]
    cases step standardRules e with
    | error fault => rfl
    | ok r => cases r <;> rfl
  | false =>
    rw [equate, if_neg Bool.false_ne_true, step, applyFirst_equation, ok_bind]
    dsimp only
    rw [hy]
    cases step standardRules e with
    | error fault => rfl
    | ok r => cases r <;> rfl

theorem simplify_equate (implicit : Bool) (n : Nat) (e : Expr) :
    simplify standardRules n (equate implicit e)
      = (simplify standardRules n e).map (equate implicit) := by
  induction n generalizing e with
  | zero => rfl
  | succ n ih =>
    rw [simplify, simplify, step_equate]
    cases step standardRules e with
    | error fault => rfl
    | ok r =>
      cases r with
      | none => rfl
      | some e' => exact ih e'

/-! ## Expressions without empty parts -/

/-- No part of the expression is empty. -/
def Expr.EmptyFree (e : Expr) : Prop := e.AllHeads (· ≠ .empty)

theorem Expr.EmptyFree.ne_empty (h : e.EmptyFree) : e ≠ .empty := by
  rintro rfl
  exact h rfl

theorem Rewrites.emptyFree (h : Rewrites e e') (he : e.EmptyFree) : e'.EmptyFree :=
  h.allHeads (fun _ => Head.noConfusion) he

/-! ## Runs -/

theorem isOperator_of_equationFree (h : e.EquationFree) : e.isOperator equals = false := by
  cases e with
  | binary op l r => simpa [isOperator, operator?] using h.1
  | _ => rfl

theorem contains_iff_mem_freeVariables (x : String) :
    e.variableNames.contains x ↔ x ∈ e.freeVariables := by
  simp [freeVariables]

/-- Completing after any number of steps is completing before them, unless nothing is left. -/
theorem complete_of_keeps (hempty : e' ≠ .empty) (hfree : e'.EquationFree)
    (hvariables : e'.freeVariables = e.freeVariables) :
    complete e' = equate (e.variableNames.contains "y") e' := by
  have hsame : e'.variableNames.contains "y" = e.variableNames.contains "y" := by
    rw [Bool.eq_iff_iff, contains_iff_mem_freeVariables, contains_iff_mem_freeVariables, hvariables]
  rw [complete_of_open hempty (isOperator_of_equationFree hfree), hsame]

/-- Completing commutes with any number of steps, on an expression other than the empty one, if and
only if simplification does not leave the empty expression. It never does where no part is empty.
Completing twice is completing once. -/
theorem completing_commutes_iff (e : Expr) (n : Nat) (hempty : e ≠ .empty) (hfree : e.EquationFree)
    (hfinite : e.AllLiterals Literal.IsFinite) :
    (∃ e', simplify standardRules n e = .ok e' ∧
      (simplify standardRules n (complete e) = .ok (complete e') ↔ e' ≠ .empty) ∧
      (e.EmptyFree → e' ≠ .empty)) ∧
    complete (complete e) = complete e := by
  refine ⟨?_, complete_complete e⟩
  obtain ⟨e', hrun, -, hfree', hvariables, hfull⟩ := simplify_induction finite_foldClosed
    (motive := fun e' => e'.EquationFree ∧ e'.freeVariables = e.freeVariables ∧
      (e.EmptyFree → e'.EmptyFree))
    (fun _ hkeeps hrewrites => ⟨hrewrites.equationFree hkeeps.1,
      hrewrites.freeVariables_eq.trans hkeeps.2.1, fun h => hrewrites.emptyFree (hkeeps.2.2 h)⟩)
    hfinite ⟨hfree, rfl, id⟩ n
  refine ⟨e', hrun, ?_, fun h => (hfull h).ne_empty⟩
  have hcompleted : simplify standardRules n (complete e)
      = .ok (equate (e.variableNames.contains "y") e') := by
    rw [complete_of_open hempty (isOperator_of_equationFree hfree), simplify_equate, hrun]
    rfl
  rw [hcompleted, Except.ok.injEq]
  constructor
  · rintro hsame rfl
    cases hy : e.variableNames.contains "y" <;> rw [hy] at hsame <;> cases hsame
  · intro hne
    rw [complete_of_keeps hne hfree' hvariables]

/-- `x / (2 y) + z / (y 2)` becomes `(x + z) / (2 y)`, on its own and in an equation with zero. -/
theorem completing_twiceDivided_commutes :
    twiceDivided ≠ .empty ∧ twiceDivided.EquationFree ∧
      twiceDivided.AllLiterals Literal.IsFinite ∧ twiceDivided.EmptyFree ∧
      (∃ e', simplify standardRules 5 twiceDivided = .ok e' ∧
        e' = binary divide (binary plus (var "x") (var "z")) (binary times (int 2) (var "y")) ∧
        complete e' = binary equals e' (int 0) ∧
        simplify standardRules 5 (complete twiceDivided) = .ok (complete e')) ∧
      complete (complete twiceDivided) = complete twiceDivided := by
  have hempty : twiceDivided ≠ .empty := Expr.noConfusion
  have hfree : twiceDivided.EquationFree := by
    simp [twiceDivided, EquationFree, int]
  have hfinite : twiceDivided.AllLiterals Literal.IsFinite :=
    ⟨⟨trivial, trivial, trivial⟩, trivial, trivial, trivial⟩
  have hfull : twiceDivided.EmptyFree := by
    simp [twiceDivided, EmptyFree, AllHeads, int, head]
  obtain ⟨⟨e', hrun, hcommutes, hne⟩, hagain⟩ :=
    completing_commutes_iff twiceDivided 5 hempty hfree hfinite
  have hresult : simplify standardRules 5 twiceDivided
      = .ok (binary divide (binary plus (var "x") (var "z"))
        (binary times (int 2) (var "y"))) := by
    decide
  have he' := Except.ok.inj (hrun.symm.trans hresult)
  refine ⟨hempty, hfree, hfinite, hfull, ⟨e', hrun, he', ?_, hcommutes.mpr (hne hfull)⟩, hagain⟩
  rw [he']
  decide

/-- A neutral factor next to an empty one. -/
def neutralProduct : Expr := binary times (int 1) .empty

/-- Simplification leaves nothing of the product, and nothing is not completed. In the equation the
side with `y` is there already. -/
theorem completing_neutralProduct_differs :
    neutralProduct ≠ .empty ∧ neutralProduct.EquationFree ∧
      neutralProduct.AllLiterals Literal.IsFinite ∧
      simplify standardRules 1 neutralProduct = .ok .empty ∧
      simplify standardRules 1 (complete neutralProduct) ≠ .ok (complete .empty) ∧
      simplify standardRules 1 (complete neutralProduct) = .ok (binary equals (var "y") .empty) := by
  have hfree : neutralProduct.EquationFree := by
    simp [neutralProduct, EquationFree, int]
  exact ⟨Expr.noConfusion, hfree, ⟨trivial, trivial⟩, by decide, by decide, by decide⟩

end Locus
