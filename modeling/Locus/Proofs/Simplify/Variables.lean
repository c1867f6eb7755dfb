import Mathlib
import Locus.Proofs.Expr.Commuted

/-! Variables along simplification. Whole parts of an expression are dropped only where another
part agrees with them up to the order of operands, and such parts have the same variables. So every
rewrite keeps the set of variables, and so does a run of any length
(`simplification_keeps_variables`). -/

namespace Locus
set_option autoImplicit false

open Locus.Expr Locus.Operator

/-! ## Variables -/

/-- The variables that occur, each of them once. -/
def Expr.freeVariables (e : Expr) : Finset String := e.variableNames.toFinset

variable {e e' m n x : Expr}

@[simp] theorem freeVariables_number (v : Literal) : (number v).freeVariables = ∅ := rfl

@[simp] theorem freeVariables_int (k : Int) : (int k).freeVariables = ∅ := rfl

@[simp] theorem freeVariables_call (f : String) (a : Expr) :
    (call f a).freeVariables = a.freeVariables := rfl

@[simp] theorem freeVariables_binary (op : Operator) (l r : Expr) :
    (binary op l r).freeVariables = l.freeVariables ∪ r.freeVariables :=
  List.toFinset_append

theorem freeVariables_of_hasValue {v : Literal} (h : e.hasValue v) : e.freeVariables = ∅ := by
  cases e with
  | number w => simp
  | _ => cases h

/-! ## Rearrangements -/

theorem Rearranges.freeVariables_eq (h : Rearranges e e') : e.freeVariables = e'.freeVariables := by
  induction h with
  | literal _ _ => simp
  | operands _ => simp [Finset.union_comm]
  | argument _ ih | left _ ih | right _ ih => simp [ih]

theorem freeVariables_of_rearranged (h : Relation.ReflTransGen Rearranges e e') :
    e.freeVariables = e'.freeVariables := by
  induction h with
  | refl => rfl
  | tail _ hlast ih => exact ih.trans hlast.freeVariables_eq

theorem freeVariables_of_sameUpToOrder (h : e.sameUpToOrder e') :
    e.freeVariables = e'.freeVariables :=
  freeVariables_of_rearranged (rearranged_of_sameUpToOrder h)

/-! ## Contractions -/

theorem freeVariables_of_fold {op : Operator} {a b : Literal}
    (h : foldConstants (binary op (number a) (number b)) = .ok (some e)) :
    e.freeVariables = ∅ := by
  rcases number_or_intRatio_of_fold h with ⟨v, rfl⟩ | ⟨-, i, j, rfl⟩
  · simp
  · simp [intRatio]

theorem freeVariables_splitPower (e : Expr) :
    (splitPower e).1.freeVariables ∪ (splitPower e).2.freeVariables = e.freeVariables := by
  rcases splitPower_cases e with he | ⟨he, -⟩
  · conv_rhs => rw [he]
    simp
  · simp [he]

theorem freeVariables_addExponents (h : addExponents m n = .ok (some x)) :
    x.freeVariables = m.freeVariables ∪ n.freeVariables := by
  obtain ⟨a, b, rfl, rfl, hfold⟩ | ⟨-, rfl⟩ := addExponents_cases h
  · simp [freeVariables_of_fold hfold]
  · simp

/-- The base of the second factor is dropped, and has the variables of the first one's. -/
theorem Merges.freeVariables_eq {first second merged : Expr} (h : Merges first second merged) :
    merged.freeVariables = first.freeVariables ∪ second.freeVariables := by
  obtain ⟨-, hbase, x, hx, rfl⟩ := h
  have hsame := freeVariables_of_sameUpToOrder hbase
  rw [← freeVariables_splitPower first, ← freeVariables_splitPower second, ← hsame,
    freeVariables_binary, freeVariables_addExponents hx]
  ext y
  simp
  tauto

theorem freeVariables_joinRatios (op : Operator) (a b c d : Expr) :
    (joinRatios op a b c d).freeVariables
      = (a.freeVariables ∪ b.freeVariables) ∪ (c.freeVariables ∪ d.freeVariables) := by
  unfold joinRatios
  split
  · next hsame =>
    rw [← freeVariables_of_sameUpToOrder hsame]
    ext y
    simp
    tauto
  · ext y
    simp
    tauto

theorem Contracts.freeVariables_eq (h : Contracts e e') : e'.freeVariables = e.freeVariables := by
  cases h with
  | fold _ folds => simp [freeVariables_of_fold folds]
  | oneTimes one => simp [freeVariables_of_hasValue one]
  | timesOne one | divideOne one | powerOne one => simp [freeVariables_of_hasValue one]
  | plusZero zero | zeroPlus zero | minusZero zero => simp [freeVariables_of_hasValue zero]
  | timesRatios =>
    ext y
    simp
    tauto
  | addRatios _ => simp [freeVariables_joinRatios]
  | merge merges => simp [merges.freeVariables_eq]
  | mergeOuter merges => simp [merges.freeVariables_eq]
  | mergeInner merges =>
    rw [freeVariables_binary, merges.freeVariables_eq]
    ext y
    simp
    tauto
  | order => simp [Finset.union_comm]

theorem Rewrites.freeVariables_eq (h : Rewrites e e') : e'.freeVariables = e.freeVariables := by
  induction h with
  | here h => exact h.freeVariables_eq
  | argument _ ih | left _ ih | right _ ih => simp [ih]

/-! ## Runs -/

/-- A step keeps the set of variables, and so do any number of steps. -/
theorem simplification_keeps_variables (e : Expr) (h : e.AllLiterals Literal.IsFinite) :
    (∃ r, step standardRules e = .ok r ∧ (r.getD e).freeVariables = e.freeVariables) ∧
      ∀ n, ∃ e', simplify standardRules n e = .ok e' ∧ e'.freeVariables = e.freeVariables := by
  constructor
  · obtain ⟨r, hr⟩ := step_isOk finite_foldClosed h
    refine ⟨r, hr, ?_⟩
    cases r with
    | none => rfl
    | some e' => exact (rewrites_of_step hr).freeVariables_eq
  · intro n
    obtain ⟨e', hrun, -, hkeeps⟩ := simplify_induction finite_foldClosed
      (motive := fun e' => e'.freeVariables = e.freeVariables)
      (fun _ hkeeps hrewrites => hrewrites.freeVariables_eq.trans hkeeps) h rfl n
    exact ⟨e', hrun, hkeeps⟩

/-- `x / (2 y) + z / (y 2)`. One of the denominators goes. -/
def twiceDivided : Expr :=
  binary plus (binary divide (var "x") (binary times (int 2) (var "y")))
    (binary divide (var "z") (binary times (var "y") (int 2)))

theorem variables_of_twiceDivided_kept :
    twiceDivided.AllLiterals Literal.IsFinite ∧
      (∃ r, step standardRules twiceDivided = .ok r ∧
        (r.getD twiceDivided).freeVariables = {"x", "y", "z"}) ∧
      ∀ n, ∃ e', simplify standardRules n twiceDivided = .ok e' ∧
        e'.freeVariables = {"x", "y", "z"} := by
  have hfinite : twiceDivided.AllLiterals Literal.IsFinite :=
    ⟨⟨trivial, trivial, trivial⟩, trivial, trivial, trivial⟩
  have hvariables : twiceDivided.freeVariables = {"x", "y", "z"} := by decide
  have hkeeps := simplification_keeps_variables twiceDivided hfinite
  rw [hvariables] at hkeeps
  exact ⟨hfinite, hkeeps⟩

end Locus
