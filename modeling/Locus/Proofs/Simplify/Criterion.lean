import Mathlib
import Locus.Plot.Basic
import Locus.Proofs.Simplify.Soundness

/-! Equations inside expressions. Wherever an equation occurs it stands for the difference of its
sides, the sign of which is what is plotted. Simplification compares the sides in either order, so
it may take an equation and its mirror image for the same (`TurnsEquation`); any other step keeps the
value (`simplification_keeps_criterion`). -/

namespace Locus
set_option autoImplicit false

open Locus.Expr Locus.Operator

/-! ## Steps -/

/-- The next step takes two parts for the same that have different values, since an equation in the
one has its mirror image in the other. A step that can be read in more than one way does so in each. -/
def TurnsEquation (ν : Valuation) (e : Expr) : Prop :=
  ∃ e', step standardRules e = .ok (some e') ∧ (∃ a b, Identifies e e' a b) ∧
    ∀ a b, Identifies e e' a b → ¬Agree ν a b ∧ Mirrors ν a b

section

variable {ν : Valuation} {e e' : Expr}

theorem refines_or_turnsEquation (he : e.AllLiterals Literal.IsInteger)
    (hstep : step standardRules e = .ok (some e')) : Refines ν e e' ∨ TurnsEquation ν e := by
  by_cases hagree : ∃ a b, Identifies e e' a b ∧ Agree ν a b
  · obtain ⟨a, b, hsame, hvalues⟩ := hagree
    exact .inl (hsame.refines he hvalues)
  · rcases (rewrites_of_step hstep).refines_or_identifies he with hrefines | hsame
    · exact .inl hrefines
    · refine .inr ⟨e', hstep, hsame, fun a b h => ?_⟩
      have hdiffer : ¬Agree ν a b := fun hvalues => hagree ⟨a, b, h, hvalues⟩
      exact ⟨hdiffer, (h.agree_or_mirrors he).resolve_left hdiffer⟩

theorem not_turnsEquation_of_agree {a b : Expr} (hstep : step standardRules e = .ok (some e'))
    (hsame : Identifies e e' a b) (hagree : Agree ν a b) : ¬TurnsEquation ν e := by
  rintro ⟨next, hnext, -, hturned⟩
  obtain rfl : e' = next := Option.some.inj (Except.ok.inj (hstep.symm.trans hnext))
  exact (hturned a b hsame).1 hagree

theorem not_turnsEquation_of_unmirrored (he : e.AllLiterals Literal.IsInteger)
    (hmirror : Unmirrored ν e.equations) : ¬TurnsEquation ν e := by
  rintro ⟨e', -, ⟨a, b, hsame⟩, hturned⟩
  exact (hturned a b hsame).1 (hsame.agree_of_unmirrored he hmirror)

theorem not_turnsEquation_of_settled (h : step standardRules e = .ok none) :
    ¬TurnsEquation ν e := by
  rintro ⟨e', hstep, -⟩
  cases h.symm.trans hstep

end

/-! ## Runs -/

theorem refines_simplify {ν : Valuation} {n : Nat} {e e' : Expr}
    (he : e.AllLiterals Literal.IsInteger) (hsteps : AlongSteps (¬TurnsEquation ν ·) n e)
    (hrun : simplify standardRules n e = .ok e') : Refines ν e e' := by
  induction n generalizing e with
  | zero =>
    obtain rfl : e = e' := Except.ok.inj hrun
    exact Refines.refl e
  | succ n ih =>
    obtain ⟨r, hstep⟩ := step_isOk integer_foldClosed he
    cases r with
    | none =>
      rw [simplify_of_settled hstep, Except.ok.injEq] at hrun
      exact hrun ▸ Refines.refl e
    | some next =>
      have hnext := (refines_or_turnsEquation he hstep).resolve_right hsteps.head
      have hinteger := (rewrites_of_step hstep).allLiterals integer_foldClosed he
      rw [simplify_succ n hstep] at hrun
      exact hnext.trans (ih hinteger (hsteps.tail hstep) hrun)

/-- Mirror images do not come up on the way: each equation has the values of an earlier one. -/
theorem alongSteps_of_unmirrored {ν : Valuation} {e : Expr} (he : e.AllLiterals Literal.IsInteger)
    (hmirror : Unmirrored ν e.equations) {v : Rat} (hv : e.value? ν = some v) (n : Nat) :
    AlongSteps (¬TurnsEquation ν ·) n e := by
  intro k _ e' hrun
  obtain ⟨e'', hrun', hinteger, -, hmirror'⟩ := simplify_induction integer_foldClosed
    (motive := fun e' => e'.value? ν = some v ∧ Unmirrored ν e'.equations)
    (fun hinteger hmotive hrewrites =>
      ⟨hrewrites.refines_of_unmirrored hinteger hmotive.2 v hmotive.1,
        (hrewrites.equationsFrom hinteger hmotive.2 hmotive.1).unmirrored hmotive.2⟩)
    he ⟨hv, hmirror⟩ k
  obtain rfl : e'' = e' := Except.ok.inj (hrun'.symm.trans hrun)
  exact not_turnsEquation_of_unmirrored hinteger hmirror'

/-- Simplification keeps the plotted value, equations anywhere. Where an expression with integer
literals has a value, one step and any number of steps succeed and leave an expression with the same
value, unless one of the steps turns an equation over. None does so if no two equations of the
expression to start from have values that mirror each other. -/
theorem simplification_keeps_criterion (e : Expr) (he : e.AllLiterals Literal.IsInteger)
    (ν : Valuation) :
    (∃ r, step standardRules e = .ok r ∧ (¬TurnsEquation ν e → Refines ν e (r.getD e))) ∧
      (∀ n, ∃ e', simplify standardRules n e = .ok e' ∧
        (AlongSteps (¬TurnsEquation ν ·) n e → Refines ν e e')) ∧
      (Unmirrored ν e.equations → ∀ v, e.value? ν = some v →
        ∀ n, AlongSteps (¬TurnsEquation ν ·) n e) := by
  refine ⟨?_, fun n => ?_, fun hmirror v hv n => alongSteps_of_unmirrored he hmirror hv n⟩
  · obtain ⟨r, hr⟩ := step_isOk integer_foldClosed he
    refine ⟨r, hr, fun hkeeps => ?_⟩
    cases r with
    | none => exact Refines.refl e
    | some e' => exact (refines_or_turnsEquation he hr).resolve_right hkeeps
  · obtain ⟨e', hrun, -⟩ := simplify_induction integer_foldClosed (motive := fun _ => True)
      (fun _ _ _ => trivial) he trivial n
    exact ⟨e', hrun, fun hsteps => refines_simplify he hsteps hrun⟩

/-- The valuation that gives `x` one value and all other variables another, without functions. -/
def Valuation.ofX (x other : Rat) : Valuation where
  ofVar name := if name = "x" then x else other
  ofCall _ _ := none

/-- `1 / (x = y) + x / (x = y)`, in which one equation occurs twice. -/
def sharedDenominator : Expr :=
  binary plus (binary divide (int 1) (binary equals (var "x") (var "y")))
    (binary divide (var "x") (binary equals (var "x") (var "y")))

/-- `(1 / (x = y) + x / (x = y)) (y = x)`. The equation and its mirror image are never compared. -/
def mirroredFactor : Expr :=
  binary times sharedDenominator (binary equals (var "y") (var "x"))

theorem simplification_keeps_mirroredFactor :
    mirroredFactor.AllLiterals Literal.IsInteger ∧
      mirroredFactor.value? (.ofX 3 1) = some (-4) ∧
      (∃ r, step standardRules mirroredFactor = .ok r ∧
        Refines (.ofX 3 1) mirroredFactor (r.getD mirroredFactor)) ∧
      (∀ n, ∃ e', simplify standardRules n mirroredFactor = .ok e' ∧
        Refines (.ofX 3 1) mirroredFactor e') ∧
      sharedDenominator.AllLiterals Literal.IsInteger ∧
      Unmirrored (.ofX 3 1) sharedDenominator.equations ∧
      sharedDenominator.value? (.ofX 3 1) = some 2 ∧
      ∀ n, AlongSteps (¬TurnsEquation (.ofX 3 1) ·) n sharedDenominator := by
  have hshared : sharedDenominator.AllLiterals Literal.IsInteger := by
    simp [sharedDenominator, AllLiterals, int, Literal.IsInteger]
  have hinteger : mirroredFactor.AllLiterals Literal.IsInteger := ⟨hshared, trivial, trivial⟩
  have hletters : ("y" : String) ≠ "x" := by decide
  have hsum : sharedDenominator.value? (.ofX 3 1) = some 2 := by
    norm_num [sharedDenominator, value?_int, Expr.value?, Valuation.ofX, compute?, hletters]
  have hvalue : mirroredFactor.value? (.ofX 3 1) = some (-4) := by
    have hturned : (binary equals (var "y") (var "x")).value? (.ofX 3 1) = some (-2) := by
      norm_num [Expr.value?, Valuation.ofX, compute?, hletters]
    rw [mirroredFactor, value?_binary hsum hturned, compute?]
    norm_num
  have hmirror : Unmirrored (.ofX 3 1) sharedDenominator.equations := by
    intro p hp q hq x y hx hy hy' hx'
    simp only [sharedDenominator, equations, int, reduceCtorEq, if_true, if_false, List.append_nil,
      List.nil_append, List.cons_append, List.mem_cons, List.not_mem_nil, or_false, or_self]
      at hp hq
    subst hp hq
    exact Option.some.inj (hx.symm.trans hy')
  -- the one step takes `x = y` for `x = y`
  have hsame : (binary equals (var "x") (var "y")).sameUpToOrder
      (binary equals (var "x") (var "y")) := by decide
  obtain ⟨joined, hstep, hjoined, hsettled⟩ : ∃ joined,
      step standardRules mirroredFactor = .ok (some joined) ∧
      Identifies mirroredFactor joined (binary equals (var "x") (var "y"))
        (binary equals (var "x") (var "y")) ∧
      step standardRules joined = .ok none :=
    ⟨_, by decide +kernel, .left (.denominators (.inl rfl) hsame), by decide +kernel⟩
  have hkeeps : ¬TurnsEquation (.ofX 3 1) mirroredFactor :=
    not_turnsEquation_of_agree hstep hjoined (Agree.refl _)
  have hsteps : ∀ n, AlongSteps (¬TurnsEquation (.ofX 3 1) ·) n mirroredFactor := by
    intro n
    cases n with
    | zero => exact fun k hk => absurd hk (Nat.not_lt_zero k)
    | succ n =>
      have hafter := not_turnsEquation_of_settled (ν := .ofX 3 1) hsettled
      exact .cons hkeeps hstep (alongSteps_of_settled hsettled hafter n)
  obtain ⟨⟨r, hr, hone⟩, hruns, -⟩ :=
    simplification_keeps_criterion mirroredFactor hinteger (.ofX 3 1)
  obtain ⟨-, -, hunmirrored⟩ := simplification_keeps_criterion sharedDenominator hshared (.ofX 3 1)
  refine ⟨hinteger, hvalue, ⟨r, hr, hone hkeeps⟩, fun n => ?_, hshared, hmirror, hsum,
    hunmirrored hmirror 2 hsum⟩
  obtain ⟨e', hrun, hmany⟩ := hruns n
  exact ⟨e', hrun, hmany (hsteps n)⟩

/-! ## Mirror images -/

/-- Every power has an integer literal for its exponent. -/
def Expr.IntegerPowers : Expr → Prop
  | .call _ a => a.IntegerPowers
  | .binary op l r => (op = power → ∃ n, r = int n) ∧ l.IntegerPowers ∧ r.IntegerPowers
  | _ => True

/-- `(x = y) (y = x)`, the negative of a square. -/
def mirroredProduct : Expr :=
  binary times (binary equals (var "x") (var "y")) (binary equals (var "y") (var "x"))

/-- The product of an equation and its mirror image becomes a square. -/
theorem criterion_lost_on_mirroredProduct :
    ¬∀ (text : String) (e : Expr), parse standardNames .standard text = .ok e →
      e.AllLiterals Literal.IsInteger → e.IntegerPowers → ∀ (ν : Valuation) (v : Rat),
      e.value? ν = some v →
        ∃ r, step standardRules e = .ok r ∧ (r.getD e).value? ν = some v := by
  intro h
  have hparse : parse standardNames .standard "(x=y)*(y=x)" = .ok mirroredProduct := by
    decide +kernel
  have hstep : step standardRules mirroredProduct
      = .ok (some (binary power (binary equals (var "x") (var "y")) (int 2))) := by
    decide +kernel
  have hinteger : mirroredProduct.AllLiterals Literal.IsInteger := by
    simp [mirroredProduct, AllLiterals]
  have hpowers : mirroredProduct.IntegerPowers := by
    simp [mirroredProduct, IntegerPowers]
  have hletters : ("y" : String) ≠ "x" := by decide
  have hvalue : mirroredProduct.value? (.ofX 1 0) = some (-1) := by
    norm_num [mirroredProduct, Expr.value?, Valuation.ofX, compute?, hletters]
  have hsquare : (binary power (binary equals (var "x") (var "y")) (int 2)).value? (.ofX 1 0)
      = some 1 := by
    norm_num [Expr.value?, value?_int, Valuation.ofX, compute?, rationalPower?, hletters]
  obtain ⟨r, hr, hkept⟩ := h _ _ hparse hinteger hpowers (.ofX 1 0) (-1) hvalue
  rw [hstep, Except.ok.injEq] at hr
  rw [← hr, Option.getD_some, hsquare] at hkept
  norm_num at hkept

end Locus
