import Mathlib.Tactic.NormNum
import Locus.Proofs.Parse.Rejection
import Locus.Proofs.Shading.Definedness
import Locus.Proofs.Plot.Settling
import Locus.Proofs.Simplify.Termination

/-! Plots that come to an end. Parsing leaves all literals in range, and so does every rule except
the folding of quotients and powers. Where that stays in range too, a text is rejected or plotted,
and nothing else happens (`plotting_completes`). -/

namespace Locus
set_option autoImplicit false

open Locus.Expr Locus.Operator

variable {e e' : Expr}

/-! ## Markup -/

theorem render_isOk (reserved : List String) (h : e.AllLiterals Literal.InRange) :
    ∃ markup, Markup.render reserved e = .ok markup := by
  induction e with
  | empty => exact ⟨_, rfl⟩
  | number v =>
    obtain ⟨s, htext, -⟩ := Literal.isWritten_of_inRange h
    exact ⟨_, htext⟩
  | var x => exact ⟨_, rfl⟩
  | call f a ih =>
    obtain ⟨text, htext⟩ := ih h
    exact ⟨_, by rw [Markup.render, htext]; rfl⟩
  | binary op l r ihl ihr =>
    obtain ⟨left, hl⟩ := ihl h.1
    obtain ⟨right, hr⟩ := ihr h.2
    exact ⟨_, by rw [Markup.render, hl, hr]; rfl⟩

/-! ## Folding -/

/-- A quotient or a power of two literals that is folded to a literal no double can hold. -/
def Expr.FoldsBeyond (e : Expr) : Prop :=
  ∃ op a b folded, (op = divide ∨ op = power) ∧ e = binary op (number a) (number b) ∧
    foldConstants e = .ok (some folded) ∧ ¬folded.AllLiterals Literal.InRange

theorem inRange_resultOf {v : Rat} (h : resultOf v false = some e) :
    e.AllLiterals Literal.InRange := by
  unfold resultOf at h
  obtain ⟨x, hx, rfl⟩ := Option.map_eq_some_iff.mp h
  rw [if_neg Bool.false_ne_true]
  split_ifs with hden
  · show (Double.ofRat? ((v.num : Int) : Rat)).isSome
    rw [← (Rat.den_eq_one_iff v).mp hden] at hx
    rw [hx]
    rfl
  · exact Double.isFinite_of_ofRat? hx

theorem inRange_fold {op : Operator} {a b : Literal} (hdivide : op ≠ divide) (hpower : op ≠ power)
    (h : foldConstants (binary op (number a) (number b)) = .ok (some e)) :
    e.AllLiterals Literal.InRange := by
  by_cases hop : op = equals
  · subst hop; cases h
  · obtain ⟨v, w, hv, hw⟩ := typedValues_of_foldConstants hop h
    rw [foldConstants_numbers hop hv hw, Except.ok.injEq] at h
    cases op with
    | equals => exact absurd rfl hop
    | divide => exact absurd rfl hdivide
    | power => exact absurd rfl hpower
    | _ => exact inRange_resultOf h

theorem inRange_sumClosed : SumClosed Literal.InRange where
  one := by decide +kernel
  sum _ _ h := inRange_fold (by decide) (by decide) h

/-- A rewrite stays in range where no quotient and no power is folded beyond it. -/
theorem Rewrites.inRange (h : Rewrites e e') (he : e.AllLiterals Literal.InRange)
    (hfolds : ∀ part : Expr, part.IsPart e → ¬part.FoldsBeyond) :
    e'.AllLiterals Literal.InRange := by
  refine h.allLiterals_of_fold inRange_sumClosed he fun {part folded} hpart hfold => ?_
  obtain ⟨op, a, b, rfl⟩ := exists_numbers_of_foldConstants hfold
  by_cases hop : op = divide ∨ op = power
  · by_contra hrange
    exact hfolds _ hpart ⟨op, a, b, folded, hop, rfl, hfold, hrange⟩
  · simp only [not_or] at hop
    exact inRange_fold hop.1 hop.2 hfold

/-! ## Runs -/

/-- Along at most `n` steps nothing is folded out of range. -/
def FoldsInRange (n : Nat) (e : Expr) : Prop :=
  AlongSteps (fun e' => ∀ part : Expr, part.IsPart e' → ¬part.FoldsBeyond) n e

/-- Where no step is left, nothing is folded. -/
theorem foldsInRange_of_settled (h : step standardRules e = .ok none) (n : Nat) :
    FoldsInRange n e := by
  refine alongSteps_of_settled h (fun part hpart hfolds => ?_) n
  obtain ⟨op, a, b, folded, -, -, hfold, -⟩ := hfolds
  have hnone := rule_of_step_none h hpart foldConstants (List.mem_cons_self ..)
  rw [hnone] at hfold
  cases hfold

theorem follow_isOk {n : Nat} (he : e.AllLiterals Literal.InRange) (hfolds : FoldsInRange n e)
    (shown : String) :
    ∃ trail, follow standardRules (Markup.render standardReserved) n e shown = .ok trail ∧
      trail.expr.AllLiterals Literal.InRange := by
  induction n generalizing e shown with
  | zero => exact ⟨_, rfl, he⟩
  | succ n ih =>
    obtain ⟨r, hstep⟩ := step_isOk finite_foldClosed (he.mono Literal.InRange.isFinite)
    rw [follow, hstep, ok_bind]
    cases r with
    | none => exact ⟨_, rfl, he⟩
    | some e' =>
      have he' := (rewrites_of_step hstep).inRange he hfolds.head
      obtain ⟨text, htext⟩ := render_isOk standardReserved he'
      obtain ⟨trail, hfollow, hrange⟩ := ih he' (hfolds.tail hstep) text
      dsimp only
      rw [htext, ok_bind]
      split_ifs
      · exact ⟨_, rfl, he'⟩
      · exact ⟨{ trail with steps := text :: trail.steps }, by rw [hfollow]; rfl, hrange⟩

theorem simplifyShown_isOk {n : Nat} (he : e.AllLiterals Literal.InRange)
    (hfolds : FoldsInRange n e) :
    ∃ trail, simplifyShown standardRules n e = .ok trail ∧
      trail.expr.AllLiterals Literal.InRange := by
  obtain ⟨text, htext⟩ := render_isOk standardReserved he
  obtain ⟨trail, hfollow, hrange⟩ := follow_isOk he hfolds text
  exact ⟨{ trail with steps := text :: trail.steps }, by
    rw [simplifyShown, settle, htext, ok_bind, hfollow]; rfl, hrange⟩

/-! ## Plots -/

/-- The expression that is plotted for a parsed one. -/
def PlotOptions.prepared (options : PlotOptions) (e : Expr) : Expr :=
  if options.completes then complete e else e

theorem inRange_prepared (options : PlotOptions) (h : e.AllLiterals Literal.InRange) :
    (options.prepared e).AllLiterals Literal.InRange := by
  have hzero : (int 0).AllLiterals Literal.InRange := by decide
  rw [PlotOptions.prepared]
  cases options.completes with
  | false => exact h
  | true =>
    rw [if_pos rfl]
    unfold complete
    split
    · exact h
    · exact h
    · split
      · exact ⟨h, hzero⟩
      · exact ⟨trivial, h⟩

theorem plotExpr_isOk {options : PlotOptions} (he : e.AllLiterals Literal.InRange)
    (hfolds : options.simplifies → FoldsInRange options.maxSteps (options.prepared e)) :
    ∃ p, plotExpr options e = .ok p := by
  have hrange := inRange_prepared options he
  obtain ⟨markup, hmarkup⟩ := render_isOk standardReserved hrange
  cases hsimplifies : options.simplifies with
  | true =>
    obtain ⟨trail, htrail, hend⟩ := simplifyShown_isOk hrange (hfolds hsimplifies)
    obtain ⟨code, hcode⟩ := Shading.code_isOk Shading.standardStyle hend
    exact ⟨_, by
      rw [plotExpr, ← PlotOptions.prepared, hmarkup, ok_bind, hsimplifies, if_pos rfl, htrail,
        ok_bind]
      dsimp only
      rw [hcode]
      rfl⟩
  | false =>
    obtain ⟨code, hcode⟩ := Shading.code_isOk Shading.standardStyle hrange
    exact ⟨_, by
      rw [plotExpr, ← PlotOptions.prepared, hmarkup, ok_bind, hsimplifies,
        if_neg Bool.false_ne_true, pure_eq_ok, ok_bind]
      dsimp only
      rw [hcode]
      rfl⟩

theorem parseReport_isOk (text : String) :
    ∃ report, parseReport standardNames .standard text = .ok report ∧
      report.result = parse standardNames .standard text := by
  have hparse := orRejected_parse text
  unfold parseReport
  cases hresult : parse standardNames .standard text with
  | ok e => exact ⟨_, rfl, rfl⟩
  | error error =>
    rw [hresult] at hparse
    have hrejection : error.isRejection = true := hparse
    dsimp only
    rw [hrejection]
    exact ⟨_, rfl, rfl⟩

/-- A text is plotted, or it is rejected for the error that parsing it gives. Nothing else happens
where simplification folds no quotient and no power of literals out of the range of the doubles. The
condition suffices but is not needed: `100000 ^ -64` is folded to a ratio whose denominator no double
can hold, and it is plotted since the digits of this denominator are few enough to be shown. -/
theorem plotting_completes (options : PlotOptions) (text : String)
    (hfolds : ∀ e, parse standardNames .standard text = .ok e → options.simplifies →
      FoldsInRange options.maxSteps (options.prepared e)) :
    ∃ outcome, plot options text = .ok outcome ∧ outcome.text = text ∧
      ∀ error, (outcome.result = .error error ↔
          parse standardNames .standard text = .error error) ∧
        (outcome.result = .error error → error.isRejection) := by
  obtain ⟨report, hreport, hresult⟩ := parseReport_isOk text
  have hparse := orRejected_parse text
  rw [plot, hreport, Except.mapError, ok_bind]
  dsimp only
  rw [hresult]
  cases hcase : parse standardNames .standard text with
  | error error =>
    rw [hcase] at hparse
    refine ⟨_, rfl, rfl, fun other => ⟨by simp, fun h => ?_⟩⟩
    obtain rfl := Except.error.inj h
    exact hparse
  | ok e =>
    rw [hcase] at hparse
    obtain ⟨p, hp⟩ := plotExpr_isOk hparse (hfolds e hcase)
    cases e with
    | empty => exact ⟨_, rfl, rfl, fun error => ⟨by simp, fun h => nomatch h⟩⟩
    | _ =>
      refine ⟨⟨text, report.tokensCount, .ok p⟩, ?_, rfl,
        fun error => ⟨by simp, fun h => nomatch h⟩⟩
      dsimp only
      rw [hp]
      rfl

example : (plot .standard "100000^-64").isOk = true := by decide +kernel

/-- `y = 4 / 6`, and the expression that it is reduced to. -/
theorem plotting_of_twoThirds_completes :
    (∀ e, parse standardNames .standard "4/6" = .ok e → PlotOptions.standard.simplifies →
        FoldsInRange PlotOptions.standard.maxSteps (PlotOptions.standard.prepared e)) ∧
      ∃ outcome, plot .standard "4/6" = .ok outcome ∧ outcome.text = "4/6" ∧
        ∀ error, outcome.result ≠ .error error := by
  have hparse : parse standardNames .standard "4/6" = .ok (binary divide (int 4) (int 6)) := by
    decide +kernel
  have hfolds : ∀ e, parse standardNames .standard "4/6" = .ok e →
      PlotOptions.standard.simplifies →
      FoldsInRange PlotOptions.standard.maxSteps (PlotOptions.standard.prepared e) := by
    intro e he _
    obtain rfl := Except.ok.inj (hparse.symm.trans he)
    have hstep : step standardRules (binary equals (var "y") (binary divide (int 4) (int 6)))
        = .ok (some (binary equals (var "y") (binary divide (int 2) (int 3)))) := by decide +kernel
    have hsettled : step standardRules (binary equals (var "y") (binary divide (int 2) (int 3)))
        = .ok none := by decide +kernel
    refine AlongSteps.cons ?_ hstep (foldsInRange_of_settled hsettled _)
    rintro part hpart ⟨op, a, b, folded, hop, rfl, hfold, hbeyond⟩
    cases hpart with
    | left h => cases h
    | right h =>
      cases h with
      | self =>
        have hreduced : foldConstants (binary divide (int 4) (int 6))
            = .ok (some (binary divide (int 2) (int 3))) := by decide +kernel
        obtain rfl := Option.some.inj (Except.ok.inj (hreduced.symm.trans hfold))
        exact hbeyond (by decide +kernel)
      | left h => cases h
      | right h => cases h
  obtain ⟨outcome, hplot, htext, hresult⟩ := plotting_completes .standard "4/6" hfolds
  refine ⟨hfolds, outcome, hplot, htext, fun error h => ?_⟩
  have := (hresult error).1.mp h
  rw [hparse] at this
  cases this

/-- Folding a power writes out its denominator, which may have too many digits to be shown. -/
theorem plot_of_smallPower_fails :
    ¬∀ (options : PlotOptions) (text : String), ∃ outcome, plot options text = .ok outcome := by
  intro h
  obtain ⟨outcome, houtcome⟩ := h .standard "(12^63)^-64"
  have hfails : (plot .standard "(12^63)^-64").isOk = false := by decide +kernel
  rw [houtcome] at hfails
  cases hfails

end Locus
