import Locus.Proofs.Plot.Completion
import Locus.Proofs.Plot.Equation
import Locus.Proofs.Simplify.Whole

/-! Plots do not show whether an integer is written as a double. Markup and code of an expression
are those of the expression with whole doubles taken for their integers, and each step shows the
same, so a plot shows the same from the first markup to the code (`agreeOn_plotExpr`). -/

namespace Locus
set_option autoImplicit false

open Locus.Expr Locus.Operator

/-! ## Markup -/

namespace Markup

theorem leftEnd_whole (e : Expr) : leftEnd e.whole = (leftEnd e).whole := by
  induction e with
  | binary op l r ihl _ => exact ihl
  | _ => rfl

theorem rightEnd_whole (e : Expr) : rightEnd e.whole = (rightEnd e).whole := by
  induction e with
  | binary op l r _ ihr =>
    cases op with
    | times => exact ihr
    | _ => rfl
  | _ => rfl

theorem separator_whole (reserved : List String) (l r : Expr) :
    separator reserved l.whole r.whole = separator reserved l r := by
  rw [separator, separator, isNumber_whole, isNumber_whole, leftEnd_whole, rightEnd_whole]
  cases leftEnd r with
  | var y => cases rightEnd l <;> rfl
  | _ => rfl

theorem isNegativeNumber_whole (e : Expr) : isNegativeNumber e.whole = isNegativeNumber e := by
  cases e with
  | number v => exact Literal.isNegative_whole v
  | _ => rfl

theorem joined_whole (reserved : List String) (op : Operator) (l r : Expr) (left right : String) :
    joined reserved op l.whole r.whole left right = joined reserved op l r left right := by
  simp only [joined, ← whole_binary, needsParentheses_whole, isNegativeNumber_whole,
    hasValue_whole, isNumber_whole, separator_whole]

theorem render_whole (reserved : List String) (e : Expr) :
    render reserved e.whole = render reserved e := by
  induction e with
  | number v => exact Literal.typed_whole v
  | call f a ih => rw [whole_call, render, render, ih]
  | binary op l r ihl ihr =>
    rw [whole_binary, render, render, ihl, ihr]
    simp only [joined_whole]
  | _ => rfl

end Markup

/-! ## Code -/

namespace Shading

theorem integralExponent?_whole (e : Expr) : integralExponent? e.whole = integralExponent? e := by
  cases e with
  | number v =>
    refine Literal.apply_whole (f := fun v => integralExponent? (number v)) (fun x n h => ?_) v
    rw [integralExponent?, if_pos h.ofRat?_isSome, integralExponent?, h.toInt]
  | _ => rfl

theorem isProduct_whole (limit : Int) (e : Expr) : isProduct limit e.whole = isProduct limit e := by
  cases e with
  | binary op l r =>
    cases op with
    | power => rw [whole_binary, isProduct, isProduct, integralExponent?_whole]
    | _ => rfl
  | _ => rfl

theorem factor_whole (limit : Int) (base : Expr) (code : String) :
    factor limit base.whole code = factor limit base code := by
  cases base with
  | binary op l r =>
    cases op with
    | power =>
      have hproduct := isProduct_whole limit (binary .power l r)
      rw [whole_binary] at hproduct ⊢
      rw [factor, factor, hproduct]
    | _ => rfl
  | _ => rfl

theorem naturalPower_whole (limit : Int) (base : Expr) (exponent : Int)
    (baseCode : Except NumericFault String) :
    naturalPower limit base.whole exponent baseCode
      = naturalPower limit base exponent baseCode := by
  simp only [naturalPower, factor_whole]

theorem power_whole (limit : Int) (base exponent : Expr)
    (baseCode exponentCode : Except NumericFault String) :
    power limit base.whole exponent.whole baseCode exponentCode
      = power limit base exponent baseCode exponentCode := by
  simp only [power, integralExponent?_whole, naturalPower_whole]

theorem joined_whole (limit : Int) (op : Operator) (l r : Expr)
    (left right : Except NumericFault String) :
    joined limit op l.whole r.whole left right = joined limit op l r left right := by
  simp only [joined, ← whole_binary, needsParentheses_whole, isProduct_whole]

theorem code_whole (style : CodeStyle) (e : Expr) : code style e.whole = code style e := by
  induction e with
  | number v => exact Literal.code_whole v
  | call f a ih => rw [whole_call, code, code, ih]
  | binary op l r ihl ihr =>
    rw [whole_binary]
    cases op with
    | power => rw [code, code, ihl, ihr, power_whole]
    | equals => rw [code, code, ihl, ihr, joined_whole]
    | _ => simp only [code, ihl, ihr, joined_whole]
  | _ => rfl

end Shading

/-! ## Trails -/

/-- What a trail shows of itself, whole doubles apart. -/
def Trail.shown (trail : Trail) : Expr × List String × Bool :=
  (trail.expr.whole, trail.steps, trail.settled)

variable {rules : List Rule} {display : Expr → Except NumericFault String} {e e' : Expr}

theorem Trail.shown_cons {trail trail' : Trail} (h : trail.shown = trail'.shown) (text : String) :
    ({ trail with steps := text :: trail.steps } : Trail).shown
      = ({ trail' with steps := text :: trail'.steps } : Trail).shown := by
  simp only [shown, Prod.mk.injEq] at h ⊢
  exact ⟨h.1, by rw [h.2.1], h.2.2⟩

theorem agreeOn_follow (hrules : ∀ rule ∈ rules, rule.RespectsWhole)
    (hdisplay : ∀ e, display e.whole = display e) (h : e.whole = e'.whole) (n : Nat)
    (shown : String) :
    AgreeOn Trail.shown (follow rules display n e shown) (follow rules display n e' shown) := by
  induction n generalizing e e' shown with
  | zero => exact agreeOn_ok (by rw [Trail.shown, Trail.shown, h])
  | succ n ih =>
    rw [follow, follow]
    refine ((respectsWhole_step hrules).agree h).bind fun r r' hr => ?_
    rcases cases_of_map_whole_eq hr with ⟨rfl, rfl⟩ | ⟨next, next', rfl, rfl, hnext⟩
    · exact agreeOn_ok (by rw [Trail.shown, Trail.shown, h])
    · dsimp only
      rw [← hdisplay next, hnext, hdisplay next']
      refine agreeOn_bind fun text => ?_
      split_ifs
      · exact agreeOn_ok (by rw [Trail.shown, Trail.shown, hnext])
      · exact (ih hnext text).bind fun trail trail' htrail =>
          agreeOn_ok (Trail.shown_cons htrail text)

theorem agreeOn_settle (hrules : ∀ rule ∈ rules, rule.RespectsWhole)
    (hdisplay : ∀ e, display e.whole = display e) (h : e.whole = e'.whole) (n : Nat) :
    AgreeOn Trail.shown (settle rules display n e) (settle rules display n e') := by
  rw [settle, settle, ← hdisplay e, h, hdisplay e']
  refine agreeOn_bind fun text => ?_
  exact (agreeOn_follow hrules hdisplay h n text).bind fun trail trail' htrail =>
    agreeOn_ok (Trail.shown_cons htrail text)

/-! ## Plots -/

theorem complete_whole (e : Expr) : complete e.whole = (complete e).whole := by
  have hopen : ∀ e : Expr, e ≠ .empty → e.whole ≠ .empty → e.isOperator equals = false →
      complete e.whole = (complete e).whole := by
    intro e hempty hempty' hequals
    rw [complete_of_open hempty hequals,
      complete_of_open hempty' (by rwa [isOperator_whole]), variableNames_whole]
    cases e.variableNames.contains "y" <;> rfl
  cases e with
  | empty => rfl
  | binary op l r =>
    cases op with
    | equals => rfl
    | _ => exact hopen _ (by simp) (by simp) rfl
  | _ => exact hopen _ (by simp) (by simp) rfl

/-- What a plot shows: the markup of the expression and of each step, whether simplification came to
its end, and the code. -/
structure Plot.Shown where
  markup : String
  steps : List String
  settled : Bool
  simplifiedMarkup : String
  code : String

def Plot.shown (p : Plot) : Plot.Shown :=
  ⟨p.markup, p.steps, p.settled, p.simplifiedMarkup, p.code⟩

theorem code_eq_of_whole (h : e.whole = e'.whole) :
    Shading.code Shading.standardStyle e = Shading.code Shading.standardStyle e' := by
  rw [← Shading.code_whole, h, Shading.code_whole]

theorem agreeOn_plotExpr (options : PlotOptions) (h : e.whole = e'.whole) :
    AgreeOn Plot.shown (plotExpr options e) (plotExpr options e') := by
  have hprepared : (options.prepared e).whole = (options.prepared e').whole := by
    rw [PlotOptions.prepared, PlotOptions.prepared]
    split_ifs
    · rw [← complete_whole, ← complete_whole, h]
    · exact h
  rw [plotExpr, plotExpr, ← PlotOptions.prepared, ← PlotOptions.prepared,
    ← Markup.render_whole standardReserved (options.prepared e), hprepared, Markup.render_whole]
  refine agreeOn_bind fun markup => ?_
  split_ifs
  · refine (agreeOn_settle (fun _ => respectsWhole_of_mem) (Markup.render_whole standardReserved)
      hprepared _).bind fun trail trail' hshown => ?_
    simp only [Trail.shown, Prod.mk.injEq] at hshown
    obtain ⟨hexpr, hsteps, hsettled⟩ := hshown
    dsimp only
    rw [code_eq_of_whole hexpr]
    refine agreeOn_bind fun code => agreeOn_ok ?_
    simp only [Plot.shown, hsteps, hsettled]
  · simp only [pure_eq_ok, ok_bind]
    rw [code_eq_of_whole hprepared]
    exact agreeOn_bind fun code => rfl

end Locus
