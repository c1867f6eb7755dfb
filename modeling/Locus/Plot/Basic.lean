import Locus.Parse.Basic
import Locus.Plot.Options
import Locus.Plot.Trail
import Locus.Shading.Code

/-!
Plots: from the text of a formula to its markup and its shading code. The formula is parsed, made
an equation, simplified and written.
-/

namespace Locus
set_option autoImplicit false

/-- Makes an equation of an expression: one in which `y` occurs equals zero, and of any other one
`y` is the value. -/
def complete (e : Expr) : Expr :=
  match e with
  | .empty | .binary .equals _ _ => e
  | _ =>
    if e.variableNames.contains "y" then .binary .equals e (.int 0)
    else .binary .equals (.var "y") e

structure Plot where
  expr : Expr
  simplified : Expr
  markup : String
  simplifiedMarkup : String
  steps : List String
  code : String
  settled : Bool
  nodesCount : Nat

namespace Plot

def iterations (p : Plot) : Nat := p.steps.length - 1

/-- What a blank text is plotted as. -/
def blank : Plot where
  expr := .empty
  simplified := .empty
  markup := ""
  simplifiedMarkup := ""
  steps := [""]
  code := ""
  settled := true
  nodesCount := 1

end Plot

/-- What becomes of a text: a plot or a rejection. -/
structure Outcome where
  text : String
  tokensCount : Nat
  result : Except ParseError Plot

inductive PlotFault where
  | numeric (fault : NumericFault)
  | parse (error : ParseError)
deriving DecidableEq, Repr

def standardNames : List String := FunctionTable.standard.names

def standardReserved : List String := Markup.reservedNames FunctionTable.standard

def simplifyShown (rules : List Rule) (maxSteps : Nat) (e : Expr) : Except NumericFault Trail :=
  settle rules (Markup.render standardReserved) maxSteps e

def plotExpr (options : PlotOptions) (parsed : Expr) : Except NumericFault Plot := do
  let e := if options.completes then complete parsed else parsed
  let markup ← Markup.render standardReserved e
  let trail ←
    if options.simplifies then simplifyShown standardRules options.maxSteps e
    else pure ⟨e, [markup], true⟩
  let code ← Shading.code Shading.standardStyle trail.expr
  return {
    expr := e
    simplified := trail.expr
    markup
    simplifiedMarkup := trail.steps.getLastD markup
    steps := trail.steps
    code
    settled := trail.settled
    nodesCount := trail.expr.count }

def plot (options : PlotOptions) (text : String) : Except PlotFault Outcome := do
  let report ← (parseReport standardNames .standard text).mapError .parse
  let outcome := Outcome.mk text report.tokensCount
  match report.result with
  | .error error => return outcome (.error error)
  | .ok .empty => return outcome (.ok .blank)
  | .ok e =>
    let p ← (plotExpr options e).mapError .numeric
    return outcome (.ok p)

end Locus
