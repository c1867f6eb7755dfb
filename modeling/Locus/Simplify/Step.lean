import Locus.Simplify.Fold
import Locus.Simplify.Identity
import Locus.Simplify.Power
import Locus.Simplify.Ratio

/-!
Steps of simplification. One step replaces one subexpression: the first at which a rule applies,
where an expression comes before its parts and the left part before the right.
-/

namespace Locus
set_option autoImplicit false

/-- The rules with their names, in the order in which they are tried. -/
def catalogue : List (String × Rule) := [
  ("constant_folding", foldConstants),
  ("identity_elimination", eliminateIdentities),
  ("ratio_distribution", distributeRatios),
  ("power_consolidation", consolidatePowers),
  ("coefficient_ordering", orderCoefficients)]

def standardRules : List Rule := catalogue.map (·.2)

/-- The expression after one step, or none where no rule applies anywhere. -/
def step (rules : List Rule) : Expr → Except NumericFault (Option Expr)
  | .call f a => do
    match ← applyFirst rules (.call f a) with
    | some e => return some e
    | none => return (← step rules a).map (.call f)
  | .binary op l r => do
    match ← applyFirst rules (.binary op l r) with
    | some e => return some e
    | none =>
      match ← step rules l with
      | some l' => return some (.binary op l' r)
      | none => return (← step rules r).map (.binary op l)
  | e => applyFirst rules e

/-- At most `n` steps, until no rule applies. -/
def simplify (rules : List Rule) : Nat → Expr → Except NumericFault Expr
  | 0, e => .ok e
  | n + 1, e => do
    match ← step rules e with
    | some e' => simplify rules n e'
    | none => return e

/-- The expressions after each of at most `n` steps. -/
def simplifications (rules : List Rule) : Nat → Expr → Except NumericFault (List Expr)
  | 0, _ => .ok []
  | n + 1, e => do
    match ← step rules e with
    | some e' => return e' :: (← simplifications rules n e')
    | none => return []

end Locus
