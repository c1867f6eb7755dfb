import Locus.Markup
import Locus.Simplify.Step

/-!
Trails: simplification with the markup of each step. It stops where no rule applies, where a step
does not show, or after a number of steps.
-/

namespace Locus
set_option autoImplicit false

/-- Where simplification led. `steps` are the texts shown on the way, and `settled` tells whether it
stopped by itself. -/
structure Trail where
  expr : Expr
  steps : List String
  settled : Bool
deriving DecidableEq, Repr

/-- At most `n` further steps from an expression whose text has been shown. -/
def follow (rules : List Rule) (display : Expr → Except NumericFault String) :
    Nat → Expr → String → Except NumericFault Trail
  | 0, e, _ => .ok ⟨e, [], false⟩
  | n + 1, e, shown => do
    match ← step rules e with
    | none => return ⟨e, [], true⟩
    | some e' =>
      let text ← display e'
      if text = shown then return ⟨e', [], true⟩
      else
        let trail ← follow rules display n e' text
        return { trail with steps := text :: trail.steps }

/-- The trail of an expression, which begins with its own text. -/
def settle (rules : List Rule) (display : Expr → Except NumericFault String) (n : Nat) (e : Expr) :
    Except NumericFault Trail := do
  let text ← display e
  let trail ← follow rules display n e text
  return { trail with steps := text :: trail.steps }

end Locus
