import Locus.Simplify.Rule

/-!
Neutral operands and the order of factors. An operand that changes nothing is dropped, and a literal
factor goes to the left.
-/

namespace Locus
set_option autoImplicit false

def Expr.isZero (e : Expr) : Bool := e.hasValue (.int 0)

def Expr.isOne (e : Expr) : Bool := e.hasValue (.int 1)

/-- What is left of an operator when a neutral operand is dropped: `1 * a`, `a * 1`, `a / 1`,
`a + 0`, `0 + a`, `a - 0`, `a ^ 1`. -/
def withoutNeutral? (op : Operator) (left right : Expr) : Option Expr :=
  match op with
  | .equals => none
  | .times => if left.isOne then some right else if right.isOne then some left else none
  | .plus => if right.isZero then some left else if left.isZero then some right else none
  | .minus => if right.isZero then some left else none
  | .divide | .power => if right.isOne then some left else none

def eliminateIdentities : Rule
  | .binary op left right => .ok (withoutNeutral? op left right)
  | _ => .ok none

/-- A literal factor goes to the left: `a * 2` becomes `2 * a`. -/
def orderCoefficients : Rule
  | .binary .times left right =>
    .ok (if right.isNumber && !left.isNumber then some (.binary .times right left) else none)
  | _ => .ok none

end Locus
