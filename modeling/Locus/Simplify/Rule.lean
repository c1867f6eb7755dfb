import Locus.Expr.Basic

/-!
Rules. A rule looks at one expression and gives what takes its place, or nothing where it does not
apply. It fails where it would have to compute with a number that is not finite.
-/

namespace Locus
set_option autoImplicit false

abbrev Rule : Type := Expr → Except NumericFault (Option Expr)

/-- The first rule of a list that applies decides. -/
def applyFirst : List Rule → Rule
  | [], _ => .ok none
  | rule :: rest, e =>
    match rule e with
    | .ok none => applyFirst rest e
    | result => result

/-- The literal of an exact result, or none where it lies beyond the doubles. A result that is no
integer becomes the ratio of two integers if `exact` holds, and the nearest double if not. -/
def resultOf (v : Rat) (exact : Bool) : Option Expr :=
  (Double.ofRat? v).map fun x =>
    if v.den = 1 then .int v.num
    else if exact then .intRatio v.num v.den
    else .number (.double x)

end Locus
