import Locus.Simplify.Rule

/-!
Constant folding: an operator between two literals is evaluated, with exact rationals. An equation
is no operator that can be evaluated.
-/

namespace Locus
set_option autoImplicit false

/-- Powers of an exponent beyond this one are left as they are. -/
def maxFoldedExponent : Nat := 64

/-- A quotient as an integer or as a ratio in lowest terms, unless it is written so already. -/
def foldRatio (left right : Rat) : Option Expr :=
  if right = 0 then none
  else
    let q := left / right
    if q.den = 1 then some (.int q.num)
    else if (q.num : Rat) = left ∧ (q.den : Rat) = right then none
    else some (.intRatio q.num q.den)

/-- A power with an integral exponent. Zero has no negative powers. -/
def foldIntegralPower (base : Rat) (exponent : Int) (exact : Bool) : Option Expr :=
  if maxFoldedExponent < exponent.natAbs ∨ (base = 0 ∧ exponent < 0) then none
  else resultOf (base ^ exponent) exact

/-- A power with a fractional exponent, as the machine computes it. The base must not be negative,
and the result must be finite. -/
def foldFractionalPower (base exponent : Rat) : Option Expr :=
  if base < 0 then none
  else
    match Double.ofRat? base, Double.ofRat? exponent with
    | some x, some y =>
      let result := x.pow y
      if result.isFinite then some (.number (.ofDouble result)) else none
    | _, _ => none

def foldConstants : Rule
  | .binary .equals _ _ => .ok none
  | .binary op (.number a) (.number b) => do
    let left ← a.typedValue
    let right ← b.typedValue
    return match op with
    | .equals => none
    | .plus => resultOf (left + right) false
    | .minus => resultOf (left - right) false
    | .times => resultOf (left * right) false
    | .divide => foldRatio left right
    | .power =>
      if right.den = 1 then foldIntegralPower left right.num a.toInt?.isSome
      else foldFractionalPower left right
  | _ => .ok none

end Locus
