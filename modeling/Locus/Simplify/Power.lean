import Locus.Expr.Commuted
import Locus.Simplify.Rule

/-!
Powers. Factors of a product that have the same base become one power: `a ^ m * a ^ n` is
`a ^ (m + n)`, and a bare factor counts as its own first power.
-/

namespace Locus
set_option autoImplicit false

def splitPower : Expr → Expr × Expr
  | .binary .power base exponent => (base, exponent)
  | e => (e, .int 1)

/-- The sum of two exponents. Literal ones are added, unless the sum lies beyond the doubles. -/
def addExponents (m n : Expr) : Except NumericFault (Option Expr) :=
  match m, n with
  | .number a, .number b => do
    return resultOf ((← a.typedValue) + (← b.typedValue)) false
  | _, _ => .ok (some (.binary .plus m n))

/-- One power for two factors with the same base. Two literals are left to folding. -/
def mergePowers (first second : Expr) : Except NumericFault (Option Expr) :=
  if first.isNumber && second.isNumber then .ok none
  else
    let (base, m) := splitPower first
    let (other, n) := splitPower second
    if base.sameUpToOrder other then do
      return (← addExponents m n).map (.binary .power base)
    else .ok none

/-- Merges a factor into a product on its left, the right factor of which is tried first. -/
def mergeInto (inner outer factor : Expr) : Except NumericFault (Option Expr) := do
  match ← mergePowers outer factor with
  | some merged => return some (.binary .times inner merged)
  | none => return (← mergePowers inner factor).map (.binary .times · outer)

def consolidatePowers : Rule
  | .binary .times left right => do
    match ← mergePowers left right with
    | some merged => return some merged
    | none =>
      match left with
      | .binary .times a b => mergeInto a b right
      | _ => return none
  | _ => .ok none

end Locus
