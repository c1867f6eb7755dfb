import Locus.Expr.Commuted
import Locus.Simplify.Rule

/-!
Ratios. Two ratios joined by `*`, `+` or `-` become one. Equal denominators are kept, and unequal
ones are multiplied out.
-/

namespace Locus
set_option autoImplicit false

def joinRatios (op : Operator) (a b c d : Expr) : Expr :=
  if b.sameUpToOrder d then .binary .divide (.binary op a c) b
  else
    .binary .divide
      (.binary op (.binary .times a d) (.binary .times c b))
      (.binary .times b d)

def distributeRatios : Rule
  | .binary op (.binary .divide a b) (.binary .divide c d) =>
    .ok (match op with
      | .times => some (.binary .divide (.binary .times a c) (.binary .times b d))
      | .plus | .minus => some (joinRatios op a b c d)
      | _ => none)
  | _ => .ok none

end Locus
