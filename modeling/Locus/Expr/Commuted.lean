import Locus.Expr.Basic

/-!
Equality of expressions up to the order of the operands of `+`, `*` and `=`. Numbers are compared by
value, so `2` equals `2.0`.
-/

namespace Locus
set_option autoImplicit false

namespace Expr

def sameUpToOrder : Expr → Expr → Bool
  | empty, empty => true
  | number v, number w => v.sameValue w
  | var x, var y => x == y
  | call f a, call g b => f == g && sameUpToOrder a b
  | binary op a b, binary op' c d =>
    op == op' &&
      ((sameUpToOrder a c && sameUpToOrder b d) ||
        (op.isSymmetric && sameUpToOrder a d && sameUpToOrder b c))
  | _, _ => false

end Expr
end Locus
