/-!
Sets of characters, given by the code points at which membership changes. The tables of the modules
beside this one are those of Unicode 14.
-/

namespace Locus
set_option autoImplicit false

/-- A set of characters. The code points at which membership changes ascend; the first enters the
set. -/
structure CharSet where
  changes : List Nat

namespace CharSet

/-- Membership of `n` when `inside` tells whether the numbers before the first change are members. -/
def memberFrom (n : Nat) : Bool → List Nat → Bool
  | inside, [] => inside
  | inside, change :: rest => if n < change then inside else memberFrom n (!inside) rest

def contains (s : CharSet) (c : Char) : Bool := memberFrom c.toNat false s.changes

end CharSet
end Locus
