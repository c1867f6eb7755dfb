/-!
Issues with data given from outside: where in the data each one lies, and what is wrong there.
-/

namespace Locus
set_option autoImplicit false

inductive IssueCause where
  | missing
  | unknownKind
  | notInteger
  | notDouble
  | notText
  | notRecord
  | notTruthValue
  | unreadableInteger
  | unreadableTruthValue
  | fractional
  | notFinite
  | tooSmall
  | tooLarge
  | unknownField
  | inconsistent (messages : List String)
deriving DecidableEq, Repr

structure Issue where
  path : List String
  cause : IssueCause
deriving DecidableEq, Repr

/-- The same issue seen from the record whose field holds the data. -/
def Issue.under (field : String) (issue : Issue) : Issue :=
  { issue with path := field :: issue.path }

end Locus
