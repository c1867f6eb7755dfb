import Locus.Token.Basic

/-!
Why tokens do not form an expression. Each error knows its wording and the position it points at.
-/

namespace Locus
set_option autoImplicit false

inductive ParseError where
  | unexpected (text : String) (position : Int)
  | literalTooLarge (length : Nat) (position : Int)
  | missingArgument (name : String) (position : Int)
  | missingOperand (op : Operator) (position : Int)
  | unmatchedClose (position : Int)
  | unmatchedOpen (position : Int)
  | notSingle (count : Nat)
  | undefinedOperator (op : Operator)
  | unnamedVariable
  | unnamedCall
deriving DecidableEq, Repr

namespace ParseError

/-- Whether a parenthesis without a partner is the cause. -/
def isUnbalanced : ParseError → Bool
  | unmatchedClose _ | unmatchedOpen _ => true
  | _ => false

/-- Whether the input is at fault. The other errors come from a table that lacks an operator and
from tokens that no text has. -/
def isRejection : ParseError → Bool
  | undefinedOperator _ | unnamedVariable | unnamedCall => false
  | _ => true

def message : ParseError → String
  | unexpected text _ => "Unexpected character: " ++ text
  | literalTooLarge length _ => "Number literal is too large (" ++ toString length ++ " digits)"
  | missingArgument name _ => "Function " ++ name ++ " is missing its argument"
  | missingOperand op _ => "Operator " ++ op.symbol ++ " is missing an operand"
  | unmatchedClose _ => "Unmatched ')'"
  | unmatchedOpen _ => "Unmatched '(' at end of input"
  | notSingle count => "Expected a single expression, found " ++ toString count
  | undefinedOperator op => "Undefined operator " ++ op.symbol
  | unnamedVariable => "Variable missing name"
  | unnamedCall => "Function call missing function name"

def position? : ParseError → Option Int
  | unexpected _ p | literalTooLarge _ p | missingArgument _ p | missingOperand _ p
  | unmatchedClose p | unmatchedOpen p => some p
  | _ => none

end ParseError
end Locus
