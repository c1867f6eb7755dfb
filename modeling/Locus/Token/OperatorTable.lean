import Locus.Expr.Basic

/-!
The binding strengths that parsing goes by. A table keeps one entry per symbol, and the strength
with which a function call binds its argument.
-/

namespace Locus
set_option autoImplicit false

structure OperatorEntry where
  symbol : String
  name : String
  precedence : Int
  associativity : String
  symmetric : Bool
deriving DecidableEq, Repr

/-- The strength against which operators already read are measured. One that groups to the right
yields to an equal one. -/
def OperatorEntry.incoming (e : OperatorEntry) : Int :=
  if e.associativity = "right" then e.precedence + 1 else e.precedence

structure OperatorTable where
  entries : List OperatorEntry
  callPrecedence : Int

namespace OperatorTable

/-- A function call binds between product and power. -/
def standardCallPrecedence : Int := 4

def empty : OperatorTable := ⟨[], standardCallPrecedence⟩

def add (t : OperatorTable) (e : OperatorEntry) : OperatorTable :=
  { t with entries := t.entries.filter (·.symbol != e.symbol) ++ [e] }

def find? (t : OperatorTable) (symbol : String) : Option OperatorEntry :=
  t.entries.find? (·.symbol == symbol)

def contains (t : OperatorTable) (symbol : String) : Bool := (t.find? symbol).isSome

def operatorName : Operator → String
  | .equals => "equals"
  | .plus => "addition"
  | .minus => "subtraction"
  | .times => "multiplication"
  | .divide => "division"
  | .power => "power"

/-- The arithmetic operators and `=`. Only `^` groups to the right. -/
def standard : OperatorTable where
  entries := Operator.all.map fun op =>
    ⟨op.symbol, operatorName op, op.precedence, if op = .power then "right" else "left",
      op.isSymmetric⟩
  callPrecedence := standardCallPrecedence

end OperatorTable
end Locus
