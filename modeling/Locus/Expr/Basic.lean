import Locus.Numeric.Literal

/-!
Expressions: numbers, variables, function calls and the six operators, of which `=` makes an
equation. Operators have fixed precedences, which decide where a text of an expression needs
parentheses.
-/

namespace Locus
set_option autoImplicit false

/-! ## Operators -/

inductive Operator where
  | equals
  | plus
  | minus
  | times
  | divide
  | power
deriving DecidableEq, Repr

namespace Operator

def symbol : Operator → String
  | equals => "="
  | plus => "+"
  | minus => "-"
  | times => "*"
  | divide => "/"
  | power => "^"

def all : List Operator := [equals, plus, minus, times, divide, power]

def ofSymbol? (s : String) : Option Operator := all.find? (·.symbol == s)

/-- Binding strength. A higher one binds tighter. -/
def precedence : Operator → Nat
  | equals => 0
  | plus | minus => 2
  | times | divide => 3
  | power => 5

def isSymmetric : Operator → Bool
  | plus | times | equals => true
  | _ => false

/-- Whether an operand needs parentheses: it binds less tightly, or equally on the side to which the
outer operator does not group. Only `^` groups to the right, and its exponent is set apart. -/
def wraps (inner outer : Operator) (onRight : Bool) : Bool :=
  if outer = power then !onRight && decide (inner.precedence ≤ outer.precedence)
  else if onRight then decide (inner.precedence ≤ outer.precedence)
  else decide (inner.precedence < outer.precedence)

end Operator

/-! ## Expressions -/

inductive Expr where
  | empty
  | number (v : Literal)
  | var (name : String)
  | call (name : String) (argument : Expr)
  | binary (op : Operator) (left right : Expr)
deriving DecidableEq, Repr

namespace Expr

def int (n : Int) : Expr := number (.int n)

def intRatio (numerator denominator : Int) : Expr :=
  binary .divide (int numerator) (int denominator)

def isNumber : Expr → Bool
  | number _ => true
  | _ => false

def hasValue (v : Literal) : Expr → Bool
  | number w => w.sameValue v
  | _ => false

def operator? : Expr → Option Operator
  | binary op _ _ => some op
  | _ => none

def isOperator (op : Operator) (e : Expr) : Bool := e.operator? == some op

/-! ## Measures -/

def count : Expr → Nat
  | call _ a => a.count + 1
  | binary _ l r => l.count + r.count + 1
  | _ => 1

def depth : Expr → Nat
  | call _ a => a.depth + 1
  | binary _ l r => max l.depth r.depth + 1
  | _ => 1

/-- The variables in the order in which they occur. -/
def variableNames : Expr → List String
  | var x => [x]
  | call _ a => a.variableNames
  | binary _ l r => l.variableNames ++ r.variableNames
  | _ => []

/-! ## Parentheses -/

def needsParentheses (child parent : Expr) (onRight : Bool) : Bool :=
  match child.operator?, parent.operator? with
  | some inner, some outer => inner.wraps outer onRight
  | _, _ => false

end Expr

/-- A text in parentheses where the condition asks for them. -/
def parenthesizeIf (condition : Bool) (text : String) : String :=
  if condition then "(" ++ text ++ ")" else text

end Locus
