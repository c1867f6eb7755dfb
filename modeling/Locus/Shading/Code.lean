import Locus.Expr.Basic
import Locus.Token.FunctionTable

/-!
Shading code of expressions: one line of floating point arithmetic over `x` and `y`. The shading
language's `pow` takes no negative base, so an integral power up to a limit is written as a product,
and beyond it goes through the absolute value, with the sign restored for an odd exponent. An
equation becomes the difference of its sides, the sign of which is what is plotted.
-/

namespace Locus
set_option autoImplicit false

namespace Shading

/-- What the code depends on: the names of functions and the greatest exponent of a power that is
written as a product. -/
structure CodeStyle where
  functions : FunctionTable
  unrollLimit : Int

/-- Letters that are no identifiers of the shading language. -/
def letterCode : List (String × String) :=
  [("π", "3.141592653589793"), ("θ", "atan(y, x)")]

def callee (functions : FunctionTable) (name : String) : String :=
  match functions.find? name with
  | some entry => entry.code
  | none => name

/-! ## Powers -/

/-- The exponent of a power, if it is an integer literal. It must lie within the doubles. -/
def integralExponent? : Expr → Except NumericFault (Option Int)
  | .number (.int n) =>
    if (Double.ofRat? n).isSome then .ok (some n) else .error .beyondDouble
  | .number (.double x) => .ok x.toInt?
  | _ => .ok none

/-- Whether a power with this exponent is a product or a quotient in code. -/
def exponentUnrolls (limit exponent : Int) : Bool :=
  if exponent < 0 then true
  else if exponent ≤ limit then decide (2 ≤ exponent)
  else exponent % 2 == 1

/-- Whether an expression is a power that is a product or a quotient in code. -/
def isProduct (limit : Int) : Expr → Except NumericFault Bool
  | .binary .power _ exponent => do
    return ((← integralExponent? exponent).map (exponentUnrolls limit)).getD false
  | _ => .ok false

/-- The base of a power as a factor that can be repeated, given its code. -/
def factor (limit : Int) (base : Expr) (code : String) : Except NumericFault String := do
  match base with
  | .binary .power _ _ => return parenthesizeIf (← isProduct limit base) code
  | .binary _ _ _ => return parenthesizeIf true code
  | _ => return code

/-- A power with an exponent that is not negative, given the code of its base. The power of zero
does without its base. -/
def naturalPower (limit : Int) (base : Expr) (exponent : Int)
    (baseCode : Except NumericFault String) : Except NumericFault String := do
  if exponent ≤ limit then
    if exponent = 0 then return "1.0"
    else
      let f ← factor limit base (← baseCode)
      return String.intercalate "*" (List.replicate exponent.toNat f)
  else
    let magnitude := "pow(abs(" ++ (← baseCode) ++ "), "
    if exponent % 2 = 0 then return magnitude ++ (← (Literal.int exponent).code) ++ ")"
    else
      let even ← (Literal.int (exponent - 1)).code
      return magnitude ++ even ++ ") * " ++ (← factor limit base (← baseCode))

/-- A power, given the code of its base and of its exponent. -/
def power (limit : Int) (base exponent : Expr)
    (baseCode exponentCode : Except NumericFault String) : Except NumericFault String := do
  match ← integralExponent? exponent with
  | none => return "pow(abs(" ++ (← baseCode) ++ "), " ++ (← exponentCode) ++ ")"
  | some n =>
    if n < 0 then return "1.0/(" ++ (← naturalPower limit base (-n) baseCode) ++ ")"
    else naturalPower limit base n baseCode

/-! ## Expressions -/

def separator : Operator → String
  | .plus => " + "
  | .times => "*"
  | .divide => "/"
  | .equals | .minus => " - "
  | .power => "^"

/-- An operator other than a power, given its operands and their code. In a denominator also a power
that is a product is grouped. -/
def joined (limit : Int) (op : Operator) (left right : Expr)
    (leftCode rightCode : Except NumericFault String) : Except NumericFault String := do
  let parent := Expr.binary op left right
  let l := parenthesizeIf (left.needsParentheses parent false) (← leftCode)
  let r ← rightCode
  let grouped ←
    if right.needsParentheses parent true then pure true
    else if op = .divide then isProduct limit right
    else pure false
  return l ++ separator op ++ parenthesizeIf grouped r

def code (style : CodeStyle) : Expr → Except NumericFault String
  | .empty => .ok ""
  | .number v => v.code
  | .var x => .ok ((letterCode.lookup x).getD x)
  | .call f a => do return callee style.functions f ++ "(" ++ (← code style a) ++ ")"
  | .binary .power l r => power style.unrollLimit l r (code style l) (code style r)
  | .binary .equals l r => joined style.unrollLimit .minus l r (code style l) (code style r)
  | .binary op l r => joined style.unrollLimit op l r (code style l) (code style r)

def standardUnrollLimit : Int := 6

def standardStyle : CodeStyle := ⟨.standard, standardUnrollLimit⟩

end Shading
end Locus
