import Locus.Expr.Basic
import Locus.Token.FunctionTable
import Locus.Token.Lexer

/-!
Display markup of expressions. An exponent is a superscript and a ratio a container of two parts, so
neither needs parentheses inside. Factors are written side by side where that reads back as the same
product: letters that would spell a name are kept apart by a space, and a literal keeps its sign.
-/

namespace Locus
set_option autoImplicit false

namespace Markup

def superscript (text : String) : String := "<sup>" ++ text ++ "</sup>"

def fraction (numerator denominator : String) : String :=
  "<span class=\"ratio\"><span>" ++ numerator ++ "</span><span>" ++ denominator ++ "</span></span>"

/-- Names that adjacent letters must not begin to spell. -/
def reservedNames (functions : FunctionTable) : List String :=
  functions.names.map (fun name => String.ofList (lowerCase name.toList)) ++ constants.map (·.1)

/-! ## Products -/

/-- The factor of a right operand that is printed next to the left one. -/
def leftEnd : Expr → Expr
  | .binary _ l _ => leftEnd l
  | e => e

/-- The factor printed at the right end of a product. -/
def rightEnd : Expr → Expr
  | .binary .times _ r => rightEnd r
  | e => e

/-- Whether two letters side by side begin a reserved name. -/
def spellsName (reserved : List String) (x y : String) : Bool :=
  let pair := lowerCase (x ++ y).toList
  reserved.any fun name => pair.isPrefixOf name.toList

/-- What stands between two factors. -/
def separator (reserved : List String) (left right : Expr) : String :=
  if left.isNumber && right.isNumber then " * "
  else
    match leftEnd right with
    | .call _ _ => " "
    | .var y =>
      match rightEnd left with
      | .var x => if spellsName reserved x y then " " else ""
      | _ => ""
    | _ => " * "

/-! ## Expressions -/

/-- Whether the base of a power is a literal that needs parentheses. -/
def isNegativeNumber : Expr → Bool
  | .number v => v.isNegative
  | _ => false

/-- The markup of an operator, given its operands and their markup without parentheses. -/
def joined (reserved : List String) (op : Operator) (left right : Expr) (l r : String) : String :=
  let parent := Expr.binary op left right
  let l' := parenthesizeIf (left.needsParentheses parent false) l
  let r' := parenthesizeIf (right.needsParentheses parent true) r
  match op with
  | .divide => fraction l r
  | .power => parenthesizeIf (isNegativeNumber left) l' ++ superscript r
  | .times =>
    if left.hasValue (.int (-1)) && !right.isNumber then "-" ++ r'
    else l' ++ separator reserved left right ++ r'
  | .equals | .plus | .minus => l' ++ " " ++ op.symbol ++ " " ++ r'

def render (reserved : List String) : Expr → Except NumericFault String
  | .empty => .ok ""
  | .number v => v.typed
  | .var x => .ok x
  | .call f a => do return f ++ "(" ++ (← render reserved a) ++ ")"
  | .binary op l r => do
    let left ← render reserved l
    let right ← render reserved r
    return joined reserved op l r left right

end Markup
end Locus
