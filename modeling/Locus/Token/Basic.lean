import Locus.Expr.Basic

/-!
Tokens. A token has a kind, the text that it stands for and the position of its first character.
-/

namespace Locus
set_option autoImplicit false

inductive TokenKind where
  | number
  | function
  | constant
  | letter
  | operator (op : Operator)
  | openParen
  | closeParen
  | unknown
deriving DecidableEq, Repr

namespace TokenKind

def startsOperand : TokenKind → Bool
  | number | function | constant | letter | openParen => true
  | _ => false

def endsOperand : TokenKind → Bool
  | number | constant | letter | closeParen => true
  | _ => false

end TokenKind

structure Token where
  kind : TokenKind
  text : String
  position : Int
deriving DecidableEq, Repr

end Locus
