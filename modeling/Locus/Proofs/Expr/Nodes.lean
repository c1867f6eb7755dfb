import Locus.Expr.Basic
import Locus.Token.FunctionTable
import Locus.Token.Lexer

/-! The nodes of an expression. A property of nodes is asked of all of them (`Expr.AllHeads`),
operators apart: that they have the names that notation can spell (`Expr.Named`), or that their
literals lie in some class (`Expr.AllLiterals`). -/

namespace Locus
set_option autoImplicit false

/-- What an expression is apart from its parts. -/
inductive Head where
  | empty
  | number (v : Literal)
  | var (name : String)
  | call (name : String)
  | binary (op : Operator)
deriving DecidableEq, Repr

namespace Expr

def head : Expr → Head
  | empty => .empty
  | number v => .number v
  | var x => .var x
  | call f _ => .call f
  | binary op _ _ => .binary op

/-- All nodes have the property, operators apart. -/
def AllHeads (P : Head → Prop) : Expr → Prop
  | call f a => P (.call f) ∧ a.AllHeads P
  | binary _ l r => l.AllHeads P ∧ r.AllHeads P
  | e => P e.head

end Expr

/-! ## Names -/

/-- The name of a variable: one letter. -/
def IsVariable (x : String) : Prop :=
  ∃ c, (isLetter c ∨ c = 'θ' ∨ c = 'π') ∧ x = String.ofList [c]

/-- A node that notation can spell, literals apart: it is not empty, a variable has the name of one,
and a function is a standard one. -/
def Head.IsNamed : Head → Prop
  | empty => False
  | var x => IsVariable x
  | call f => f ∈ FunctionTable.standard.names
  | _ => True

def Expr.Named (e : Expr) : Prop := e.AllHeads Head.IsNamed

/-! ## Literals -/

def Expr.AllLiterals (p : Literal → Prop) : Expr → Prop
  | .number v => p v
  | .call _ a => a.AllLiterals p
  | .binary _ l r => l.AllLiterals p ∧ r.AllLiterals p
  | _ => True

instance Expr.decidableAllLiterals (p : Literal → Prop) [DecidablePred p] :
    DecidablePred (AllLiterals p)
  | .empty => inferInstanceAs (Decidable True)
  | .number v => inferInstanceAs (Decidable (p v))
  | .var _ => inferInstanceAs (Decidable True)
  | .call _ a => Expr.decidableAllLiterals p a
  | .binary _ l r =>
    have := Expr.decidableAllLiterals p l
    have := Expr.decidableAllLiterals p r
    inferInstanceAs (Decidable (l.AllLiterals p ∧ r.AllLiterals p))

theorem Expr.AllLiterals.mono {p q : Literal → Prop} (hpq : ∀ {v}, p v → q v) {e : Expr}
    (h : e.AllLiterals p) : e.AllLiterals q := by
  induction e with
  | number v => exact hpq h
  | call f a ih => exact ih h
  | binary op l r ihl ihr => exact ⟨ihl h.1, ihr h.2⟩
  | _ => trivial

/-- What `Expr.AllLiterals` asks of a node. -/
def Head.LiteralIs (p : Literal → Prop) : Head → Prop
  | number v => p v
  | _ => True

theorem allLiterals_iff {p : Literal → Prop} {e : Expr} :
    e.AllLiterals p ↔ e.AllHeads (Head.LiteralIs p) := by
  induction e with
  | call f a ih => exact ih.trans (and_iff_right trivial).symm
  | binary op l r ihl ihr => exact and_congr ihl ihr
  | _ => exact Iff.rfl

end Locus
