import Locus.Numeric.Literal
import Locus.Text.Quoted

/-!
Data given from outside: options, colours, the context of a source text. A datum keeps what was
written; what it is good for is decided where it is used.
-/

namespace Locus
set_option autoImplicit false

inductive Datum where
  | null
  | bool (b : Bool)
  | number (v : Literal)
  | text (s : String)
  | list (items : List Datum)
  | record (fields : List (String × Datum))

namespace Datum

/-- A number, or a truth value in its place. -/
def literal? : Datum → Option Literal
  | number v => some v
  | bool b => some (.int (if b then 1 else 0))
  | _ => none

/-- Whether a condition holds: nothing, zero and what is empty count as false. -/
def holds : Datum → Bool
  | null => false
  | bool b => b
  | number v => !v.sameValue (.int 0)
  | text s => !s.isEmpty
  | list items => !items.isEmpty
  | record fields => !fields.isEmpty

/-! ## Text -/

mutual

/-- The text of a datum inside another one, where texts are quoted. -/
def inner : Datum → Except NumericFault String
  | null => .ok "None"
  | bool b => .ok (if b then "True" else "False")
  | number (.int n) => intText n
  | number (.double x) => .ok (x.render codeLayout)
  | text s => .ok (quoted s)
  | list items => do
    let texts ← innerItems items
    return "[" ++ String.intercalate ", " texts ++ "]"
  | record fields => do
    let texts ← innerFields fields
    return "\x7b" ++ String.intercalate ", " texts ++ "\x7d"

def innerItems : List Datum → Except NumericFault (List String)
  | [] => .ok []
  | d :: rest => do
    let text ← inner d
    return text :: (← innerItems rest)

def innerFields : List (String × Datum) → Except NumericFault (List String)
  | [] => .ok []
  | (key, d) :: rest => do
    let text ← inner d
    return (quoted key ++ ": " ++ text) :: (← innerFields rest)

end

/-- The text of a datum. A text stands for itself. -/
def display : Datum → Except NumericFault String
  | text s => .ok s
  | d => inner d

end Datum
end Locus
