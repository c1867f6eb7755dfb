import Locus.Datum
import Locus.Issue
import Locus.Expr.Basic

/-!
Nodes: expressions in the form in which they are exchanged, as records of six fields of which each
kind of node uses some. A node may be inconsistent; `ownErrors` lists what is wrong with it, and
`toExpr` reads a node as an expression.
-/

namespace Locus
set_option autoImplicit false

inductive NodeKind where
  | number
  | var
  | function
  | binary
  | ratio
  | empty
deriving DecidableEq, Repr

namespace NodeKind

def name : NodeKind → String
  | number => "number"
  | var => "variable"
  | function => "function"
  | binary => "binary"
  | ratio => "ratio"
  | empty => "empty"

def all : List NodeKind := [number, var, function, binary, ratio, empty]

def ofName? (s : String) : Option NodeKind := all.find? (·.name == s)

end NodeKind

/-- A node, or `absent` where a field holds none. A kind that is not known is `none`. -/
inductive Node where
  | absent
  | present (kind : Option NodeKind) (value : Datum) (operator : Option String)
      (left right argument : Node)

/-! ## Inconsistencies -/

inductive NodeError where
  | numberWithoutValue
  | numberWithChildren
  | variableWithoutName
  | variableWithChildren
  | callWithoutName
  | callWithoutArgument
  | callWithOperands
  | unsupportedOperator (operator : Option String)
  | binaryWithoutOperands
  | ratioOperator
  | ratioWithoutParts
  | emptyWithPayload
  | emptyInside
deriving DecidableEq, Repr

def NodeError.message : NodeError → String
  | numberWithoutValue => "Numeric literal missing numeric value"
  | numberWithChildren => "Numeric literal cannot have children"
  | variableWithoutName => "Variable missing name"
  | variableWithChildren => "Variable cannot have children"
  | callWithoutName => "Function call missing function name"
  | callWithoutArgument => "Function call missing argument"
  | callWithOperands => "Function call takes exactly one operand"
  | unsupportedOperator operator => "Unsupported binary operator: " ++ operator.getD "None"
  | binaryWithoutOperands => "Binary operator missing operands"
  | ratioOperator => "Ratio operator must be '/'"
  | ratioWithoutParts => "Ratio missing numerator or denominator"
  | emptyWithPayload => "Empty node cannot carry a payload"
  | emptyInside => "Empty node is only valid as a tree root"

inductive NodeFault where
  | absentChild
  | undefinedOperator
  | wrongValue
deriving DecidableEq, Repr

def Datum.name? : Datum → Option String
  | text s => if s.isEmpty then none else some s
  | _ => none

namespace Node

def isPresent : Node → Bool
  | absent => false
  | present .. => true

/-- What is wrong with a node, its children apart. -/
def ownErrors : Node → List NodeError
  | absent => []
  | present kind value operator left right argument =>
    let operands := left.isPresent || right.isPresent
    let children := operands || argument.isPresent
    let incomplete := !(left.isPresent && right.isPresent)
    let check (wrong : Bool) (e : NodeError) := if wrong then [e] else []
    match kind with
    | none => []
    | some .number =>
      check (match value with | .number _ => false | _ => true) .numberWithoutValue
        ++ check children .numberWithChildren
    | some .var =>
      check value.name?.isNone .variableWithoutName ++ check children .variableWithChildren
    | some .function =>
      check value.name?.isNone .callWithoutName
        ++ check (!argument.isPresent) .callWithoutArgument
        ++ check operands .callWithOperands
    | some .binary =>
      check (match operator.bind Operator.ofSymbol? with
          | none | some .divide => true
          | some _ => false) (.unsupportedOperator operator)
        ++ check incomplete .binaryWithoutOperands
    | some .ratio =>
      check (operator != some Operator.divide.symbol) .ratioOperator
        ++ check incomplete .ratioWithoutParts
    | some .empty =>
      check ((match value with | .null => false | _ => true) || children) .emptyWithPayload

def isEmpty : Node → Bool
  | present (some .empty) .. => true
  | _ => false

/-- What is wrong with a node that is not the root, and with its descendants. -/
def errorsInside : Node → List NodeError
  | absent => []
  | node@(present _ _ _ left right argument) =>
    node.ownErrors ++ (if node.isEmpty then [.emptyInside] else [])
      ++ left.errorsInside ++ right.errorsInside ++ argument.errorsInside

/-- What is wrong with a tree, from the root down and from left to right. -/
def errors : Node → List NodeError
  | absent => []
  | node@(present _ _ _ left right argument) =>
    node.ownErrors ++ left.errorsInside ++ right.errorsInside ++ argument.errorsInside

/-- A node with nothing wrong in itself. -/
def checked (node : Node) : Except (List Issue) Node :=
  match node.ownErrors with
  | [] => .ok node
  | wrong => .error [⟨[], .inconsistent (wrong.map NodeError.message)⟩]

/-! ## Properties -/

def count : Node → Nat
  | absent => 0
  | present _ _ _ left right argument => left.count + right.count + argument.count + 1

def depth : Node → Nat
  | absent => 0
  | present _ _ _ left right argument => max (max left.depth right.depth) argument.depth + 1

def variableNames : Node → List String
  | absent => []
  | present kind value _ left right argument =>
    (match kind, value with
      | some .var, .text x => [x]
      | _, _ => [])
    ++ left.variableNames ++ right.variableNames ++ argument.variableNames

def isBinary : Node → Bool
  | present (some .binary) .. | present (some .ratio) .. => true
  | _ => false

def isLeaf : Node → Bool
  | present (some .number) .. | present (some .var) .. | present (some .empty) .. => true
  | _ => false

def precedence? : Node → Except NodeFault (Option Nat)
  | node@(present _ _ operator _ _ _) =>
    if node.isBinary then
      match operator.bind Operator.ofSymbol? with
      | some op => .ok (some op.precedence)
      | none => .error .undefinedOperator
    else .ok none
  | absent => .ok none

def sortedVariableNames (node : Node) : List String :=
  node.variableNames.eraseDups.foldr insertName []
where
  insertName (x : String) : List String → List String
    | [] => [x]
    | y :: rest => if x ≤ y then x :: y :: rest else y :: insertName x rest

/-! ## Expressions -/

/-- The expression of a node. A node of unknown kind shows nothing, so it is read as the empty
expression. -/
def toExpr : Node → Except NodeFault Expr
  | absent => .error .absentChild
  | present kind value operator left right argument =>
    match kind with
    | none | some .empty => .ok .empty
    | some .number =>
      match value with
      | .number v => .ok (.number v)
      | _ => .error .wrongValue
    | some .var =>
      match value with
      | .text x => .ok (.var x)
      | _ => .error .wrongValue
    | some .function =>
      match value with
      | .text f => do return .call f (← argument.toExpr)
      | _ => .error .wrongValue
    | some .binary | some .ratio => do
      let l ← left.toExpr
      let r ← right.toExpr
      match operator.bind Operator.ofSymbol? with
      | some op => return .binary op l r
      | none => throw .undefinedOperator

end Node

def Expr.toNode : Expr → Node
  | empty => .present (some .empty) .null none .absent .absent .absent
  | number v => .present (some .number) (.number v) none .absent .absent .absent
  | var x => .present (some .var) (.text x) none .absent .absent .absent
  | call f a => .present (some .function) (.text f) none .absent .absent a.toNode
  | binary op l r =>
    .present (some (if op = .divide then .ratio else .binary)) .null (some op.symbol)
      l.toNode r.toNode .absent

/-! ## Records -/

namespace Node

def fieldNames : List String := ["node_type", "value", "operator", "left", "right", "argument"]

def toDatum : Node → Datum
  | absent => .null
  | present kind value operator left right argument =>
    .record [
      ("node_type", (kind.map fun k => Datum.text k.name).getD .null),
      ("value", value),
      ("operator", (operator.map Datum.text).getD .null),
      ("left", left.toDatum),
      ("right", right.toDatum),
      ("argument", argument.toDatum)]

/-- The value of a node's field: a number, a text or nothing. A truth value counts as a number. -/
def readValue : Option Datum → Except (List Issue) Datum
  | none => .ok .null
  | some (.bool b) => .ok (.number (.int (if b then 1 else 0)))
  | some (.list _) | some (.record _) =>
    .error [⟨["value", "int"], .notInteger⟩, ⟨["value", "float"], .notDouble⟩,
      ⟨["value", "str"], .notText⟩]
  | some d => .ok d

def readKind : Option Datum → Except (List Issue) (Option NodeKind)
  | none => .error [⟨["node_type"], .missing⟩]
  | some (.text s) =>
    match NodeKind.ofName? s with
    | some kind => .ok (some kind)
    | none => .error [⟨["node_type"], .unknownKind⟩]
  | some _ => .error [⟨["node_type"], .unknownKind⟩]

def readOperator : Option Datum → Except (List Issue) (Option String)
  | none | some .null => .ok none
  | some (.text s) => .ok (some s)
  | some _ => .error [⟨["operator"], .notText⟩]

def readChild (field : String) :
    Option (Except (List Issue) Node) → Except (List Issue) Node
  | none => .ok .absent
  | some (.ok node) => .ok node
  | some (.error issues) => .error (issues.map (Issue.under field))

/-- The issues of a part that was not read. -/
def issuesOf {α : Type} : Except (List Issue) α → List Issue
  | .ok _ => []
  | .error issues => issues

/-- A node from the data of its fields and from what they are as nodes. All issues of the fields are
collected; the node as a whole is checked only where there are none. -/
def assemble (fields : List (String × Datum))
    (nodes : List (String × Except (List Issue) Node)) : Except (List Issue) Node :=
  let kind := readKind (fields.lookup "node_type")
  let value := readValue (fields.lookup "value")
  let operator := readOperator (fields.lookup "operator")
  let left := readChild "left" (nodes.lookup "left")
  let right := readChild "right" (nodes.lookup "right")
  let argument := readChild "argument" (nodes.lookup "argument")
  let unknown := (fields.map (·.1)).filter (!fieldNames.contains ·)
  let issues := issuesOf kind ++ issuesOf value ++ issuesOf operator ++ issuesOf left
    ++ issuesOf right ++ issuesOf argument ++ unknown.map (⟨[·], .unknownField⟩)
  match kind, value, operator, left, right, argument, issues with
  | .ok k, .ok v, .ok o, .ok l, .ok r, .ok a, [] => (present k v o l r a).checked
  | _, _, _, _, _, _, _ => .error issues

mutual

/-- The node that a datum describes, or `absent` for none. -/
def ofDatum : Datum → Except (List Issue) Node
  | .null => .ok .absent
  | .record fields => assemble fields (ofFields fields)
  | _ => .error [⟨[], .notRecord⟩]

def ofFields : List (String × Datum) → List (String × Except (List Issue) Node)
  | [] => []
  | (field, d) :: rest => (field, ofDatum d) :: ofFields rest

end

end Node
end Locus
