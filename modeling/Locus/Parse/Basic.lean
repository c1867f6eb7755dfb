import Locus.Parse.Error
import Locus.Token.Lexer
import Locus.Token.OperatorTable

/-!
Parsing by precedence. Operands wait on one stack and operators, calls and open parentheses on
another; an operator that binds less tightly than one that waits has it reduced first. Two operands
side by side multiply, and a minus where an operand is due negates what follows.
-/

namespace Locus
set_option autoImplicit false

/-- What waits for its operands. -/
inductive Pending where
  | operator (op : Operator) (precedence : Int) (position : Int)
  | call (name : String) (precedence : Int) (position : Int)
  | group (position : Int)
deriving DecidableEq, Repr

/-- The state between two tokens. Both stacks have their top first. -/
structure ParseState where
  operands : List Expr
  pending : List Pending
  previous : Option TokenKind
  negated : Bool

namespace ParseState

def start : ParseState := ⟨[], [], none, false⟩

end ParseState

/-! ## Reduction -/

/-- Takes the operands of an operator or a call and puts the expression in their place. A group
takes none. -/
def reduce : Pending → List Expr → Except ParseError (List Expr)
  | .call name _ position, operands =>
    match operands with
    | [] => .error (.missingArgument name position)
    | argument :: rest =>
      if name.isEmpty then .error .unnamedCall else .ok (.call name argument :: rest)
  | .operator op _ position, operands =>
    match operands with
    | right :: left :: rest => .ok (.binary op left right :: rest)
    | _ => .error (.missingOperand op position)
  | .group _, operands => .ok operands

/-- Reduces what binds at least as tightly as an operator that comes in. -/
def reduceTighter (incoming : Int) :
    List Pending → List Expr → Except ParseError (List Pending × List Expr)
  | [], operands => .ok ([], operands)
  | top :: below, operands =>
    let stop := .ok (top :: below, operands)
    match top with
    | .group _ => stop
    | .operator _ precedence _ | .call _ precedence _ =>
      if incoming ≤ precedence then do
        reduceTighter incoming below (← reduce top operands)
      else stop

/-- Reduces down to the last open parenthesis, and returns what waits below it. -/
def reduceGroup (position : Int) :
    List Pending → List Expr → Except ParseError (List Pending × List Expr)
  | [], _ => .error (.unmatchedClose position)
  | .group _ :: below, operands => .ok (below, operands)
  | top :: below, operands => do reduceGroup position below (← reduce top operands)

/-- Reduces all that waits when the tokens end. -/
def reduceAll : List Pending → List Expr → Except ParseError (List Expr)
  | [], operands => .ok operands
  | .group position :: _, _ => .error (.unmatchedOpen position)
  | top :: below, operands => do reduceAll below (← reduce top operands)

/-! ## Tokens -/

def pushOperator (table : OperatorTable) (op : Operator) (position : Int) (s : ParseState) :
    Except ParseError ParseState :=
  match table.find? op.symbol with
  | none => .error (.undefinedOperator op)
  | some entry => do
    let (pending, operands) ← reduceTighter entry.incoming s.pending s.operands
    return { s with operands, pending := .operator op entry.precedence position :: pending }

/-- Closes a group. A call in front of it takes the group as its argument at once. -/
def closeGroup (position : Int) (s : ParseState) : Except ParseError ParseState := do
  let (pending, operands) ← reduceGroup position s.pending s.operands
  match pending with
  | .call name precedence p :: below =>
    return { s with operands := ← reduce (.call name precedence p) operands, pending := below }
  | _ => return { s with operands, pending }

/-- Whether a minus in front of these tokens belongs to a literal: a number follows that is not the
base of a power. -/
def negatesLiteral : List Token → Bool
  | number :: next :: _ => number.kind == .number && next.kind != .operator .power
  | [number] => number.kind == .number
  | [] => false

def operandDue (previous : Option TokenKind) : Bool :=
  !previous.any TokenKind.endsOperand

/-- Multiplies where an operand follows an operand. -/
def juxtapose (table : OperatorTable) (token : Token) (s : ParseState) :
    Except ParseError ParseState :=
  if token.kind.startsOperand && s.previous.any TokenKind.endsOperand then
    pushOperator table .times token.position s
  else .ok s

/-- Takes in a token, apart from the product that it may imply. `rest` are the tokens after it. -/
def takeToken (table : OperatorTable) (token : Token) (rest : List Token) (s : ParseState) :
    Except ParseError ParseState :=
  match token.kind with
  | .unknown => .error (.unexpected token.text token.position)
  | .number =>
    match Literal.ofText? token.text.toList with
    | none => .error (.literalTooLarge token.text.length token.position)
    | some v =>
      .ok { s with
        operands := .number (if s.negated then v.neg else v) :: s.operands, negated := false }
  | .letter | .constant =>
    if token.text.isEmpty then .error .unnamedVariable
    else .ok { s with operands := .var token.text :: s.operands }
  | .function =>
    .ok { s with pending := .call token.text table.callPrecedence token.position :: s.pending }
  | .openParen => .ok { s with pending := .group token.position :: s.pending }
  | .closeParen => closeGroup token.position s
  | .operator op =>
    if op = .minus && operandDue s.previous then
      if negatesLiteral rest then .ok { s with negated := true }
      else
        -- `-a` is `-1 * a`, and binds tighter than a product
        .ok { s with
          operands := .int (-1) :: s.operands
          pending := .operator .times table.callPrecedence token.position :: s.pending }
    else pushOperator table op token.position s

def advance (table : OperatorTable) (s : ParseState) (token : Token) (rest : List Token) :
    Except ParseError ParseState := do
  let s ← juxtapose table token s
  let s ← takeToken table token rest s
  return { s with previous := some token.kind }

def advanceAll (table : OperatorTable) : ParseState → List Token → Except ParseError ParseState
  | s, [] => .ok s
  | s, token :: rest => do advanceAll table (← advance table s token rest) rest

def finish (s : ParseState) : Except ParseError Expr := do
  match ← reduceAll s.pending s.operands with
  | [e] => return e
  | operands => throw (.notSingle operands.length)

def parseTokens (table : OperatorTable) (tokens : List Token) : Except ParseError Expr := do
  finish (← advanceAll table .start tokens)

/-! ## Texts -/

/-- The expression of a text. A blank text is the empty expression. -/
def parse (names : List String) (table : OperatorTable) (text : String) :
    Except ParseError Expr :=
  match tokenize names text with
  | [] => .ok .empty
  | tokens => parseTokens table tokens

/-- What becomes of a text: its expression or the error, and how many tokens there are. -/
structure ParseReport where
  text : String
  result : Except ParseError Expr
  tokensCount : Nat

namespace ParseReport

def nodesCount (r : ParseReport) : Nat :=
  match r.result with
  | .ok e => e.count
  | .error _ => 0

end ParseReport

/-- Parses a text and reports a rejection. Errors for which the input is not to blame are not
reported but passed on. -/
def parseReport (names : List String) (table : OperatorTable) (text : String) :
    Except ParseError ParseReport :=
  let report (result : Except ParseError Expr) : ParseReport :=
    ⟨text, result, (tokenize names text).length⟩
  match parse names table text with
  | .ok e => .ok (report (.ok e))
  | .error error =>
    if error.isRejection then .ok (report (.error error)) else .error error

end Locus
