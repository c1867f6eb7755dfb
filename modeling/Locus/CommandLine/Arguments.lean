import Locus.Numeric.Numeral
import Locus.Plot.Options

/-!
Arguments of the command line. An argument is taken for an operand or for a switch before any of them
takes effect. A long switch may be cut short where only one begins so, and letters may be joined.
Switches take effect from left to right.
-/

namespace Locus
set_option autoImplicit false

namespace CommandLine

/-! ## Switches -/

inductive Flag where
  | help
  | noSimplify
  | noAutoComplete
  | json
  | verbose
deriving DecidableEq, Repr

inductive Setting where
  | maxSteps
  | shader
deriving DecidableEq, Repr

inductive Switch where
  | flag (f : Flag)
  | setting (s : Setting)
deriving DecidableEq, Repr

def longNames : List (String × Switch) := [
  ("--help", .flag .help),
  ("--max-iterations", .setting .maxSteps),
  ("--no-simplify", .flag .noSimplify),
  ("--no-auto-complete", .flag .noAutoComplete),
  ("--shader", .setting .shader),
  ("--json", .flag .json),
  ("--verbose", .flag .verbose)]

def letters : List (Char × Flag) := [('h', .help), ('v', .verbose)]

/-! ## Arguments -/

inductive Argument where
  | operand (text : String)
  | separator
  | flags (fs : List Flag)
  | setting (s : Setting) (value : Option String)
  | unknown
  | malformed
deriving DecidableEq, Repr

namespace Argument

/-- Whether a text is a negative numeral without an exponent. A line end may follow. -/
def isNegativeNumeral : List Char → Bool
  | '-' :: s =>
    let body := if s.getLast? = some '\n' then s.dropLast else s
    let whole := body.takeWhile isDecimalDigit
    match body.dropWhile isDecimalDigit with
    | [] => !whole.isEmpty
    | '.' :: fraction => !fraction.isEmpty && fraction.all isDecimalDigit
    | _ => false
  | _ => false

/-- An argument that begins like a switch and is none. -/
def ofOther (text : String) : Argument :=
  if isNegativeNumeral text.toList || text.contains ' ' then .operand text else .unknown

/-- A switch with what was written after it behind `=`. A flag takes no value. -/
def ofSwitch : Switch → Option String → Argument
  | .flag f, none => .flags [f]
  | .flag _, some _ => .malformed
  | .setting s, value => .setting s value

/-- Splits off what stands behind the first `=`. -/
def splitValue (text : String) : String × Option String :=
  match text.toList.dropWhile (· ≠ '=') with
  | [] => (text, none)
  | _ :: value => (String.ofList (text.toList.takeWhile (· ≠ '=')), some (String.ofList value))

/-- An argument with two dashes. It is rejected if it could mean more than one switch. -/
def ofLong? (text : String) : Option Argument :=
  let (name, value) := splitValue text
  match longNames.lookup name with
  | some s => some (ofSwitch s value)
  | none =>
    match longNames.filter fun entry => entry.1.startsWith name with
    | [] => some (ofOther text)
    | [(_, s)] => some (ofSwitch s value)
    | _ => none

/-- A flag together with those of the letters behind it. All of them must have a meaning. -/
def ofLetters (first : Flag) (further : List Char) : Argument :=
  match further.mapM fun c => letters.lookup c with
  | some fs => .flags (first :: fs)
  | none => .malformed

/-- An argument with one dash, given what follows the dash. Behind the first letter there may be a
`=`, but then not without further letters. -/
def ofShort (text : String) (letter : Char) (further : List Char) : Argument :=
  match letters.lookup letter, further with
  | none, _ => ofOther text
  | some _, ['='] => .malformed
  | some f, '=' :: more => ofLetters f more
  | some f, more => ofLetters f more

def ofText? (text : String) : Option Argument :=
  match text.toList with
  | '-' :: '-' :: _ => ofLong? text
  | '-' :: letter :: further => some (ofShort text letter further)
  | _ => some (.operand text)

end Argument

/-- What the arguments are taken for. Behind the first `--` all are operands. -/
def arguments? : List String → Option (List Argument)
  | [] => some []
  | text :: rest =>
    if text = "--" then some (.separator :: rest.map .operand)
    else do
      let argument ← Argument.ofText? text
      return argument :: (← arguments? rest)

/-! ## Requests -/

structure Request where
  expression : String
  options : PlotOptions
  shader : Option String
  json : Bool
deriving DecidableEq, Repr

inductive Invocation where
  | help
  | invalid
  | run (request : Request)
deriving DecidableEq, Repr

/-- What has been asked for so far. `surplus` tells whether an argument was left without a use. -/
structure Draft where
  expression : Option String := none
  maxSteps : Option Int := some PlotOptions.standard.maxSteps
  completes : Bool := PlotOptions.standard.completes
  simplifies : Bool := PlotOptions.standard.simplifies
  shader : Option String := none
  json : Bool := false
  surplus : Bool := false

namespace Draft

def setFlag (d : Draft) : Flag → Draft
  | .noSimplify => { d with simplifies := false }
  | .noAutoComplete => { d with completes := false }
  | .json => { d with json := true }
  | .help | .verbose => d

/-- The first operand is the expression, and there is no use for another one. -/
def addOperand (d : Draft) (text : String) : Draft :=
  match d.expression with
  | none => { d with expression := some text }
  | some _ => { d with surplus := true }

/-- A value of two dashes stands for no value, and an empty path for no shader. -/
def setValue? (d : Draft) : Setting → String → Option Draft
  | .maxSteps, text =>
    if text = "--" then some { d with maxSteps := none }
    else (Numeral.integer? text.toList).map fun n => { d with maxSteps := some n }
  | .shader, text =>
    some { d with shader := if text = "--" || text.isEmpty then none else some text }

/-- The request, if there is an expression, at least one step, and nothing without a use. -/
def finish (d : Draft) : Invocation :=
  match d.expression, d.maxSteps with
  | some expression, some n =>
    if n < 1 || d.surplus then .invalid
    else .run ⟨expression, ⟨n.toNat, d.completes, d.simplifies⟩, d.shader, d.json⟩
  | _, _ => .invalid

end Draft

/-- Takes the arguments in order. A separator next to an operand disappears. A call for help ends
everything, and so does a switch that is not used right. -/
def take (d : Draft) : List Argument → Invocation
  | [] => d.finish
  | .operand text :: .separator :: rest | .separator :: .operand text :: rest
  | .operand text :: rest => take (d.addOperand text) rest
  | .separator :: rest => take { d with surplus := true } rest
  | .flags fs :: rest =>
    if fs.contains .help then .help else take (fs.foldl Draft.setFlag d) rest
  | .setting s (some value) :: rest =>
    match d.setValue? s value with
    | some d => take d rest
    | none => .invalid
  | .setting s none :: .operand value :: rest =>
    match d.setValue? s value with
    | some d => take d rest
    | none => .invalid
  | .setting _ none :: _ => .invalid
  | .unknown :: rest => take { d with surplus := true } rest
  | .malformed :: _ => .invalid

/-- What the command line asks for. -/
def invocation (texts : List String) : Invocation :=
  match arguments? texts with
  | some arguments => take {} arguments
  | none => .invalid

end CommandLine
end Locus
