import Locus.Text.Blank
import Locus.Text.Caseless
import Locus.Text.DecimalDigit
import Locus.Text.Quoted
import Locus.Token.Basic
import Locus.Token.FunctionTable

/-!
Lexing. White space separates lexemes. Function names come first, longest first and apart from case,
then the names of constants, single letters, numerals and signs. A character that begins none of
these is a lexeme of unknown kind.
-/

namespace Locus
set_option autoImplicit false

/-! ## Lexemes -/

/-- What a text begins with. `more` counts the characters after the first one, so a lexeme covers at
least one character. -/
structure Lexeme where
  kind : TokenKind
  text : String
  more : Nat

/-- Names of constants and the letters that they stand for. -/
def constants : List (String × String) := [("theta", "θ"), ("pi", "π")]

/-- The letter of a constant's name, or the name as it was typed. -/
def constantText (name : List Char) : String :=
  (constants.lookup (String.ofList (lowerCase name))).getD (String.ofList name)

def isLetter (c : Char) : Bool :=
  ('A' ≤ c && c ≤ 'Z') || ('a' ≤ c && c ≤ 'z')

def signKind? : Char → Option TokenKind
  | '+' => some (.operator .plus)
  | '-' => some (.operator .minus)
  | '*' => some (.operator .times)
  | '/' => some (.operator .divide)
  | '^' => some (.operator .power)
  | '=' => some (.operator .equals)
  | '(' => some .openParen
  | ')' => some .closeParen
  | _ => none

def digitCount (s : List Char) : Nat := (s.takeWhile isDecimalDigit).length

/-- The length of the numeral that a text begins with: digits, with or without a point and further
digits, or a point and digits. It is zero if there is none. -/
def numeralLength (s : List Char) : Nat :=
  let whole := digitCount s
  match s.drop whole with
  | '.' :: rest =>
    let fraction := digitCount rest
    if whole = 0 && fraction = 0 then 0 else whole + 1 + fraction
  | _ => whole

/-- The first of the names that a text begins with. An empty name is none. -/
def leadingName? (names : List String) (s : List Char) : Option String :=
  names.find? fun name => !name.isEmpty && startsWithName name.toList s

def leadingLexeme (names : List String) (c : Char) (rest : List Char) : Lexeme :=
  let s := c :: rest
  match leadingName? names s with
  | some name => ⟨.function, String.ofList (lowerCase (s.take name.length)), name.length - 1⟩
  | none =>
    match leadingName? (constants.map (·.1)) s with
    | some name => ⟨.constant, constantText (s.take name.length), name.length - 1⟩
    | none =>
      if c = 'θ' || c = 'π' then ⟨.constant, constantText [c], 0⟩
      else if isLetter c then ⟨.letter, String.ofList [c], 0⟩
      else if numeralLength s ≠ 0 then
        ⟨.number, String.ofList (s.take (numeralLength s)), numeralLength s - 1⟩
      else ⟨(signKind? c).getD .unknown, String.ofList [c], 0⟩

/-! ## Texts -/

def tokensFrom (names : List String) (position : Nat) : List Char → List Token
  | [] => []
  | c :: rest =>
    if isBlank c then tokensFrom names (position + 1) rest
    else
      let lexeme := leadingLexeme names c rest
      ⟨lexeme.kind, lexeme.text, position⟩ ::
        tokensFrom names (position + 1 + lexeme.more) (rest.drop lexeme.more)
termination_by s => s.length
decreasing_by
  · simp
  · simp only [List.length_drop, List.length_cons]; omega

def tokenize (names : List String) (text : String) : List Token :=
  tokensFrom names 0 text.toList

def blankMessage (text : String) : String := "No tokens found in input: " ++ quoted text

end Locus
