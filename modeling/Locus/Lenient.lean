import Locus.Datum
import Locus.Issue

/-!
Lenient reading. Integers and truth values may be given as texts or in place of each other, where
nothing is lost.
-/

namespace Locus
set_option autoImplicit false

namespace Lenient

/-! ## Texts of integers -/

def isAsciiDigit (c : Char) : Bool := '0' ≤ c && c ≤ '9'

/-- What is left of a numeral whose last character so far, a zero or an underscore among zeros, has
been read. That character is kept where nothing follows, and before a point. -/
def afterZeros? (last : Char) : List Char → Option (List Char)
  | [] => some [last]
  | c :: rest =>
    if c = '0' || c = '_' then afterZeros? c rest
    else if isAsciiDigit c || c = '-' then some (c :: rest)
    else if c = '.' then some (last :: c :: rest)
    else none

/-- A numeral without the zeros in front. It begins with a digit or a minus. The zeros may also stand
in front of the minus, but those behind it remain. -/
def dropLeadingZeros? : List Char → Option (List Char)
  | '0' :: rest => afterZeros? '0' rest
  | c :: rest => if isAsciiDigit c || c = '-' then some (c :: rest) else none
  | [] => none

/-- A numeral without a fraction of zeros, of which there is at least one. -/
def dropZeroFraction (s : List Char) : List Char :=
  match s.dropWhile (· ≠ '.') with
  | _ :: '0' :: zeros => if zeros.all (· == '0') then s.takeWhile (· ≠ '.') else s
  | _ => s

def hasDoubleUnderscore : List Char → Bool
  | '_' :: '_' :: _ => true
  | _ :: rest => hasDoubleUnderscore rest
  | [] => false

/-- A numeral without its underscores. They stay where one of them is at an end or next to another
one, and then it is no numeral. -/
def dropUnderscores (s : List Char) : List Char :=
  if s.head? = some '_' || s.getLast? = some '_' || hasDoubleUnderscore s then s
  else s.filter (· ≠ '_')

/-- The numeral in a text, without what does not count: blanks around it, a plus in front, leading
zeros, a fraction of zeros, and underscores. -/
def bareNumeral? (text : String) : Option (List Char) := do
  let s ← match trimWhere Numeral.isPadding text.toList with
    | '+' :: '-' :: _ => none
    | '+' :: rest => some rest
    | s => some s
  return dropUnderscores (dropZeroFraction (← dropLeadingZeros? s))

/-- The integer of a bare numeral. The length of the numeral is limited, and a minus counts. -/
def readNumeral (s : List Char) : Except IssueCause Int :=
  let (negative, body) :=
    match s with
    | '-' :: rest => (true, rest)
    | _ => (false, s)
  let digits := body.takeWhile isAsciiDigit
  let size := digits.length + (if negative then 1 else 0)
  match digits, body.dropWhile isAsciiDigit with
  | [], _ => .error .unreadableInteger
  | ['0'], [] => .ok 0
  | '0' :: _, _ => .error .unreadableInteger
  | _, rest =>
    if Numeral.digitLimit < size then .error .tooLarge
    else if rest.isEmpty then
      .ok (Numeral.applySign negative (digitsValue (digits.filterMap decimalDigit?)))
    else .error .unreadableInteger

/-! ## Integers -/

/-- The integer of a double, which must be a word of sixty-four bits and not the least one. -/
def readWhole (x : Double) : Except IssueCause Int :=
  if x.isFinite then
    match x.toInt? with
    | some n => if n.natAbs < Nat.pow 2 63 then .ok n else .error .tooLarge
    | none => .error .fractional
  else .error .notFinite

def integer : Datum → Except IssueCause Int
  | .bool b => .ok (if b then 1 else 0)
  | .number (.int n) => .ok n
  | .number (.double x) => readWhole x
  | .text s =>
    match bareNumeral? s with
    | some numeral => readNumeral numeral
    | none => .error .unreadableInteger
  | _ => .error .notInteger

/-! ## Truth values -/

def falseWords : List String := ["0", "off", "f", "false", "n", "no"]

def trueWords : List String := ["1", "on", "t", "true", "y", "yes"]

/-- The truth value of an integer. One that is no word of sixty-four bits is of the wrong kind. -/
def readBit (n : Int) : Except IssueCause Bool :=
  if n = 0 then .ok false
  else if n = 1 then .ok true
  else if -Int.pow 2 63 ≤ n ∧ n < Int.pow 2 63 then .error .unreadableTruthValue
  else .error .notTruthValue

def truthValue : Datum → Except IssueCause Bool
  | .bool b => .ok b
  | .number (.int n) => readBit n
  | .number (.double x) =>
    match readWhole x with
    | .ok n => readBit n
    | .error _ => .error .notTruthValue
  | .text s =>
    let word := s.map Char.toLower
    if falseWords.contains word then .ok false
    else if trueWords.contains word then .ok true
    else .error .unreadableTruthValue
  | _ => .error .notTruthValue

end Lenient
end Locus
