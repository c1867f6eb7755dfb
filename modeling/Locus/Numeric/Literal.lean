import Locus.Numeric.Numeral

/-!
Number literals. A literal is an integer of any size or a double, and keeps which of the two it is.
A double is taken in two ways: comparisons use its exact binary value, arithmetic the decimal that
was typed for it.
-/

namespace Locus
set_option autoImplicit false

inductive Literal where
  | int (n : Int)
  | double (x : Double)
deriving DecidableEq, Repr

inductive NumericFault where
  | notFinite
  | tooManyDigits
  | beyondDouble
deriving DecidableEq, Repr

def NumericFault.message : NumericFault → String
  | notFinite => "The number is not finite"
  | tooManyDigits => "The integer has too many digits"
  | beyondDouble => "The number lies beyond the doubles"

namespace Literal

/-! ## Values -/

def toRat? : Literal → Option Rat
  | int n => some (n : Rat)
  | double x => x.toRat?

/-- Equality of values. An integer is compared exactly, and what is no number equals nothing. -/
def sameValue (a b : Literal) : Bool :=
  match a, b with
  | double (.infinite p), double (.infinite q) => p == q
  | _, _ =>
    match a.toRat?, b.toRat? with
    | some v, some w => v == w
    | _, _ => false

def toInt? : Literal → Option Int
  | int n => some n
  | double x => x.toInt?

def isNegative : Literal → Bool
  | int n => decide (n < 0)
  | double x => x.isNegative

def neg : Literal → Literal
  | int n => int (-n)
  | double x => double x.neg

/-- The number that was typed: for a double the value of its shortest decimal. -/
def typedValue : Literal → Except NumericFault Rat
  | int n => .ok n
  | double x =>
    match x.typedValue? with
    | some v => .ok v
    | none => .error .notFinite

/-- The literal of a double, an integer where the double equals one. -/
def ofDouble (x : Double) : Literal :=
  match x.toInt? with
  | some n => int n
  | none => double x

/-! ## Reading -/

/-- The literal of a numeral: a double if it has a point and an integer if not, but only where a
double can hold it. -/
def ofText? (text : List Char) : Option Literal :=
  if text.contains '.' then
    match Double.ofText? text with
    | some x => if x.isFinite then some (double x) else none
    | none => none
  else
    match Numeral.integer? text with
    | some n => if (Double.ofRat? n).isSome then some (int n) else none
    | none => none

end Literal

/-! ## Writing -/

def intDigits (n : Int) : List Char :=
  if n < 0 then '-' :: decimalDigits n.natAbs else decimalDigits n.natAbs

def intText (n : Int) : Except NumericFault String :=
  if Numeral.digitLimit < (decimalDigits n.natAbs).length then .error .tooManyDigits
  else .ok (String.ofList (intDigits n))

/-- Decimals in code: positional from `0.0001` up to sixteen digits, and then a signed exponent of at
least two digits. -/
def codeLayout : DecimalLayout := ⟨-4, 16, 2⟩

namespace Literal

/-- The text of a literal as it would be typed: never with an exponent, and without a point where it
equals an integer. -/
def typed : Literal → Except NumericFault String
  | int n => intText n
  | double .nan => .ok (Double.nan.render codeLayout)
  | double (.infinite negative) => .ok ((Double.infinite negative).render codeLayout)
  | double (.finite negative rank) =>
    match (Double.finite negative rank).toInt? with
    | some n => intText n
    | none => .ok ((if negative then "-" else "") ++ (Double.shortest rank).positional)

def unwrappedCode : Literal → Except NumericFault String
  | int n =>
    if n.natAbs < Nat.pow 2 1023 then
      .ok ((Double.nearest (decide (n < 0)) (n.natAbs : Rat)).render codeLayout)
    else
      match intText n with
      | .ok text => .ok (text ++ ".0")
      | .error fault => .error fault
  | double x =>
    let text := x.render codeLayout
    .ok (if x.isFinite then text else text ++ ".0")

/-- The text of a literal that always reads as floating point. One below zero is put in
parentheses. -/
def code (v : Literal) : Except NumericFault String :=
  match v.unwrappedCode with
  | .ok text => .ok (if v.isNegative then "(" ++ text ++ ")" else text)
  | .error fault => .error fault

end Literal
end Locus
