import Locus.Numeric.Decimal
import Locus.Text.Blank
import Locus.Text.DecimalDigit

/-!
Numerals: the texts that are read as numbers. Blanks may surround a numeral, a sign may precede it,
and single underscores may stand between digits. Digits of all scripts count.
-/

namespace Locus
set_option autoImplicit false

namespace Numeral

/-- The greatest number of digits of an integer that is read or written. Leading zeros count. -/
def digitLimit : Nat := 4300

/-- Blanks around a numeral. The information separators are none. -/
def isPadding (c : Char) : Bool :=
  isBlank c && !(0x1C ≤ c.toNat && c.toNat ≤ 0x1F)

/-- Removes single underscores between digits. Any other underscore spoils the numeral. -/
def joinDigits? : Bool → List Char → Option (List Char)
  | _, [] => some []
  | afterDigit, c :: rest =>
    if c = '_' then
      if afterDigit && (rest.head?).any isDecimalDigit then joinDigits? false rest else none
    else (joinDigits? (isDecimalDigit c) rest).map (c :: ·)

/-- Splits off a sign and tells whether it is a minus. -/
def splitSign : List Char → Bool × List Char
  | '-' :: rest => (true, rest)
  | '+' :: rest => (false, rest)
  | s => (false, s)

def splitDigits (s : List Char) : List Nat × List Char :=
  ((s.takeWhile isDecimalDigit).filterMap decimalDigit?, s.dropWhile isDecimalDigit)

def applySign (negative : Bool) (n : Nat) : Int := if negative then -(n : Int) else n

def integer? (text : List Char) : Option Int := do
  let s ← joinDigits? false (trimWhere isPadding text)
  let (negative, body) := splitSign s
  let (digits, rest) := splitDigits body
  if digits.isEmpty || !rest.isEmpty || digitLimit < digits.length then none
  else some (applySign negative (digitsValue digits))

/-- The exponent that ends a numeral, zero if there is none. -/
def exponent? : List Char → Option Int
  | [] => some 0
  | c :: rest =>
    if c = 'e' || c = 'E' then
      let (negative, body) := splitSign rest
      let (digits, after) := splitDigits body
      if digits.isEmpty || !after.isEmpty then none
      else some (applySign negative (digitsValue digits))
    else none

def splitPoint : List Char → List Char
  | '.' :: rest => rest
  | s => s

/-- The sign and the magnitude of a numeral that may have a point and an exponent. An exponent that
leaves the range of doubles whatever the digits are is cut off there. -/
def decimal? (text : List Char) : Option (Bool × Decimal) := do
  let s ← joinDigits? false (trimWhere isPadding text)
  let (negative, body) := splitSign s
  let (whole, afterWhole) := splitDigits body
  let (fraction, afterFraction) := splitDigits (splitPoint afterWhole)
  let exponent ← exponent? (if afterWhole.head? = some '.' then afterFraction else afterWhole)
  let digits := if afterWhole.head? = some '.' then whole ++ fraction else whole
  let bound : Int := (digits.length : Int) + 400
  if digits.isEmpty then none
  else
    some (negative, ⟨digitsValue digits,
      max (-bound) (min bound exponent) - ((digits.length : Int) - whole.length)⟩)

end Numeral

namespace Double

/-- The double of a sign nearest to a magnitude; beyond the greatest one, infinity. -/
def nearest (negative : Bool) (v : Rat) : Double :=
  (ofMagnitude? negative v).getD (infinite negative)

/-- The double of a numeral, or of the words for what is not finite. -/
def ofText? (text : List Char) : Option Double :=
  match Numeral.decimal? text with
  | some (negative, d) => some (nearest negative d.toRat)
  | none =>
    let (negative, word) := Numeral.splitSign (trimWhere Numeral.isPadding text)
    match String.ofList word with
    | "inf" => some (infinite negative)
    | "nan" => some nan
    | _ => none

end Double
end Locus
