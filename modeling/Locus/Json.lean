import Locus.Datum

/-!
Data as JSON text, one element or field a line. Texts keep their characters apart from quotes,
backslashes and controls.
-/

namespace Locus
set_option autoImplicit false

namespace Json

/-! ## Texts -/

def escapedChar (c : Char) : List Char :=
  if c == '"' || c == '\\' then ['\\', c]
  else if c == '\n' then ['\\', 'n']
  else if c == '\r' then ['\\', 'r']
  else if c == '\t' then ['\\', 't']
  else if c.toNat = 8 then ['\\', 'b']
  else if c.toNat = 12 then ['\\', 'f']
  else if c.toNat < 0x20 then
    ['\\', 'u', '0', '0', Nat.digitChar (c.toNat / 16), Nat.digitChar (c.toNat % 16)]
  else [c]

def quotedText (s : String) : String :=
  String.ofList ('"' :: s.toList.flatMap escapedChar ++ ['"'])

/-! ## Numbers -/

/-- Decimals in JSON: positional from `0.00001` up to sixteen digits, and then a signed exponent. -/
def layout : DecimalLayout := ⟨-5, 16, 1⟩

/-- What is not finite has no numeral. -/
def numberText : Literal → String
  | .int n => String.ofList (intDigits n)
  | .double x => if x.isFinite then x.render layout else "null"

/-! ## Values -/

def indentation (depth : Nat) : String := String.ofList (List.replicate (2 * depth) ' ')

/-- Lines between brackets, which stay together if there are none. -/
def block (opening closing : String) (depth : Nat) (lines : List String) : String :=
  if lines.isEmpty then opening ++ closing
  else
    let inner := indentation (depth + 1)
    opening ++ "\n" ++ String.intercalate ",\n" (lines.map (inner ++ ·)) ++ "\n"
      ++ indentation depth ++ closing

mutual

/-- The JSON text of a datum at a depth of nesting. -/
def textAt (depth : Nat) : Datum → String
  | .null => "null"
  | .bool b => if b then "true" else "false"
  | .number v => numberText v
  | .text s => quotedText s
  | .list items => block "[" "]" depth (itemTexts (depth + 1) items)
  | .record fields => block "\x7b" "\x7d" depth (fieldTexts (depth + 1) fields)

def itemTexts (depth : Nat) : List Datum → List String
  | [] => []
  | d :: rest => textAt depth d :: itemTexts depth rest

def fieldTexts (depth : Nat) : List (String × Datum) → List String
  | [] => []
  | (name, d) :: rest =>
    (quotedText name ++ ": " ++ textAt depth d) :: fieldTexts depth rest

end

def text (d : Datum) : String := textAt 0 d

end Json
end Locus
