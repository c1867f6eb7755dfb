import Locus.Text.Printable

/-!
Quoted texts. Single quotes enclose a text, or double quotes where only single ones occur in it.
What cannot be printed is escaped by its code point.
-/

namespace Locus
set_option autoImplicit false

def hexDigits (width n : Nat) : List Char :=
  let ds := Nat.toDigits 16 n
  List.replicate (width - ds.length) '0' ++ ds

def quoteMark (s : List Char) : Char :=
  if s.contains (Char.ofNat 0x27) && !s.contains '"' then '"' else Char.ofNat 0x27

def quotedChar (mark c : Char) : List Char :=
  if c == mark || c == '\\' then ['\\', c]
  else if c == '\t' then ['\\', 't']
  else if c == '\n' then ['\\', 'n']
  else if c == '\r' then ['\\', 'r']
  else if isPrintable c then [c]
  else if c.toNat < 0x100 then '\\' :: 'x' :: hexDigits 2 c.toNat
  else if c.toNat < 0x10000 then '\\' :: 'u' :: hexDigits 4 c.toNat
  else '\\' :: 'U' :: hexDigits 8 c.toNat

def quoted (text : String) : String :=
  let s := text.toList
  let mark := quoteMark s
  String.ofList (mark :: s.flatMap (quotedChar mark) ++ [mark])

end Locus
