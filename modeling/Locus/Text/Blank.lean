import Locus.Text.CharSet

/-!
White space: what separates tokens and surrounds texts. The set is the Unicode property together
with the four information separators.
-/

namespace Locus
set_option autoImplicit false

def blanks : CharSet := ⟨[
   0x9, 0xE, 0x1C, 0x21, 0x85, 0x86, 0xA0, 0xA1, 0x1680, 0x1681, 0x2000, 0x200B, 0x2028, 0x202A,
   0x202F, 0x2030, 0x205F, 0x2060, 0x3000, 0x3001]⟩

def isBlank (c : Char) : Bool := blanks.contains c

/-- Drops the characters of a kind at either end. -/
def trimWhere (p : Char → Bool) (s : List Char) : List Char :=
  ((s.dropWhile p).reverse.dropWhile p).reverse

def trimBlanks (s : List Char) : List Char := trimWhere isBlank s

end Locus
