import Locus.Text.LetterCase

/-!
Equality of characters apart from case. It compares one character with one, so it never changes a
length: `SS` is not `ß`.
-/

namespace Locus
set_option autoImplicit false

/-- Lower case characters that count as equal although they differ: variants of one letter. -/
def letterVariants : List (List Nat) := [
  [0x69, 0x131], [0x73, 0x17F], [0xB5, 0x3BC], [0x345, 0x3B9, 0x1FBE], [0x390, 0x1FD3],
  [0x3B0, 0x1FE3], [0x3B2, 0x3D0], [0x3B5, 0x3F5], [0x3B8, 0x3D1], [0x3BA, 0x3F0], [0x3C0, 0x3D6],
  [0x3C1, 0x3F1], [0x3C2, 0x3C3], [0x3C6, 0x3D5], [0x432, 0x1C80], [0x434, 0x1C81],
  [0x43E, 0x1C82], [0x441, 0x1C83], [0x442, 0x1C84, 0x1C85], [0x44A, 0x1C86], [0x463, 0x1C87],
  [0x1C88, 0xA64B], [0x1E61, 0x1E9B], [0xFB05, 0xFB06]]

def sameLetter (a b : Char) : Bool :=
  let x := lowerChar a
  let y := lowerChar b
  x == y || letterVariants.any fun variants => variants.contains x.toNat && variants.contains y.toNat

def startsWithName : List Char → List Char → Bool
  | [], _ => true
  | _ :: _, [] => false
  | n :: name, c :: text => sameLetter n c && startsWithName name text

end Locus
