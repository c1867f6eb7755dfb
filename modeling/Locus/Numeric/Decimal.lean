import Locus.Numeric.Double

/-!
Decimal texts of doubles. A double is written with the fewest decimal digits that read back to it;
of two such texts of that length the nearer one is taken, and the even one at a tie. Reading back is
the rounding of `Locus.Numeric.Double` itself.
-/

namespace Locus
set_option autoImplicit false

/-! ## Decimals -/

/-- A nonnegative decimal, an integer counting a power of ten. -/
structure Decimal where
  digits : Nat
  exponent : Int
deriving DecidableEq, Repr

namespace Decimal

def toRat (d : Decimal) : Rat := (d.digits : Rat) * (10 : Rat) ^ d.exponent

/-- The same value without trailing zeros among the digits. -/
def trim (d : Decimal) : Decimal :=
  if h : d.digits ≠ 0 ∧ d.digits % 10 = 0 then
    trim ⟨d.digits / 10, d.exponent + 1⟩
  else d
termination_by d.digits
decreasing_by omega

end Decimal

def decimalDigits (n : Nat) : List Char := Nat.toDigits 10 n

/-- The least `k` such that a positive rational is below `10 ^ k`. -/
def decimalExponent (v : Rat) : Int :=
  let k : Int := ((decimalDigits v.num.natAbs).length : Int) - ((decimalDigits v.den).length : Int)
  if v < (10 : Rat) ^ k then k else k + 1

/-! ## The fewest digits -/

namespace Double

def readsBack (rank : Nat) (d : Decimal) : Bool :=
  nearestRank d.toRat == rank

/-- Of two neighbours on a decimal grid the one nearer to `v`, the even one at a tie. -/
def nearer (v : Rat) (low high : Decimal) : Decimal :=
  let sum := low.toRat + high.toRat
  if 2 * v < sum then low
  else if sum < 2 * v then high
  else if low.digits % 2 = 0 then low else high

/-- The decimal with `n` digits that reads back to the rank, if there is one. If any point of the
grid does, so does one of the two neighbours of the value. -/
def decimalOfLength? (rank n : Nat) : Option Decimal :=
  let v := magnitude rank
  let e := decimalExponent v - (n : Int)
  let low : Decimal := ⟨(v / (10 : Rat) ^ e).floor.toNat, e⟩
  let high : Decimal := ⟨low.digits + 1, e⟩
  match readsBack rank low, readsBack rank high with
  | true, true => some (nearer v low high)
  | true, false => some low
  | false, true => some high
  | false, false => none

def exactDecimal (rank : Nat) : Decimal :=
  let q := scale rank
  if 0 ≤ q then ⟨significand rank * Nat.pow 2 q.toNat, 0⟩
  else ⟨significand rank * Nat.pow 5 (-q).toNat, q⟩

/-- The shortest decimal that reads back to the rank. Seventeen digits always suffice; the exact
decimal stands behind the search all the same. -/
def shortest (rank : Nat) : Decimal :=
  if rank = 0 then ⟨0, 0⟩
  else
    (((List.range' 1 17).findSome? (decimalOfLength? rank)).getD (exactDecimal rank)).trim

/-- The value of the shortest decimal: the number that was typed, rather than its binary neighbour. -/
def typedValue? : Double → Option Rat
  | finite negative rank => some (signed negative (shortest rank).toRat)
  | _ => none

end Double

/-! ## Layout -/

/-- Where a decimal is written positionally, by the exponent of its leading digit, and how wide an
exponent is at least. -/
structure DecimalLayout where
  positionalFrom : Int
  positionalBelow : Int
  exponentWidth : Nat

namespace Decimal

/-- Written out with a point and at least one digit on either side of it. -/
def positional (d : Decimal) : String :=
  let ds := decimalDigits d.digits
  if 0 ≤ d.exponent then
    String.ofList (ds ++ List.replicate d.exponent.toNat '0' ++ ['.', '0'])
  else
    let places := (-d.exponent).toNat
    if places < ds.length then
      String.ofList (ds.take (ds.length - places) ++ '.' :: ds.drop (ds.length - places))
    else
      String.ofList ('0' :: '.' :: List.replicate (places - ds.length) '0' ++ ds)

def leadingExponent (d : Decimal) : Int :=
  d.exponent + ((decimalDigits d.digits).length : Int) - 1

/-- One digit before the point, and a signed exponent. -/
def scientific (width : Nat) (d : Decimal) : String :=
  let e := d.leadingExponent
  let size := decimalDigits e.natAbs
  let fraction := (decimalDigits d.digits).drop 1
  String.ofList
    ((decimalDigits d.digits).take 1
      ++ (if fraction.isEmpty then [] else '.' :: fraction)
      ++ ['e', if e < 0 then '-' else '+']
      ++ List.replicate (width - size.length) '0' ++ size)

def render (layout : DecimalLayout) (d : Decimal) : String :=
  let e := d.leadingExponent
  if d.digits = 0 ∨ (layout.positionalFrom ≤ e ∧ e < layout.positionalBelow) then d.positional
  else d.scientific layout.exponentWidth

end Decimal

def Double.render (layout : DecimalLayout) : Double → String
  | .nan => "nan"
  | .infinite negative => if negative then "-inf" else "inf"
  | .finite negative rank =>
    (if negative then "-" else "") ++ (shortest rank).render layout

end Locus
