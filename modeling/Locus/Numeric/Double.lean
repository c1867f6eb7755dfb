/-!
Binary floating point numbers of sixty-four bits, as exact values. A finite double is a sign and a
rank: the finite doubles of one sign, counted upward from zero. Rounding a rational to the nearest
double is a computation on ranks, and an even rank wins at a midpoint.
-/

namespace Locus
set_option autoImplicit false

/-! ## Rounding to an integer -/

/-- The natural number nearest to a nonnegative rational, the even one at a midpoint. -/
def roundEven (v : Rat) : Nat :=
  let k := v.floor.toNat
  let rest := v - (k : Rat)
  if rest < 1 / 2 then k
  else if 1 / 2 < rest then k + 1
  else k + k % 2

/-- The exponent of the greatest power of two that is at most a positive rational. -/
def binaryExponent (v : Rat) : Int :=
  let e : Int := (v.num.natAbs.log2 : Int) - (v.den.log2 : Int)
  if v < (2 : Rat) ^ e then e - 1 else e

/-! ## The type -/

/-- The number of finite doubles of one sign. A rank from here on stands for an overflow. -/
abbrev Double.rankCount : Nat := 2047 * Nat.pow 2 52

inductive Double where
  | nan
  | infinite (negative : Bool)
  | finite (negative : Bool) (rank : Fin Double.rankCount)
deriving DecidableEq, Repr

namespace Double

/-- The significand of the double of a rank, an integer below `2 ^ 53`. -/
def significand (rank : Nat) : Nat :=
  if rank < Nat.pow 2 52 then rank else Nat.pow 2 52 + rank % Nat.pow 2 52

def scale (rank : Nat) : Int :=
  if rank < Nat.pow 2 52 then -1074 else (rank / Nat.pow 2 52 : Nat) - 1075

def magnitude (rank : Nat) : Rat :=
  (significand rank : Rat) * (2 : Rat) ^ scale rank

/-- The rank nearest to a nonnegative rational. The sum counts the doubles below the binade of `v`
and the steps within it, so a significand that rounds up to the next power of two needs no case. -/
def nearestRank (v : Rat) : Nat :=
  if v = 0 then 0
  else
    let q := max (binaryExponent v - 52) (-1074)
    (q + 1074).toNat * Nat.pow 2 52 + roundEven (v / (2 : Rat) ^ q)

def signed (negative : Bool) (v : Rat) : Rat := if negative then -v else v

/-- The double of a sign nearest to a magnitude, or `none` beyond the greatest one. -/
def ofMagnitude? (negative : Bool) (v : Rat) : Option Double :=
  let r := nearestRank v
  if h : r < rankCount then some (finite negative ⟨r, h⟩) else none

def ofRat? (v : Rat) : Option Double :=
  ofMagnitude? (decide (v < 0)) (if v < 0 then -v else v)

def toRat? : Double → Option Rat
  | finite negative rank => some (signed negative (magnitude rank))
  | _ => none

def zero : Double := finite false ⟨0, by decide⟩

def neg : Double → Double
  | nan => nan
  | infinite negative => infinite (!negative)
  | finite negative rank => finite (!negative) rank

def isFinite : Double → Bool
  | finite _ _ => true
  | _ => false

/-- Below zero. Neither zero is, and nor is what is no number. -/
def isNegative : Double → Bool
  | nan => false
  | infinite negative => negative
  | finite negative rank => negative && rank.val != 0

def toInt? (x : Double) : Option Int :=
  x.toRat?.bind fun v => if v.den = 1 then some v.num else none

/-! ## The machine's representation -/

def toFloat : Double → Float
  | nan => Float.ofBits 0x7FF8000000000000
  | infinite negative => Float.ofBits (if negative then 0xFFF0000000000000 else 0x7FF0000000000000)
  | finite negative rank =>
    Float.ofBits (UInt64.ofNat (if negative then Nat.pow 2 63 + rank.val else rank.val))

def ofFloat (x : Float) : Double :=
  let bits := x.toBits.toNat
  let negative := decide (Nat.pow 2 63 ≤ bits)
  let rank := bits % Nat.pow 2 63
  if h : rank < rankCount then finite negative ⟨rank, h⟩
  else if rank = rankCount then infinite negative
  else nan

/-- The machine's power. Its last digit is the mathematical library's. -/
def pow (x y : Double) : Double := ofFloat (x.toFloat.pow y.toFloat)

end Double
end Locus
