import DiceNotation.Rounding

/-!
# DiceNotation.Binary64

Doubles as exact numbers. A finite double is a sign and `mantissa · 2 ^ exponent`, and everything
the library needs from one beyond the four operations is exact arithmetic on those parts:

* `ExactFloat` and `Binary64.exact`: the parts, read off the bits;
* `Binary64.truncate`, `Binary64.isWhole`: the part before the point, and
  whether it is all there is;
* `Binary64.ofRatio`: the double nearest to a quotient of natural numbers, ties
  to the even mantissa;
* `Binary64.ofInt`: the double nearest to an integer.

`ofRatio` builds the bits as `(unit + 1074) · 2 ^ 52 + mantissa`, where
`2 ^ unit` is the spacing of the doubles around the value. A mantissa that rounds
up to `2 ^ 53` carries into the exponent, a subnormal one has no implicit bit to
carry, and an overflow runs into the bits of infinity, so no case is special.
-/

namespace DiceNotation

/-- A finite double as an exact number: `mantissa · 2 ^ exponent` with a sign. -/
structure ExactFloat where
  negative : Bool
  mantissa : Nat
  exponent : Int
  deriving DecidableEq, Repr

namespace ExactFloat

/-- The magnitude is the quotient `num / den`. -/
def num (x : ExactFloat) : Nat := x.mantissa * Nat.pow 2 x.exponent.toNat

/-- The magnitude is the quotient `num / den`, and `den` is a power of two. -/
def den (x : ExactFloat) : Nat := Nat.pow 2 (-x.exponent).toNat

/-- An integer of the given magnitude with the sign of `x`. -/
def withSign (x : ExactFloat) (magnitude : Nat) : Int :=
  if x.negative then -(magnitude : Int) else magnitude

end ExactFloat

namespace Binary64

/-- The exponent of the smallest spacing between doubles. -/
def leastUnit : Int := -1074

/-- The number of fractions that a mantissa can have, two to the power 52: the place of the exponent
among the bits, and the least mantissa of a double that is not subnormal. -/
def fractions : Nat := 0x10000000000000

/-- The number of exponents, two to the power 11. -/
def exponents : Nat := 0x800

/-- The bit of the sign, two to the power 63. -/
def signBit : Nat := 0x8000000000000000

/-- The bits of positive infinity. -/
def infinityBits : Nat := 0x7FF0000000000000

/-- The exact value of a finite double; on other doubles the answer has no meaning. -/
def exact (x : Float) : ExactFloat :=
  let bits := x.toBits.toNat
  let fraction := bits % fractions
  let biased := bits / fractions % exponents
  let negative := signBit ≤ bits
  if biased = 0 then ⟨negative, fraction, leastUnit⟩
  else ⟨negative, fractions + fraction, leastUnit + (biased - 1 : Nat)⟩

/-- The integer part of a finite double: its fraction is cut off. -/
def truncate (x : Float) : Int :=
  let e := exact x
  e.withSign (e.num / e.den)

/-- Whether a finite double has no fraction. -/
def isWhole (x : Float) : Bool :=
  let e := exact x
  e.num % e.den == 0

/-- The exponent of the largest power of two not above `num / den`, for positive `num` and `den`. -/
def floorLog2 (num den : Nat) : Int :=
  let guess : Int := (num.log2 : Int) - den.log2
  if num * Nat.pow 2 (-guess).toNat < den * Nat.pow 2 guess.toNat then guess - 1 else guess

/-- The spacing of the doubles around `num / den`, as an exponent of two. -/
def unitOf (num den : Nat) : Int := max (floorLog2 num den - 52) leastUnit

/-- The bits of the double nearest to `num / den`, a half going to the even mantissa. -/
def magnitudeBits (num den : Nat) : Nat :=
  if num = 0 then 0
  else
    let unit := unitOf num den
    let mantissa := roundDiv .even (num * Nat.pow 2 (-unit).toNat) (den * Nat.pow 2 unit.toNat)
    min ((unit - leastUnit).toNat * fractions + mantissa) infinityBits

/-- The double nearest to `num / den` with the given sign, a half going to the even mantissa. -/
def ofRatio (negative : Bool) (num den : Nat) : Float :=
  Float.ofBits (UInt64.ofNat (magnitudeBits num den + if negative then signBit else 0))

/-- The double nearest to an integer. -/
def ofInt (n : Int) : Float := ofRatio (n < 0) n.natAbs 1

end Binary64

end DiceNotation
