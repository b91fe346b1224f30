import DiceNotation.Binary64

/-!
# DiceNotation.Decimal.Shortest

The shortest decimal of a double: the fewest digits that read back as the same
double, and of those the decimal nearest to it.

The decimals that read back as `m · 2 ^ q` fill an interval around it, up to
half the distance to each neighbouring double (`Neighbourhood`). For one digit,
two digits and so on, the only candidates are the two points of the decimal grid
around the value: if any point of the grid lies in the interval, one of these
two does. All arithmetic is exact, on natural numbers over a common denominator.

* `Scientific`: a decimal, as digits and the power of ten of the last digit;
* `digitCount`: how many decimal digits a number has;
* `pointOf`: the place of the decimal point before the first digit of a quotient;
* `shortest m q`: the shortest decimal of `m · 2 ^ q`.
-/

namespace DiceNotation.Decimal

/-- A decimal: `digits · 10 ^ exponent`. -/
structure Scientific where
  digits : Nat
  exponent : Int
  deriving DecidableEq, Repr

/-- The number of decimal digits of `n`, none for zero. -/
def digitCount (n : Nat) : Nat := if n = 0 then 0 else (Nat.toDigits 10 n).length

/-- The least `point` with `num / den < 10 ^ point`, for positive `num` and `den`: the place of the
decimal point, counted from before the first digit. -/
def pointOf (num den : Nat) : Int :=
  if den ≤ num then digitCount (num / den) else 1 - (digitCount ((den - 1) / num) : Int)

/-- A value and the interval of decimals that read back as it, as numerators
over one denominator. -/
structure Neighbourhood where
  lower : Nat
  value : Nat
  upper : Nat
  /-- Whether the ends of the interval read back too: they do when the mantissa is even. -/
  closed : Bool

namespace Neighbourhood

/-- Whether a numerator lies in the interval. -/
def admits (n : Neighbourhood) (candidate : Nat) : Bool :=
  if n.closed then n.lower ≤ candidate && candidate ≤ n.upper
  else n.lower < candidate && candidate < n.upper

/-- The multiple of `step` nearest to the value among its two neighbours that the interval admits,
as a count of steps; an exact tie goes up. -/
def pick? (n : Neighbourhood) (step : Nat) : Option Nat :=
  let below := n.value / step
  let above := below + 1
  match n.admits (below * step), n.admits (above * step) with
  | true, true => some (if n.value - below * step < above * step - n.value then below else above)
  | true, false => some below
  | false, true => some above
  | false, false => none

end Neighbourhood

/-- The interval of decimals that read back as `m · 2 ^ q`, with numerators over
`4 · 2 ^ (-q) · 10 ^ (-exponent)`. Below a power of two the doubles lie twice as
close, so the lower end is half as far away there. -/
def neighbourhood (m : Nat) (q exponent : Int) : Neighbourhood :=
  let scale := Nat.pow 2 (q - 2).toNat * Nat.pow 10 (-exponent).toNat
  let down := if m = Binary64.fractions ∧ Binary64.leastUnit < q then 1 else 2
  ⟨(4 * m - down) * scale, 4 * m * scale, (4 * m + 2) * scale, m % 2 == 0⟩

/-- The distance of two points of the grid of `10 ^ exponent`, over the same denominator. -/
def gridStep (q exponent : Int) : Nat :=
  Nat.pow 10 exponent.toNat * Nat.pow 2 (2 - q).toNat

/-- The most digits a double needs. -/
def mostDigits : Nat := 17

/-- The decimal of `count` digits nearest to `m · 2 ^ q` among those that read back as it, if any
does; `point` is the place of the value's decimal point. -/
def withDigits? (m : Nat) (q point : Int) (count : Nat) : Option Scientific :=
  let exponent := point - count
  ((neighbourhood m q exponent).pick? (gridStep q exponent)).map (⟨·, exponent⟩)

/-- The shortest decimal of `m · 2 ^ q`, for a positive mantissa `m`. -/
def shortest (m : Nat) (q : Int) : Scientific :=
  let point := pointOf (m * Nat.pow 2 q.toNat) (Nat.pow 2 (-q).toNat)
  ((List.range' 1 mostDigits).findSome? (withDigits? m q point)).getD ⟨m, q⟩

end DiceNotation.Decimal
