import DiceNotation.Decimal.Shortest

/-!
# DiceNotation.Decimal.Text

Writing a double in the fewest digits that read back:

* `Style`: where positional notation ends and what the special values are called;
* `positional`, `exponential`: the two ways to place the point among given digits;
* `Style.write`: the text of a double.
-/

namespace DiceNotation.Decimal

/-- How doubles are written. -/
structure Style where
  /-- The least exponent of the first digit that is written positionally. -/
  leastPositional : Int
  /-- The greatest exponent of the first digit that is written positionally. -/
  greatestPositional : Int
  infinity : String
  notANumber : String

/-- The digits of a number without the zeros at its end. -/
def significantDigits (n : Nat) : List Char :=
  ((Nat.toDigits 10 n).reverse.dropWhile (· == '0')).reverse

/-- Digits in positional notation: the point stands `point` places after the start of `digits`, and
there is at least one digit on both of its sides. -/
def positional (digits : List Char) (point : Int) : List Char :=
  if point ≤ 0 then '0' :: '.' :: (List.replicate (-point).toNat '0' ++ digits)
  else
    let before := point.toNat
    if digits.length ≤ before then
      digits ++ List.replicate (before - digits.length) '0' ++ ['.', '0']
    else digits.take before ++ '.' :: digits.drop before

/-- Digits in exponential notation: one digit before the point, no point after a single digit. -/
def exponential (digits : List Char) (exponent : Int) : List Char :=
  let mantissa := match digits with
    | first :: second :: more => first :: '.' :: second :: more
    | short => short
  mantissa ++ 'e' :: (toString exponent).toList

namespace Style

/-- A positive decimal, positional or exponential by the exponent of its first digit. -/
def writeDecimal (style : Style) (d : Scientific) : List Char :=
  let point : Int := (Nat.toDigits 10 d.digits).length + d.exponent
  let digits := significantDigits d.digits
  if style.leastPositional ≤ point - 1 ∧ point - 1 ≤ style.greatestPositional then
    positional digits point
  else exponential digits (point - 1)

/-- The magnitude of a finite double, in the fewest digits that read back. -/
def writeMagnitude (style : Style) (x : ExactFloat) : List Char :=
  if x.mantissa = 0 then positional ['0'] 1
  else style.writeDecimal (shortest x.mantissa x.exponent)

/-- The text of a double. A minus sign stands before every negative value, also before zero; a value
that is not a number has no sign. -/
def write (style : Style) (x : Float) : String :=
  if x.isNaN then style.notANumber
  else
    let e := Binary64.exact x
    let magnitude := if x.isFinite then style.writeMagnitude e else style.infinity.toList
    String.ofList (if e.negative then '-' :: magnitude else magnitude)

end Style

end DiceNotation.Decimal
