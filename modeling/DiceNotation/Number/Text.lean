import DiceNotation.Number
import DiceNotation.Decimal.Literal
import DiceNotation.Decimal.Text

/-!
# DiceNotation.Number.Text

Reading and writing numbers.

* `Number.ofLiteral?`: the number a run of digits and points spells, an integer if it can be one;
* `Number.style` and `Number.toText`: integers are written in decimal, doubles
  in the fewest digits that read back.
-/

namespace DiceNotation.Number

/-- The number that a run of digits and points spells: an integer for digits that fit 64 bits, the
nearest double for any other decimal literal. -/
def ofLiteral? (cs : List Char) : Option Number :=
  match Decimal.nat? cs with
  | some n =>
    if Fits n then some (.int (Int64.ofInt n))
    else (Decimal.Literal.ofChars? cs).map fun l => .float l.toFloat
  | none => (Decimal.Literal.ofChars? cs).map fun l => .float l.toFloat

/-- Doubles are written positionally from a ten-thousandth to below ten to the sixteenth. -/
def style : Decimal.Style where
  leastPositional := -4
  greatestPositional := 15
  infinity := "inf"
  notANumber := "NaN"

/-- The text of a double. -/
def floatText (x : Float) : String := style.write x

/-- The text of a number. -/
def toText : Number → String
  | .int n => toString n.toInt
  | .float x => floatText x

instance : ToString Number := ⟨toText⟩

end DiceNotation.Number
