import DiceNotation.Number.Text

/-!
# DiceNotation.RollRecord

What one dice operator rolled: the sides it was given, as evaluated and before they were cut off to
an integer, and the faces that came up. The sum of the faces is the value of the operator.
-/

namespace DiceNotation

/-- One roll of a dice operator. -/
structure RollRecord where
  sides : Number
  faces : List Int64
  deriving DecidableEq

namespace RollRecord

/-- The sum of the faces, the value of the dice operator. -/
def sum (r : RollRecord) : Number := Number.sum (r.faces.map Number.int)

/-- The text of a record, such as `3d6 (2, 5, 6) = 13`: the number of faces, the
sides, the faces and their sum. -/
def toText (r : RollRecord) : String :=
  let faces := ", ".intercalate (r.faces.map fun face => toString face.toInt)
  toString r.faces.length ++ "d" ++ r.sides.toText ++ " (" ++ faces ++ ") = " ++ r.sum.toText

instance : ToString RollRecord := ⟨toText⟩

end RollRecord

end DiceNotation
