import DiceNotation.Binary64

/-!
# DiceNotation.Decimal.Literal

Unsigned decimal literals: digits with at most one point among them and at least one digit. `5.` and
`.5` are literals, a lone point is not.

* `Literal`: the value `digits / 10 ^ places`;
* `Literal.ofChars?`: the literal that a run of characters spells, if it does;
* `Literal.toFloat`: the double nearest to it.
-/

namespace DiceNotation.Decimal

/-- A decimal literal, `digits / 10 ^ places`. -/
structure Literal where
  digits : Nat
  places : Nat
  deriving DecidableEq, Repr

/-- The number that a row of digits spells. -/
def natOfDigits (digits : List Char) : Nat := Nat.ofDigitChars 10 digits 0

/-- The number of a row of digits, if there are any and nothing else. -/
def nat? (cs : List Char) : Option Nat :=
  if !cs.isEmpty && cs.all Char.isDigit then some (natOfDigits cs) else none

namespace Literal

/-- The literal that a run of characters spells. -/
def ofChars? (cs : List Char) : Option Literal :=
  let whole := cs.takeWhile Char.isDigit
  match cs.dropWhile Char.isDigit with
  | [] => if whole.isEmpty then none else some ⟨natOfDigits whole, 0⟩
  | '.' :: fraction =>
    if fraction.all Char.isDigit && !(whole.isEmpty && fraction.isEmpty) then
      some ⟨natOfDigits (whole ++ fraction), fraction.length⟩
    else none
  | _ => none

/-- The double nearest to a literal. -/
def toFloat (l : Literal) : Float := Binary64.ofRatio false l.digits (Nat.pow 10 l.places)

end Literal

end DiceNotation.Decimal
