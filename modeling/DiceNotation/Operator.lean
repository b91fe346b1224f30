/-!
# DiceNotation.Operator

The operators of the notation and the characters that spell them. Dice are written `d` or `D`, and
the letter that was used is remembered, so that a token can be written back as it stood.
-/

namespace DiceNotation

/-- An operator, each spelt by one character. -/
inductive Operator where
  | add
  | sub
  | mul
  | div
  | pow
  /-- Dice, by an upper-case `D` or a lower-case `d`. -/
  | dice (upper : Bool)
  | leftParen
  | rightParen
  deriving DecidableEq, Repr

namespace Operator

/-- The operator that a character spells. -/
def ofChar? : Char → Option Operator
  | '+' => some .add
  | '-' => some .sub
  | '*' => some .mul
  | '/' => some .div
  | '^' => some .pow
  | 'd' => some (.dice false)
  | 'D' => some (.dice true)
  | '(' => some .leftParen
  | ')' => some .rightParen
  | _ => none

/-- The character that spells an operator. -/
def toChar : Operator → Char
  | .add => '+'
  | .sub => '-'
  | .mul => '*'
  | .div => '/'
  | .pow => '^'
  | .dice false => 'd'
  | .dice true => 'D'
  | .leftParen => '('
  | .rightParen => ')'

@[simp] theorem ofChar?_toChar (op : Operator) : ofChar? op.toChar = some op := by
  cases op with
  | dice upper => cases upper <;> rfl
  | _ => rfl

/-- A character spells at most one operator. -/
theorem toChar_of_ofChar? {c : Char} {op : Operator} (h : ofChar? c = some op) : op.toChar = c := by
  unfold ofChar? at h
  split at h <;> cases h <;> rfl

/-- The text of an operator. -/
def toText (op : Operator) : String := String.singleton op.toChar

instance : ToString Operator := ⟨toText⟩

end Operator

end DiceNotation
