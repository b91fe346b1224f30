import DiceNotation.Text.CodeRange

/-!
# DiceNotation.Text.Blank

The characters with the Unicode property White_Space, and texts of nothing else.
-/

namespace DiceNotation.Text

/-- The code points of white space. -/
def blankRanges : List (Nat × Nat) := [
  (0x0009, 0x000D), (0x0020, 0x0020), (0x0085, 0x0085), (0x00A0, 0x00A0), (0x1680, 0x1680),
  (0x2000, 0x200A), (0x2028, 0x2029), (0x202F, 0x202F), (0x205F, 0x205F), (0x3000, 0x3000)]

/-- Whether a character is white space. -/
def isBlank (c : Char) : Bool := inRanges blankRanges c.toNat

/-- Whether a text has nothing but white space. -/
def allBlank (s : String) : Bool := s.toList.all isBlank

theorem blankRanges_sorted : sortedRanges blankRanges = true := by decide

end DiceNotation.Text
