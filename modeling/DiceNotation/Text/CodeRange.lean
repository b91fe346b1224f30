/-!
# DiceNotation.Text.CodeRange

Sets of characters as ranges of code points, the form in which the Unicode standard gives them.
-/

namespace DiceNotation.Text

/-- Whether a code point lies in one of the ranges, whose ends belong to them. -/
def inRanges (ranges : List (Nat × Nat)) (code : Nat) : Bool :=
  ranges.any fun (first, last) => first ≤ code && code ≤ last

/-- Whether the ranges are in order and apart. -/
def sortedRanges : List (Nat × Nat) → Bool
  | (first, last) :: (first', last') :: more =>
    first ≤ last && last < first' && sortedRanges ((first', last') :: more)
  | [(first, last)] => first ≤ last
  | [] => true

@[simp] theorem inRanges_nil (code : Nat) : inRanges [] code = false := rfl

end DiceNotation.Text
