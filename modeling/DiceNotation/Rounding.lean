/-!
# DiceNotation.Rounding

Rounding an exact quotient to a whole number. Every inexact step of the library (reading a decimal,
keeping three places, printing a double) is one such rounding, so the rule is stated once:

* `Tie` says where an exact half goes;
* `roundDiv tie num den` is the whole number nearest to `num / den`.
-/

namespace DiceNotation

/-- Where a value goes that lies exactly between two neighbours. -/
inductive Tie where
  /-- To the neighbour that is even. -/
  | even
  /-- To the neighbour that is larger. -/
  | up
  deriving DecidableEq, Repr

/-- The whole number nearest to `num / den`; an exact half goes as `tie` says. -/
def roundDiv (tie : Tie) (num den : Nat) : Nat :=
  let below := num / den
  let rest := num % den
  if 2 * rest < den then below
  else if den < 2 * rest then below + 1
  else match tie with
    | .even => below + below % 2
    | .up => below + 1

/-- Rounding moves to one of the two neighbours of the quotient. -/
theorem roundDiv_eq_or (tie : Tie) (num den : Nat) :
    roundDiv tie num den = num / den ∨ roundDiv tie num den = num / den + 1 := by
  unfold roundDiv
  dsimp only
  split
  · exact .inl rfl
  · split
    · exact .inr rfl
    · cases tie
      · dsimp only; omega
      · exact .inr rfl

end DiceNotation
