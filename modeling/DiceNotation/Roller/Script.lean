import DiceNotation.Roller

/-!
# DiceNotation.Roller.Script

A roller that hands out given faces in order, whatever the die. When they run
out it gives fewer faces than it was asked for.
-/

namespace DiceNotation.Roller

/-- The faces that are left to hand out. -/
structure Script where
  faces : List Int64
  deriving DecidableEq, Repr

namespace Script

instance : Roller Script where
  roll s count _ := (s.faces.take count, ⟨s.faces.drop count⟩)

@[simp] theorem roll_eq (s : Script) (count sides : Nat) :
    Roller.roll s count sides = (s.faces.take count, ⟨s.faces.drop count⟩) := rfl

end Script

end DiceNotation.Roller
