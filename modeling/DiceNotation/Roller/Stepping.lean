import DiceNotation.Roller

/-!
# DiceNotation.Roller.Stepping

A roller without chance: it counts in equal steps on 64-bit words, and shows the
count wrapped into the range of the die.
-/

namespace DiceNotation.Roller

/-- A counter that wraps at 64 bits. -/
structure Stepping where
  next : UInt64
  step : UInt64
  deriving DecidableEq, Repr

namespace Stepping

/-- The counter as a face of a die, and the counter one step on. -/
def face (sides : Nat) (s : Stepping) : Int64 × Stepping :=
  (((s.next - 1) % UInt64.ofNat sides + 1).toInt64, { s with next := s.next + s.step })

instance : Roller Stepping where
  roll s count sides := draws (face sides) count s

end Stepping

end DiceNotation.Roller
