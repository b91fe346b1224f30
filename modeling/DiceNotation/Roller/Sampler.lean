import DiceNotation.Roller.Generator

/-!
# DiceNotation.Roller.Sampler

A roller from any source of random numbers. All it needs is a way to draw one number up to a given
one; what a die adds is the number of its sides, as far as a face can show it.

* `Sampler`: a source of random numbers;
* `Roller.Sampled`: a source as a roller;
* `Roller.Sampled.roll_generator`: the generator of this library rolls as it does by itself.
-/

namespace DiceNotation

/-- A source of random numbers, as a state that changes with every number that is drawn. -/
class Sampler (σ : Type) where
  /-- A number drawn from `1` to `high`, and the state after it. -/
  sample : (high : Nat) → σ → Int64 × σ

namespace Roller

/-- A source of random numbers as a roller. -/
structure Sampled (σ : Type) where
  source : σ
  deriving DecidableEq, Repr

namespace Sampled

/-- One face of a die: a number up to its sides, or up to the greatest that a face can be. -/
def face {σ : Type} [Sampler σ] (sides : Nat) (s : Sampled σ) : Int64 × Sampled σ :=
  let drawn := Sampler.sample (min sides Generator.mostSides) s.source
  (drawn.1, ⟨drawn.2⟩)

instance {σ : Type} [Sampler σ] : Roller (Sampled σ) where
  roll s count sides := draws (face sides) count s

end Sampled

/-- To the generator a number up to another is a face of a die. -/
instance : Sampler Generator where
  sample := Generator.face

theorem Sampled.face_generator (sides : Nat) (g : Generator) :
    face sides (⟨g⟩ : Sampled Generator) =
      ((Generator.face sides g).1, ⟨(Generator.face sides g).2⟩) := by
  have hmost : Generator.face (min sides Generator.mostSides) g = Generator.face sides g := by
    unfold Generator.face
    rw [Nat.min_assoc, Nat.min_self]
  rw [← hmost]
  rfl

/-- As a source the generator rolls as it does by itself. -/
theorem Sampled.roll_generator (g : Generator) (count sides : Nat) :
    Roller.roll (⟨g⟩ : Sampled Generator) count sides =
      ((Roller.roll g count sides).1, ⟨(Roller.roll g count sides).2⟩) :=
  draws_map Sampled.mk (face_generator sides) count g

end Roller

end DiceNotation
