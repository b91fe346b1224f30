/-!
# DiceNotation.Roller

Where faces come from. An evaluation asks a *roller* for the faces of its dice and works the same
with any of them: true randomness, a seeded generator, or a script for a test.

* `Roller`: a state that can be asked for faces, and moves on;
* `Roller.draws`: many faces from a way to draw one.

`Roller.Stepping`, `Roller.Script` and `Roller.Generator` are rollers.
-/

namespace DiceNotation

/-- A source of faces, as a state that changes with every request. -/
class Roller (σ : Type) where
  /-- The faces of `count` dice of `sides` sides each, `sides` being positive, and the state after
  them. A roller should give exactly `count` faces from `1` to `sides`, but nothing forces it to. -/
  roll : σ → (count sides : Nat) → List Int64 × σ

namespace Roller

variable {σ α : Type}

/-- Draws `count` times and puts what came after what was there, which is kept in reverse. -/
def drawsOnto (draw : σ → α × σ) : Nat → σ → List α → List α × σ
  | 0, state, drawn => (drawn.reverse, state)
  | count + 1, state, drawn =>
    let (x, state) := draw state
    drawsOnto draw count state (x :: drawn)

/-- The outcomes of drawing `count` times, in order. -/
def draws (draw : σ → α × σ) (count : Nat) (state : σ) : List α × σ := drawsOnto draw count state []

theorem length_drawsOnto (draw : σ → α × σ) (count : Nat) (state : σ) (drawn : List α) :
    (drawsOnto draw count state drawn).1.length = drawn.length + count := by
  induction count generalizing state drawn with
  | zero => simp [drawsOnto]
  | succ count ih => simp [drawsOnto, ih]; omega

/-- Drawing `count` times gives `count` outcomes. -/
@[simp] theorem length_draws (draw : σ → α × σ) (count : Nat) (state : σ) :
    (draws draw count state).1.length = count := by
  simp [draws, length_drawsOnto]

/-- States that are drawn from alike have alike outcomes. -/
theorem draws_map {τ : Type} {draw : σ → α × σ} {draw' : τ → α × τ} (f : σ → τ)
    (h : ∀ state, draw' (f state) = ((draw state).1, f (draw state).2)) (count : Nat) (state : σ) :
    draws draw' count (f state) =
      ((draws draw count state).1, f (draws draw count state).2) := by
  suffices ∀ state drawn, drawsOnto draw' count (f state) drawn =
      ((drawsOnto draw count state drawn).1, f (drawsOnto draw count state drawn).2) from
    this state []
  induction count with
  | zero => exact fun _ _ => rfl
  | succ count ih =>
    intro state drawn
    simp only [drawsOnto, h, ih]

end Roller

end DiceNotation
