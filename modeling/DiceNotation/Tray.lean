import DiceNotation.Number
import DiceNotation.Roller

/-!
# DiceNotation.Tray

The tray that dice are rolled in: a roller, a ceiling on how many dice may be
rolled, and the count of those that were.

* `Tray.charge`: counts dice, and refuses them over the ceiling;
* `Tray.roll`: rolls dice of a number of sides, both given as numbers;
* `Tray.reset`: begins the count again.

Dice are counted before the roller is asked, so a refused request rolls nothing.
It stays in the count all the same.
-/

namespace DiceNotation

/-- Why dice were not rolled. -/
inductive RollError where
  /-- There would be more dice than the ceiling allows. -/
  | tooManyRolls
  /-- The roller gave no faces. -/
  | noFaces
  deriving DecidableEq, Repr

/-- A roller under a ceiling. -/
structure Tray (σ : Type) where
  /-- The most dice that may be rolled, if there is a limit. -/
  ceiling : Option Nat
  /-- The dice asked for so far. -/
  rolled : Nat := 0
  roller : σ

namespace Tray

variable {σ : Type}

/-- The ceiling unless another is asked for. -/
def defaultCeiling : Nat := 1000

/-- The greatest count; it stays there. -/
def greatestCount : Nat := UInt64.size - 1

/-- Begins the count again. -/
def reset (t : Tray σ) : Tray σ := { t with rolled := 0 }

/-- Counts dice. -/
def count (t : Tray σ) (dice : Nat) : Tray σ :=
  { t with rolled := min (t.rolled + dice) greatestCount }

/-- Whether more dice have been counted than the ceiling allows. -/
def exceeded (t : Tray σ) : Bool :=
  match t.ceiling with
  | some most => most < t.rolled
  | none => false

/-- The integer that a number of dice or sides stands for: it is cut off, and
zero if it has none. -/
def wholeOf (x : Number) : Int := (x.truncate?.getD 0).toInt

/-- The faces of `dice` dice: from the roller if they have sides, and zeros if not. -/
def faces [Roller σ] (t : Tray σ) (dice : Nat) (sides : Int) : List Int64 × Tray σ :=
  if 0 < sides then
    let (faces, roller) := Roller.roll t.roller dice sides.toNat
    (faces, { t with roller })
  else (List.replicate dice 0, t)

/-- Rolls `quantity` dice of `sides` sides. No dice, or fewer, show one zero and
count as one die; dice without sides show a zero each. -/
def roll [Roller σ] (t : Tray σ) (quantity sides : Number) :
    Except RollError (List Int64) × Tray σ :=
  let dice := wholeOf quantity
  let t := t.count (if 0 < dice then dice.toNat else 1)
  if t.exceeded then (.error .tooManyRolls, t)
  else if 0 < dice then
    match t.faces dice.toNat (wholeOf sides) with
    | ([], t) => (.error .noFaces, t)
    | (faces, t) => (.ok faces, t)
  else (.ok [0], t)

@[simp] theorem reset_ceiling (t : Tray σ) : t.reset.ceiling = t.ceiling := rfl
@[simp] theorem reset_rolled (t : Tray σ) : t.reset.rolled = 0 := rfl
@[simp] theorem reset_roller (t : Tray σ) : t.reset.roller = t.roller := rfl
@[simp] theorem count_roller (t : Tray σ) (dice : Nat) : (t.count dice).roller = t.roller := rfl
@[simp] theorem count_ceiling (t : Tray σ) (dice : Nat) : (t.count dice).ceiling = t.ceiling := rfl

end Tray

end DiceNotation
