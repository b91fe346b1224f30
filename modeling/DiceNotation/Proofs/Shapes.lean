import DiceNotation.Proofs.Placement
import DiceNotation.Proofs.Quantities
import DiceNotation.Proofs.Throwing
import Mathlib.Algebra.Order.BigOperators.Group.List

/-!
# DiceNotation.Proofs.Shapes

What a record looks like, whichever random numbers were drawn for it (`Tray.evaluate_shapes`).

The faces are those of a throw (`Roller.throw_shaped`), and the throw is of the numbers
that the dice found on the stack, cut off to integers. They are finite there, so they
can be cut off. No face is negative, so the sum of the first faces never passes the sum
of them all: where all of them fit they are added exactly, and where they do not the
sum becomes a double on the way and remains one (`Number.foldl_add_sums`).
-/

namespace DiceNotation

open Tray

/-! ## Sums -/

namespace Number

/-- A number that is the integer `total` if there is such a number, and a double otherwise. -/
structure Sums (x : Number) (total : Int) : Prop where
  exact : Fits total → ∃ n, x = .int n ∧ n.toInt = total
  rounded : ¬ Fits total → ∃ y, x = .float y

/-- A double remains one. -/
theorem foldl_add_float (faces : List Int64) (x : Float) :
    ∃ y, (faces.map int).foldl (· + ·) (float x) = float y := by
  induction faces generalizing x with
  | nil => exact ⟨x, rfl⟩
  | cons face faces ih => exact ih _

/-- Numbers that are not negative are added exactly unless their sum does not fit. -/
theorem foldl_add_sums {faces : List Int64} (h : ∀ face ∈ faces, 0 ≤ face.toInt) {start : Int64}
    (hstart : 0 ≤ start.toInt) :
    ((faces.map int).foldl (· + ·) (int start)).Sums
      (start.toInt + (faces.map Int64.toInt).sum) := by
  induction faces generalizing start with
  | nil =>
    rw [List.map_nil, List.map_nil, List.sum_nil, Int.add_zero]
    have hfits : Fits start.toInt := ⟨Int64.le_toInt start, Int64.toInt_le start⟩
    exact ⟨fun _ => ⟨start, rfl, rfl⟩, fun hout => absurd hfits hout⟩
  | cons face faces ih =>
    obtain ⟨hface, hfaces⟩ := List.forall_mem_cons.1 h
    rw [List.map_cons, List.map_cons, List.foldl_cons, List.sum_cons, ← Int.add_assoc]
    by_cases hfits : Fits (start.toInt + face.toInt)
    · have hsum := toInt_of_fits hfits
      have hrest := ih hfaces (show 0 ≤ (Int64.ofInt (start.toInt + face.toInt)).toInt by omega)
      rw [hsum] at hrest
      rwa [int_add_int, exactOr_of_fits hfits]
    · -- The sum is too great already, and more faces do not make it less.
      have hmore : 0 ≤ (faces.map Int64.toInt).sum :=
        List.sum_nonneg (List.forall_mem_map.2 hfaces)
      have hout : ¬ Fits (start.toInt + face.toInt + (faces.map Int64.toInt).sum) := by
        simp only [Fits, least, greatest] at hfits ⊢
        omega
      rw [int_add_int, exactOr, if_neg hfits]
      exact ⟨fun hfits => absurd hfits hout, fun _ => foldl_add_float faces _⟩

/-- A finite number can be cut off. -/
theorem exists_truncate? {x : Number} (h : x.isFinite = true) : ∃ n, x.truncate? = some n := by
  cases x with
  | int n => exact ⟨n, rfl⟩
  | float x => exact ⟨_, if_pos h⟩

end Number

theorem Tray.wholeOf_of_truncate? {x : Number} {n : Int64} (h : x.truncate? = some n) :
    wholeOf x = n.toInt := by
  rw [wholeOf, h]
  rfl

/-! ## Faces -/

namespace RollRecord

/-- The sum of the faces over the integers. -/
def total (r : RollRecord) : Int := (r.faces.map Int64.toInt).sum

/-- The shape of the record of `quantity` dice of `sides` sides: no dice show one zero, dice without
sides a zero each, and all other dice a face each. -/
structure Shaped (r : RollRecord) (quantity sides : Int) : Prop where
  none : quantity ≤ 0 → r.faces = [0]
  blank : 1 ≤ quantity → sides ≤ 0 → r.faces = List.replicate quantity.toNat 0
  count : 1 ≤ quantity → 1 ≤ sides → r.faces.length = quantity.toNat
  faces : 1 ≤ quantity → 1 ≤ sides → ∀ face ∈ r.faces, 1 ≤ face.toInt ∧ face.toInt ≤ sides
  sum : r.sum.Sums r.total

/-- Faces that are not negative are summed up. -/
theorem sum_sums {r : RollRecord} (h : ∀ face ∈ r.faces, 0 ≤ face.toInt) : r.sum.Sums r.total := by
  have hzero : 0 ≤ (0 : Int64).toInt := Int.le_refl 0
  have hsums := Number.foldl_add_sums h hzero
  rwa [Int64.toInt_zero, Int.zero_add] at hsums

end RollRecord

variable {σ : Type} [Roller σ]

/-- **The record of a throw has the shape of its numbers**, if the roller is honest. -/
theorem Roller.throw_shaped [Roller.Honest σ] (roller : σ) (quantity sides : Number) :
    RollRecord.Shaped ⟨sides, (Roller.throw roller quantity sides).1⟩ (wholeOf quantity)
      (wholeOf sides) := by
  by_cases hasks : Roller.Asks quantity sides
  · obtain ⟨hquantity, hsides⟩ := hasks
    have hcount : diceOf quantity = (wholeOf quantity).toNat := if_pos hquantity
    have hpos : 0 < (wholeOf sides).toNat := Int.lt_toNat.2 hsides
    have hmost : (wholeOf sides).toNat ≤ Number.greatest.toNat :=
      Int.toNat_le_toNat (wholeOf_le sides)
    rw [Roller.throw_of_asks ⟨hquantity, hsides⟩]
    have hfaces : ∀ face ∈ (Roller.roll roller (diceOf quantity) (wholeOf sides).toNat).1,
        1 ≤ face.toInt ∧ face.toInt ≤ wholeOf sides := by
      intro face hface
      have hle := Roller.Honest.face_le roller (diceOf_pos quantity) hpos hmost face hface
      rw [Int.toNat_of_nonneg (Int.le_of_lt hsides)] at hle
      exact ⟨Roller.Honest.one_le_face roller (diceOf_pos quantity) hpos hmost face hface, hle⟩
    refine ⟨fun hnone => absurd hquantity (Int.not_lt.2 hnone),
      fun _ hblank => absurd hsides (Int.not_lt.2 hblank), fun _ _ => ?_, fun _ _ => hfaces, ?_⟩
    · rw [← hcount]
      exact Roller.Exact.length_roll roller (diceOf_pos quantity) hpos
    · exact RollRecord.sum_sums fun face hface => Int.le_trans (by decide) (hfaces face hface).1
  · rw [Roller.throw_of_not_asks hasks]
    refine ⟨fun hnone => ?_, fun hsome _ => ?_, fun hsome hsides => absurd ⟨hsome, hsides⟩ hasks,
      fun hsome hsides => absurd ⟨hsome, hsides⟩ hasks, RollRecord.sum_sums fun face hface => ?_⟩
    · rw [diceOf, if_neg (Int.not_lt.2 hnone)]
      rfl
    · have hcount : diceOf quantity = (wholeOf quantity).toNat := if_pos hsome
      rw [hcount]
    · rw [List.eq_of_mem_replicate hface]
      exact Int.le_refl 0

/-- What a request that is granted shows is a throw. -/
theorem Tray.faces_of_roll [Roller.Exact σ] {tray : Tray σ} {quantity sides : Number}
    {faces : List Int64} (h : (tray.roll quantity sides).1 = .ok faces) :
    faces = (Roller.throw tray.roller quantity sides).1 := by
  by_cases hexceeded : (tray.count (diceOf quantity)).exceeded = true
  · rw [roll_of_exceeded hexceeded] at h
    cases h
  · rw [roll_of_allowed (by simpa using hexceeded)] at h
    cases h
    rfl

/-! ## Evaluating -/

/-- How an expression comes to a roll. Its dice operator finds two numbers on the stack, after some
steps have been taken; the record has the shape of these numbers, cut off to integers, and the
operator leaves the sum of the record in their place. -/
structure RollEvent.Shaped (event : RollEvent) (e : Expression) (tray : Tray σ) (taken : List Step)
    (step : Step) (quantity sides : Number) (below : List Number) : Prop where
  dice : ReadsDice e.tokens event.operator
  action : step.action = .roll event.operator
  next : taken ++ [step] <+: (Program.ofTokens e.tokens).steps
  operands : (Program.ofTokens e.tokens).Reaches tray taken (sides :: quantity :: below)
  one : Prefixed e.tokens event.operator → quantity = .int 1
  recorded : event.record.sides = sides
  shape : ∃ q s, quantity.truncate? = some q ∧ sides.truncate? = some s ∧
    event.record.Shaped q.toInt s.toInt
  value : (Program.runSteps (Program.ofTokens e.tokens).seen (taken ++ [step]) [] tray).result =
    (finite event.record.sum).map (· :: below)

/-- An honest roller makes rolls that have their shapes. -/
theorem Program.shaped_of_mem_rolls [Roller.Honest σ] (e : Expression) (tray : Tray σ)
    {event : RollEvent} (h : event ∈ ((ofTokens e.tokens).run tray).rolls) :
    ∃ taken step quantity sides below, event.Shaped e tray taken step quantity sides below := by
  obtain ⟨taken, step, quantity, sides, below, hnext, hmade⟩ := exists_of_mem_rolls h
  refine ⟨taken, step, quantity, sides, below, ?_⟩
  have hplaced := (placed_ofTokens e.tokens).steps step
    (hnext.subset (List.mem_append_right taken List.mem_cons_self))
  rw [hmade.action] at hplaced
  have hempty : AllFinite [] := List.forall_mem_nil _
  have hfinite :=
    (runSteps_finite (ofTokens e.tokens).seen taken hempty tray).stack _ hmade.operands
  obtain ⟨hsides, hbelow⟩ := allFinite_cons.1 hfinite
  obtain ⟨q, hq⟩ := Number.exists_truncate? (allFinite_cons.1 hbelow).1
  obtain ⟨s, hs⟩ := Number.exists_truncate? hsides
  have hshape := Roller.throw_shaped (runSteps (ofTokens e.tokens).seen taken [] tray).tray.roller
    quantity sides
  rw [← Tray.faces_of_roll hmade.granted, wholeOf_of_truncate? hq, wholeOf_of_truncate? hs,
    ← hmade.recorded] at hshape
  exact {
    dice := hplaced
    action := hmade.action
    next := hnext
    operands := ⟨(List.prefix_append taken [step]).trans hnext, hmade.operands⟩
    one := fun hprefixed =>
      (quantified_ofTokens e.tokens).quantity_eq hnext hmade.action hprefixed hmade.operands
    recorded := hmade.recorded
    shape := ⟨q, s, hq, hs, hshape⟩
    value := by
      rw [runSteps_append, Run.bind, hmade.operands, Run.after_result, runSteps_singleton_result]
      exact hmade.value }

namespace Tray

/-- **Every record has its shape**, if the dice are rolled with any source of random numbers that
draws no number beyond its bounds. The records of an evaluation are those of its rolls, in order,
and every roll is made by a dice operator of the expression, as `RollEvent.Shaped` says. -/
theorem evaluate_shapes {σ : Type} [Sampler σ] [Sampler.Honest σ]
    (tray : Tray (Roller.Sampled σ)) (e : Expression) :
    let events := ((Program.ofTokens e.tokens).run tray.reset).rolls
    (tray.evaluate e).1.rolls = events.map RollEvent.record ∧
      ∀ event ∈ events, ∃ taken step quantity sides below,
        event.Shaped e tray.reset taken step quantity sides below := by
  intro events
  exact ⟨rfl, fun event hevent => Program.shaped_of_mem_rolls e tray.reset hevent⟩

/-- As many dice as two dice show, without sides to show, and one die for which
no quantity is given. -/
theorem evaluate_shapes_nested :
    let tray : Tray (Roller.Sampled Roller.Generator) := ⟨some 20, 0, ⟨⟨[], 5⟩⟩⟩
    let e := Expression.scan "2d6d(0-1) + d4"
    (tray.evaluate e).1.rolls =
        [⟨.int 6, [3, 5]⟩, ⟨.int (-1), List.replicate 8 0⟩, ⟨.int 4, [1]⟩] ∧
      ∀ event ∈ ((Program.ofTokens e.tokens).run tray.reset).rolls,
        ∃ taken step quantity sides below,
          event.Shaped e tray.reset taken step quantity sides below ∧
            (event.operator = 10 → quantity = .int 1) := by
  intro tray e
  obtain ⟨-, hshapes⟩ := tray.evaluate_shapes e
  refine ⟨by decide +kernel, ?_⟩
  intro event hevent
  obtain ⟨taken, step, quantity, sides, below, hshaped⟩ := hshapes event hevent
  refine ⟨taken, step, quantity, sides, below, hshaped, ?_⟩
  intro hlast
  have hsign : e.tokens[10 - 1]?.any (·.value.endsOperand) = false := by decide +kernel
  apply hshaped.one
  rw [hlast]
  exact .inr hsign

end Tray

end DiceNotation
