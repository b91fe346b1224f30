import DiceNotation.Proofs.Throwing
import Mathlib.Algebra.Ring.Nat

/-!
# DiceNotation.Proofs.Refusal

What a tray answers to requests for dice that are made one after the other, with
no evaluation between them to begin the count anew.

* `Tray.rollEach`: the answers to a row of requests;
* `Tray.roll_bounded`: one request under a ceiling, granted or refused;
* `Tray.rollEach_counts`: what is counted after a row of requests;
* `Tray.granted_iff`: a request is granted if the dice of all requests so far fit under the ceiling
  with its own, those of refused requests among them.

A request is counted before it is looked at. A refused one stays in the count, which is over the
ceiling from then on, so nothing is granted after it (`Tray.refusal_stays`).
-/

namespace DiceNotation

open Tray

/-! ## Rows of requests -/

/-- The number of dice asked for by a row of requests, each a quantity and sides. -/
def diceAsked (requests : List (Number × Number)) : Nat :=
  (requests.map fun request => diceOf request.1).sum

@[simp] theorem diceAsked_nil : diceAsked [] = 0 := rfl

@[simp] theorem diceAsked_cons (request : Number × Number) (requests : List (Number × Number)) :
    diceAsked (request :: requests) = diceOf request.1 + diceAsked requests := by
  simp [diceAsked]

/-- An answer to a request: faces, or why there are none. -/
abbrev Answer : Type := Except RollError (List Int64)

/-- The number of faces in a row of answers. -/
def facesShown (answers : List Answer) : Nat :=
  (answers.map fun answer => (answer.toOption.getD []).length).sum

@[simp] theorem facesShown_nil : facesShown [] = 0 := rfl

@[simp] theorem facesShown_cons_ok (faces : List Int64) (answers : List Answer) :
    facesShown (.ok faces :: answers) = faces.length + facesShown answers := by
  simp [facesShown, Except.toOption]

/-- Whether a request was granted. -/
def Answer.Granted (answer : Answer) : Prop := ∃ faces, answer = .ok faces

namespace Tray

variable {σ : Type} [Roller σ]

/-- The answers to requests that are made one after the other, and the tray after them. -/
def rollEach (t : Tray σ) : List (Number × Number) → List Answer × Tray σ
  | [] => ([], t)
  | (quantity, sides) :: requests =>
    let first := t.roll quantity sides
    let others := rollEach first.2 requests
    (first.1 :: others.1, others.2)

@[simp] theorem rollEach_nil (t : Tray σ) : t.rollEach [] = ([], t) := rfl

@[simp] theorem rollEach_cons (t : Tray σ) (request : Number × Number)
    (requests : List (Number × Number)) :
    t.rollEach (request :: requests) =
      ((t.roll request.1 request.2).1 :: ((t.roll request.1 request.2).2.rollEach requests).1,
        ((t.roll request.1 request.2).2.rollEach requests).2) := rfl

variable [Roller.Exact σ] {most : Nat} {t : Tray σ}

/-- **One request under a ceiling.** Either way the dice are counted; only a request that is granted
reaches the roller. -/
theorem roll_bounded (hmost : most < greatestCount) (hceiling : t.ceiling = some most)
    (quantity sides : Number) :
    (t.rolled + diceOf quantity ≤ most ∧ t.roll quantity sides =
      (.ok (Roller.throw t.roller quantity sides).1,
        { t.count (diceOf quantity) with
          roller := (Roller.throw t.roller quantity sides).2 })) ∨
    (most < t.rolled + diceOf quantity ∧
      t.roll quantity sides = (.error .tooManyRolls, t.count (diceOf quantity))) := by
  have hexceeded : (t.count (diceOf quantity)).exceeded =
      decide (most < min (t.rolled + diceOf quantity) greatestCount) := by
    rw [exceeded, count_ceiling, hceiling]
    rfl
  by_cases hfits : t.rolled + diceOf quantity ≤ most
  · have hallowed : (t.count (diceOf quantity)).exceeded = false := by
      rw [hexceeded, decide_eq_false_iff_not]
      omega
    exact .inl ⟨hfits, roll_of_allowed hallowed sides⟩
  · have hrefused : (t.count (diceOf quantity)).exceeded = true := by
      rw [hexceeded, decide_eq_true_eq]
      omega
    exact .inr ⟨Nat.lt_of_not_le hfits, roll_of_exceeded hrefused sides⟩

/-- A request is counted whatever the answer, as far as counts go. -/
theorem roll_counts (hmost : most < greatestCount) (hceiling : t.ceiling = some most)
    (quantity sides : Number) :
    (t.roll quantity sides).2.rolled = min (t.rolled + diceOf quantity) greatestCount ∧
      (t.roll quantity sides).2.ceiling = some most := by
  rcases roll_bounded hmost hceiling quantity sides with ⟨-, hroll⟩ | ⟨-, hroll⟩ <;> rw [hroll] <;>
    exact ⟨rfl, hceiling⟩

/-! ## What has been counted -/

/-- After a row of requests the count is over the ceiling as if it had no end. -/
theorem rollEach_counts (hmost : most < greatestCount) (hceiling : t.ceiling = some most)
    (requests : List (Number × Number)) :
    (t.rollEach requests).2.ceiling = some most ∧
      ∀ dice, (t.rollEach requests).2.rolled + dice ≤ most ↔
        t.rolled + diceAsked requests + dice ≤ most := by
  induction requests generalizing t with
  | nil => exact ⟨hceiling, fun dice => Iff.rfl⟩
  | cons request requests ih =>
    obtain ⟨hrolled, hceiling'⟩ := roll_counts hmost hceiling request.1 request.2
    obtain ⟨hafter, hfits⟩ := ih hceiling'
    rw [rollEach_cons]
    refine ⟨hafter, ?_⟩
    intro dice
    rw [hfits dice, hrolled, diceAsked_cons]
    omega

/-- Requests whose dice fit together are all granted. -/
theorem rollEach_granted (hmost : most < greatestCount) (hceiling : t.ceiling = some most)
    {requests : List (Number × Number)} (hfits : t.rolled + diceAsked requests ≤ most) :
    ∀ answer ∈ (t.rollEach requests).1, answer.Granted := by
  induction requests generalizing t with
  | nil => exact List.forall_mem_nil _
  | cons request requests ih =>
    rw [diceAsked_cons] at hfits
    obtain ⟨hrolled, hceiling'⟩ := roll_counts hmost hceiling request.1 request.2
    rw [rollEach_cons]
    refine List.forall_mem_cons.2 ⟨?_, ih hceiling' (by omega)⟩
    rcases roll_bounded hmost hceiling request.1 request.2 with ⟨-, hroll⟩ | ⟨hover, -⟩
    · rw [hroll]
      exact ⟨_, rfl⟩
    · omega

/-- Requests that are all granted show as many faces as they asked for. -/
theorem facesShown_of_granted (hmost : most < greatestCount) (hceiling : t.ceiling = some most)
    {requests : List (Number × Number)}
    (hgranted : ∀ answer ∈ (t.rollEach requests).1, answer.Granted) :
    facesShown (t.rollEach requests).1 = diceAsked requests := by
  induction requests generalizing t with
  | nil => rfl
  | cons request requests ih =>
    obtain ⟨hfirst, hothers⟩ := List.forall_mem_cons.1 hgranted
    have hceiling' := (roll_counts hmost hceiling request.1 request.2).2
    have hshown := ih hceiling' hothers
    rcases roll_bounded hmost hceiling request.1 request.2 with ⟨-, hroll⟩ | ⟨-, hroll⟩
    · rw [hroll] at hshown
      rw [rollEach_cons, hroll, facesShown_cons_ok, hshown, Roller.length_throw, diceAsked_cons]
    · obtain ⟨faces, hfaces⟩ := hfirst
      rw [hroll] at hfaces
      cases hfaces

/-- **A request is granted if the dice of all requests so far fit under the
ceiling**, whatever the answers to those before it were. So it is granted if and
only if all of them were, and its own dice fit with the faces that they have shown:
after the first refusal nothing is granted any more. A request that is granted
shows what the roller throws, and one that is refused does not reach the roller. -/
theorem granted_iff (hmost : most < greatestCount) (hceiling : t.ceiling = some most)
    (requests : List (Number × Number)) (quantity sides : Number) :
    let before := t.rollEach requests
    let answer := before.2.roll quantity sides
    (answer.1 =
      if t.rolled + diceAsked requests + diceOf quantity ≤ most then
        .ok (Roller.throw before.2.roller quantity sides).1
      else .error .tooManyRolls) ∧
    (Answer.Granted answer.1 ↔ (∀ earlier ∈ before.1, earlier.Granted) ∧
      t.rolled + facesShown before.1 + diceOf quantity ≤ most) ∧
    (¬ Answer.Granted answer.1 → answer.2.roller = before.2.roller) := by
  intro before answer
  obtain ⟨hceiling', hcounted⟩ := rollEach_counts hmost hceiling requests
  have hearlier : (∀ earlier ∈ before.1, earlier.Granted) →
      facesShown before.1 = diceAsked requests := facesShown_of_granted hmost hceiling
  have hover : ∀ dice, most < before.2.rolled + dice ↔
      most < t.rolled + diceAsked requests + dice :=
    fun dice => by rw [← not_le, ← not_le, hcounted]
  rcases roll_bounded hmost hceiling' quantity sides with ⟨hfits, hroll⟩ | ⟨hrefused, hroll⟩
  · rw [hcounted] at hfits
    have hall : ∀ earlier ∈ before.1, earlier.Granted :=
      rollEach_granted hmost hceiling (Nat.le_of_add_right_le hfits)
    have hgranted : Answer.Granted answer.1 := ⟨_, congrArg Prod.fst hroll⟩
    refine ⟨?_, iff_of_true hgranted ⟨hall, ?_⟩, fun hnot => absurd hgranted hnot⟩
    · rw [if_pos hfits]
      exact congrArg Prod.fst hroll
    · rwa [hearlier hall]
  · rw [hover] at hrefused
    have hanswer : answer = (.error .tooManyRolls, before.2.count (diceOf quantity)) := hroll
    have hnot : ¬ Answer.Granted answer.1 := by
      rw [hanswer]
      rintro ⟨faces, hfaces⟩
      cases hfaces
    refine ⟨?_, iff_of_false hnot ?_, fun _ => by rw [hanswer, count_roller]⟩
    · rw [if_neg (Nat.not_le.2 hrefused), hanswer]
    · rintro ⟨hall, hfits⟩
      rw [hearlier hall] at hfits
      omega

/-- Nine dice that are refused under a ceiling of ten, after six that were
granted: four more would fit with the six, and are refused. -/
theorem granted_iff_nine :
    let t : Tray Roller.Stepping := ⟨some 10, 0, ⟨1, 1⟩⟩
    10 < greatestCount ∧ t.ceiling = some 10 ∧
      Answer.Granted (((t.rollEach [(.int 6, .int 6)]).2.roll (.int 4) (.int 6)).1) ∧
      ¬ Answer.Granted
        (((t.rollEach [(.int 6, .int 6), (.int 9, .int 6)]).2.roll (.int 4) (.int 6)).1) := by
  intro t
  have hmost : 10 < greatestCount := by decide
  obtain ⟨hsix, -, -⟩ := granted_iff hmost (t := t) rfl [(.int 6, .int 6)] (.int 4) (.int 6)
  obtain ⟨hnine, -, -⟩ := granted_iff hmost (t := t) rfl [(.int 6, .int 6), (.int 9, .int 6)]
    (.int 4) (.int 6)
  refine ⟨hmost, rfl, ⟨_, hsix.trans (if_pos (by decide))⟩, ?_⟩
  rintro ⟨faces, hgranted⟩
  cases (hnine.trans (if_neg (by decide))).symm.trans hgranted

/-- **A refusal stays in the count.** The four dice fit under the ceiling with all the faces that
were shown, and are refused because of the nine that were not. -/
theorem refusal_stays :
    let t : Tray Roller.Stepping := ⟨some 10, 0, ⟨1, 1⟩⟩
    let before := t.rollEach [(.int 6, .int 6), (.int 9, .int 6)]
    facesShown before.1 + diceOf (.int 4) ≤ 10 ∧
      (before.2.roll (.int 4) (.int 6)).1 = .error .tooManyRolls := by
  decide +kernel

end Tray

end DiceNotation
