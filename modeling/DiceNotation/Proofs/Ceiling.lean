import DiceNotation.Proofs.Grammar
import DiceNotation.Proofs.Throwing
import Mathlib.Algebra.Ring.Nat

/-!
# DiceNotation.Proofs.Ceiling

What a ceiling on the number of dice does: it cuts a run off, and does nothing else.

* `diceIn`: the number of dice in records, which is what a tray counts;
* `Request`, `Tray.serve`: what a tray can be used for;
* `Run.CutOff`: how a run under a ceiling compares with the same run without one;
* `Program.runSteps_cutOff`: the step by step comparison;
* `Tray.evaluate_ceiling`: an evaluation under a ceiling is the evaluation without one up to the
  first roll that does not fit, whatever the tray was used for before.

The two runs have different trays, so the comparison is over steps and not over
whole runs. As long as the ceiling holds, the count is the number of dice in the
records so far; the count of the free run does not matter.
-/

namespace DiceNotation

/-! ## Counting dice -/

/-- How many dice the records show. -/
def diceIn (records : List RollRecord) : Nat := (records.map fun r => r.faces.length).sum

@[simp] theorem diceIn_nil : diceIn [] = 0 := rfl

@[simp] theorem diceIn_cons (r : RollRecord) (records : List RollRecord) :
    diceIn (r :: records) = r.faces.length + diceIn records := by
  simp [diceIn]

@[simp] theorem diceIn_append (first second : List RollRecord) :
    diceIn (first ++ second) = diceIn first + diceIn second := by
  simp [diceIn]

/-- How many dice the rolls of a run show. -/
def diceRolled (rolls : List RollEvent) : Nat := diceIn (rolls.map RollEvent.record)

@[simp] theorem diceRolled_nil : diceRolled [] = 0 := rfl

@[simp] theorem diceRolled_cons (event : RollEvent) (rolls : List RollEvent) :
    diceRolled (event :: rolls) = event.record.faces.length + diceRolled rolls := by
  simp [diceRolled]

/-! ## What a tray is used for -/

/-- A use of a tray. -/
inductive Request where
  | evaluate (e : Expression)
  | roll (quantity sides : Number)

namespace Tray

variable {σ : Type} [Roller σ]

/-- The tray after a use. -/
def serve (t : Tray σ) : Request → Tray σ
  | .evaluate e => (t.evaluate e).2
  | .roll quantity sides => (t.roll quantity sides).2

/-- No use of a tray moves its ceiling. -/
theorem foldl_serve_ceiling (history : List Request) (t : Tray σ) :
    (history.foldl serve t).ceiling = t.ceiling := by
  induction history generalizing t with
  | nil => rfl
  | cons request history ih =>
    rw [List.foldl_cons, ih]
    cases request with
    | evaluate e => exact t.evaluate_ceiling_eq e
    | roll quantity sides => exact roll_ceiling rfl

end Tray

/-! ## Cutting a run off -/

variable {σ α β : Type}

/-- How a run under the ceiling `most` compares with the same run without one,
if `counted` dice have been counted before it. -/
inductive Run.CutOff (most counted : Nat) (free bound : Run σ α) : Prop
  /-- All dice fit, and the runs are the same. -/
  | whole : counted + diceRolled free.rolls ≤ most → bound.result = free.result →
      bound.rolls = free.rolls → bound.tray.roller = free.tray.roller →
      CutOff most counted free bound
  /-- The dice of the roll `refused` do not fit any more, and the run ends before it. -/
  | cut (kept rest : List RollEvent) (refused : RollEvent) : free.rolls = kept ++ refused :: rest →
      counted + diceRolled kept ≤ most →
      most < counted + diceRolled kept + refused.record.faces.length →
      bound.result = .error (.roll refused.operator .tooManyRolls) → bound.rolls = kept →
      CutOff most counted free bound

theorem Run.CutOff.after {most counted : Nat} {free bound : Run σ α} {event : RollEvent}
    (h : Run.CutOff most (counted + event.record.faces.length) free bound) :
    Run.CutOff most counted (free.after [event]) (bound.after [event]) := by
  cases h with
  | whole hfits hresult hrolls hroller =>
    refine .whole ?_ hresult (congrArg (event :: ·) hrolls) hroller
    simp only [Run.after_rolls, List.singleton_append, diceRolled_cons]
    omega
  | cut kept rest refused hrolls hkept hover hresult hbound =>
    refine .cut (event :: kept) rest refused (congrArg (event :: ·) hrolls) ?_ ?_ hresult
      (congrArg (event :: ·) hbound)
    · rw [diceRolled_cons]
      omega
    · rw [diceRolled_cons]
      omega

namespace Program

variable [Roller σ] [Roller.Exact σ]

/-- **A ceiling cuts a run off.** Two trays whose rollers are in the same state run alike until the
dice of a roll do not fit under the ceiling of the one. -/
theorem runSteps_cutOff {most : Nat} (hmost : most < Tray.greatestCount) (seen : Nat)
    (steps : List Step) (stack : List Number) {counted : Nat} (hcounted : counted ≤ most)
    (passed : Nat) (roller : σ) :
    Run.CutOff most counted (runSteps seen steps stack ⟨none, passed, roller⟩)
      (runSteps seen steps stack ⟨some most, counted, roller⟩) := by
  induction steps generalizing stack counted passed roller with
  | nil => exact .whole hcounted rfl rfl rfl
  | cons step steps ih =>
    rw [runSteps_cons_eq_bind, runSteps_cons_eq_bind]
    rcases step.perform_cases stack with ⟨result, -, hcalc⟩ |
      ⟨index, quantity, sides, rest, -, rfl, hperform⟩
    · rw [hcalc, hcalc]
      cases result with
      | error e => exact .whole hcounted rfl rfl rfl
      | ok stack' => exact ih stack' hcounted passed roller
    · rw [hperform, hperform]
      have hlength := Roller.length_throw roller quantity sides
      have hunlimited : ((⟨none, passed, roller⟩ : Tray σ).count
          (Tray.diceOf quantity)).exceeded = false := rfl
      have hfree := Tray.roll_of_allowed hunlimited sides
      rw [Tray.rollAt_of_ok hfree, Run.map_bind]
      by_cases hfits : counted + Tray.diceOf quantity ≤ most
      · -- The dice fit: the same faces come up, and the dice are counted.
        have hcount : min (counted + Tray.diceOf quantity) Tray.greatestCount =
            counted + Tray.diceOf quantity := Nat.min_eq_left (by omega)
        have hallowed : ((⟨some most, counted, roller⟩ : Tray σ).count
            (Tray.diceOf quantity)).exceeded = false := by
          simpa [Tray.exceeded, Tray.count, hcount] using hfits
        have hbound := Tray.roll_of_allowed hallowed sides
        rw [Tray.rollAt_of_ok hbound, Run.map_bind]
        cases finite (RollRecord.sum ⟨sides, (Roller.throw roller quantity sides).1⟩) with
        | error e =>
          refine .whole ?_ rfl rfl rfl
          simpa [hlength] using hfits
        | ok sum =>
          refine Run.CutOff.after ?_
          simpa only [hlength, Tray.count, hcount] using
            ih (sum :: rest) hfits _ (Roller.throw roller quantity sides).2
      · -- They do not: the free run makes the roll, whatever it comes to.
        have hexceeded : ((⟨some most, counted, roller⟩ : Tray σ).count
            (Tray.diceOf quantity)).exceeded = true :=
          decide_eq_true (Nat.lt_min.2 ⟨Nat.lt_of_not_le hfits, hmost⟩)
        have hbound := Tray.roll_of_exceeded hexceeded sides
        rw [Tray.rollAt_of_error hbound]
        have hover : most < counted + diceRolled [] +
            (Roller.throw roller quantity sides).1.length := by
          rw [hlength, diceRolled_nil]
          omega
        cases finite (RollRecord.sum ⟨sides, (Roller.throw roller quantity sides).1⟩) with
        | error e => exact .cut [] _ _ rfl hcounted hover rfl rfl
        | ok sum => exact .cut [] _ _ rfl hcounted hover rfl rfl

/-- The comparison for a program: a verdict on the syntax comes after its steps. -/
theorem run_cutOff {most : Nat} (hmost : most < Tray.greatestCount) (p : Program) (passed : Nat)
    (roller : σ) :
    Run.CutOff most 0 (p.run ⟨none, passed, roller⟩) (p.run ⟨some most, 0, roller⟩) := by
  rcases runSteps_cutOff hmost p.seen p.steps [] (Nat.zero_le most) passed roller with
    ⟨hfits, hresult, hrolls, hroller⟩ | ⟨kept, rest, refused, hrolls, hkept, hover, hresult, hbound⟩
  · exact .whole hfits (by rw [run_result, run_result, hresult]) hrolls hroller
  · exact .cut kept rest refused hrolls hkept hover (by rw [run_result, hresult]; rfl) hbound

end Program

/-- **A ceiling is a pure cut-off.** Whatever a tray was used for before, an evaluation on it is
compared with the evaluation on a new tray without a ceiling, the roller being in the same state. If
all the dice of the free evaluation fit under the ceiling, both are the same and leave the roller
the same. If not, the records end before the first that does not fit; the evaluation fails at the
dice operator of that record, which had no error and is given one; and the roller was asked for
nothing but the records, which leaves it as far as that takes it. -/
theorem Tray.evaluate_ceiling [Roller σ] [Roller.Exact σ] {most : Nat}
    (hmost : most < Tray.greatestCount) (rolled : Nat) (roller : σ) (history : List Request)
    (e : Expression) :
    let tray := history.foldl Tray.serve ⟨some most, rolled, roller⟩
    let free : Tray σ := ⟨none, 0, tray.roller⟩
    let bound := (tray.evaluate e).1
    let dice := diceIn (free.evaluate e).1.rolls
    (dice ≤ most →
      bound = (free.evaluate e).1 ∧ (tray.evaluate e).2.roller = (free.evaluate e).2.roller) ∧
    (most < dice → ∃ kept refused rest,
      ((Program.ofTokens e.tokens).run free).rolls = kept ++ refused :: rest ∧
      (free.evaluate e).1.rolls = (kept ++ refused :: rest).map RollEvent.record ∧
      diceRolled kept ≤ most ∧ most < diceRolled (kept ++ [refused]) ∧
      bound.outcome = .error (.roll refused.operator .tooManyRolls) ∧
      bound.rolls = kept.map RollEvent.record ∧
      (tray.asked e).Sublist (kept.map fun event => event.record.thrown) ∧
      (tray.evaluate e).2.roller = Roller.afterThrows tray.roller (tray.asked e) ∧
      ReadsDice e.tokens refused.operator ∧
      e.tokens[refused.operator]?.map Token.error = some none ∧
      bound.tokens.map Token.error =
        (e.tokens.map Token.error).set refused.operator (some .tooManyRolls)) := by
  intro tray free bound dice
  let program := Program.ofTokens e.tokens
  have hceiling : tray.ceiling = some most := Tray.foldl_serve_ceiling history _
  have hreset : tray.reset = ⟨some most, 0, tray.roller⟩ := by
    rw [← hceiling]
    rfl
  have hcut : Run.CutOff most 0 (program.run free) (program.run tray.reset) := by
    rw [hreset]
    exact Program.run_cutOff hmost program 0 tray.roller
  have hdice : dice = diceRolled (program.run free).rolls := rfl
  have hasked : (tray.asked e).Sublist (bound.rolls.map RollRecord.thrown) := tray.asked_sublist e
  rcases hcut with ⟨hfits, hresult, hrolls, hroller⟩ |
    ⟨kept, rest, refused, hrolls, hkept, hover, hresult, hbound⟩
  · refine ⟨fun _ => ⟨?_, hroller⟩, fun h => by omega⟩
    have hreset : free.reset = free := rfl
    simp only [bound, Tray.evaluate, hreset, program] at hresult hrolls ⊢
    rw [hresult, hrolls]
  · have hplaced := Program.run_placed e.tokens tray.reset _ hresult
    have hsplit : diceRolled (kept ++ [refused]) =
        diceRolled kept + refused.record.faces.length := by
      simp [diceRolled]
    have hmore : dice = diceRolled (kept ++ [refused]) + diceRolled rest := by
      simp [hdice, hrolls, diceRolled, Nat.add_assoc]
    have hfailed : bound.outcome = .error (.roll refused.operator .tooManyRolls) :=
      (tray.evaluate_outcome_eq_error e _).2 hresult
    have hrecords : bound.rolls = kept.map RollEvent.record := congrArg _ hbound
    refine ⟨fun h => by omega, fun _ => ⟨kept, refused, rest, hrolls, congrArg _ hrolls, by omega,
      by omega, hfailed, hrecords, ?_, tray.evaluate_roller e, hplaced, hplaced.error_eq_none rfl,
      ?_⟩⟩
    · rw [hrecords, List.map_map] at hasked
      exact hasked
    · rw [tray.evaluate_errors e]
      exact congrArg (blame · _) hfailed

/-- A tray for five dice that an expression has used up and failed, and that has
then refused dice. -/
def Tray.usedUp : Tray Roller.Stepping :=
  [Request.evaluate (.scan "5d6 + (1"), .roll (.int 9) (.int 6)].foldl Tray.serve
    ⟨some 5, 3, ⟨2, 1⟩⟩

/-- The tray above cuts `3d6 + 3d6` off before the second roll. -/
theorem Tray.evaluate_ceiling_usedUp :
    5 < Tray.greatestCount ∧
      let e := Expression.scan "3d6 + 3d6"
      5 < diceIn ((⟨none, 0, Tray.usedUp.roller⟩ : Tray Roller.Stepping).evaluate e).1.rolls ∧
      ∃ (kept : List RollEvent) (refused : RollEvent), diceRolled kept ≤ 5 ∧
        (Tray.usedUp.evaluate e).1.outcome = .error (.roll refused.operator .tooManyRolls) ∧
        (Tray.usedUp.evaluate e).1.rolls = kept.map RollEvent.record ∧
        ReadsDice e.tokens refused.operator := by
  have hmost : 5 < Tray.greatestCount := by decide
  have hdice : 5 < diceIn ((⟨none, 0, Tray.usedUp.roller⟩ : Tray Roller.Stepping).evaluate
      (Expression.scan "3d6 + 3d6")).1.rolls := by
    decide +kernel
  obtain ⟨_, hcut⟩ := Tray.evaluate_ceiling hmost 3 (⟨2, 1⟩ : Roller.Stepping)
    [.evaluate (.scan "5d6 + (1"), .roll (.int 9) (.int 6)] (Expression.scan "3d6 + 3d6")
  obtain ⟨kept, refused, _, _, _, hkept, _, houtcome, hrolls, _, _, hover, _⟩ := hcut hdice
  exact ⟨hmost, hdice, kept, refused, hkept, houtcome, hrolls, hover⟩

end DiceNotation
