import DiceNotation.Proofs.Throwing
import DiceNotation.Roller.Script

/-!
# DiceNotation.Proofs.Replay

The records of an evaluation say all that the roller did in it.

* `Roller.filter_throw`: an honest roller shows no zeros, so the zeros in a record are those of dice
  that were not thrown;
* `Tray.faces_asked`: the faces a roller handed out are the faces of the records without the zeros;
* `Program.runSteps_scripted`: a script of these faces takes the roller's place step by step;
* `Tray.evaluate_replay`: and so in the whole evaluation, which uses the script up.

Nothing but the faces reaches a run from its roller. What makes the replay work in a run that fails
is that a roll is recorded before anything can be found wrong with it.
-/

namespace DiceNotation

open Tray

/-! ## Zeros -/

/-- The faces in records that are faces of dice. -/
def trace (records : List RollRecord) : List Int64 :=
  (records.flatMap RollRecord.faces).filter (· ≠ 0)

@[simp] theorem trace_nil : trace [] = [] := rfl

theorem trace_cons (r : RollRecord) (records : List RollRecord) :
    trace (r :: records) = r.faces.filter (· ≠ 0) ++ trace records := by
  simp [trace]

theorem trace_append (first second : List RollRecord) :
    trace (first ++ second) = trace first ++ trace second := by
  simp [trace]

namespace Roller

variable {σ : Type} [Roller σ]

/-- All the faces of an honest throw are faces of dice, and none of those without one. -/
theorem filter_throw [Honest σ] (roller : σ) (quantity sides : Number) :
    (throw roller quantity sides).1.filter (· ≠ 0) =
      if Asks quantity sides then (throw roller quantity sides).1 else [] := by
  by_cases h : Asks quantity sides
  · have hsides : 0 < (wholeOf sides).toNat := by
      have := h.2
      omega
    have hmost : (wholeOf sides).toNat ≤ Number.greatest.toNat :=
      Int.toNat_le_toNat (wholeOf_le sides)
    rw [if_pos h, List.filter_eq_self]
    intro face hface
    rw [throw_of_asks h] at hface
    have hone := Honest.one_le_face roller (diceOf_pos quantity) hsides hmost face hface
    have hne : face ≠ 0 := by
      rintro rfl
      exact absurd hone (by decide)
    exact decide_eq_true hne
  · rw [if_neg h, throw_of_not_asks h, List.filter_replicate]
    rfl

/-- A script that begins with the faces of a throw takes its place. -/
theorem throw_script [Honest σ] (roller : σ) (quantity sides : Number) (more : List Int64) :
    throw (⟨(throw roller quantity sides).1.filter (· ≠ 0) ++ more⟩ : Script) quantity sides =
      ((throw roller quantity sides).1, ⟨more⟩) := by
  have hlength := length_throw roller quantity sides
  rw [filter_throw]
  by_cases h : Asks quantity sides
  · rw [if_pos h, throw_of_asks h, Script.roll_eq, ← hlength, List.take_left, List.drop_left]
  · rw [if_neg h, throw_of_not_asks h, throw_of_not_asks h]
    rfl

end Roller

/-! ## What was handed out -/

namespace Tray

variable {σ : Type} [Roller σ] [Roller.Honest σ]

/-- The faces that the roller handed out in an evaluation are those in its records. -/
theorem faces_asked (t : Tray σ) (e : Expression) :
    (t.asked e).flatMap Roller.Throw.faces = trace (t.evaluate e).1.rolls := by
  rw [← (t.evaluate_watch e).1]
  refine evaluate_invariant (I := fun (t : Tray (Roller.Watched σ)) records =>
    t.roller.asked.flatMap Roller.Throw.faces = trace records) ?_ ?_ t.watch e rfl
  · intro t t' records quantity sides why h hroll
    rw [roll_error hroll]
    exact h
  · intro t t' records quantity sides faces h hroll
    obtain ⟨hfaces, _, hasked⟩ := roll_watched_ok hroll
    have hfilter := Roller.filter_throw t.roller.inner quantity sides
    rw [hasked, List.flatMap_append, h, trace_append, trace_cons, trace_nil, List.append_nil,
      hfaces, hfilter]
    split <;> simp [RollRecord.thrown]

/-- The tray with a script in the place of its roller. -/
def scripted {σ : Type} (t : Tray σ) (faces : List Int64) : Tray Roller.Script :=
  ⟨t.ceiling, t.rolled, ⟨faces⟩⟩

/-- A request that is granted is granted with a script of its faces, and the script is used up. -/
theorem roll_scripted {t : Tray σ} {quantity : Number}
    (h : (t.count (diceOf quantity)).exceeded = false) (sides : Number) (more : List Int64) :
    (t.scripted ((Roller.throw t.roller quantity sides).1.filter (· ≠ 0) ++ more)).roll
        quantity sides =
      (.ok (Roller.throw t.roller quantity sides).1,
        (t.count (diceOf quantity)).scripted more) := by
  have hscript := Roller.throw_script t.roller quantity sides more
  have hlength := Roller.length_throw t.roller quantity sides
  have hallowed : ∀ faces, ((t.scripted faces).count (diceOf quantity)).exceeded = false :=
    fun _ => h
  rw [roll_eq, hallowed, if_neg Bool.false_ne_true, scripted, hscript]
  rcases hthrow : Roller.throw t.roller quantity sides with ⟨_ | ⟨face, faces⟩, roller⟩
  · rw [hthrow] at hlength
    exact absurd hlength (Nat.ne_of_lt (diceOf_pos quantity))
  · rfl

end Tray

/-! ## Replaying -/

variable {σ α β : Type}

namespace Run

/-- The faces that a run got from its roller. -/
def trace (r : Run σ α) : List Int64 := DiceNotation.trace (r.rolls.map RollEvent.record)

/-- The run with a script in the place of its roller. -/
def scripted (r : Run σ α) (faces : List Int64) : Run Roller.Script α :=
  ⟨r.result, r.rolls, r.seen, r.tray.scripted faces⟩

/-- A run is replayed by runs on scripts, if each that begins with the faces of the run comes to the
same and leaves the rest of its script. -/
def ReplayedBy (r : Run σ α) (replay : List Int64 → Run Roller.Script α) : Prop :=
  ∀ more, replay (r.trace ++ more) = r.scripted more

theorem trace_after (r : Run σ α) (rolls : List RollEvent) :
    (r.after rolls).trace = DiceNotation.trace (rolls.map RollEvent.record) ++ r.trace := by
  simp only [trace, after_rolls, List.map_append, trace_append]

/-- Runs in sequence are replayed in sequence. -/
theorem ReplayedBy.bind {r : Run σ α} {replay : List Int64 → Run Roller.Script α}
    (h : r.ReplayedBy replay) {next : α → Tray σ → Run σ β}
    {next' : α → Tray Roller.Script → Run Roller.Script β}
    (hnext : ∀ a tray, (next a tray).ReplayedBy fun faces => next' a (tray.scripted faces)) :
    (r.bind next).ReplayedBy fun faces => (replay faces).bind next' := by
  intro more
  obtain ⟨result, rolls, seen, tray⟩ := r
  cases result with
  | error e => exact congrArg (Run.bind · next') (h more)
  | ok a =>
    -- The first run leaves the script of the second.
    have hfirst := h ((next a tray).trace ++ more)
    have hsecond : _ = (next a tray).scripted more := hnext a tray more
    simp only [bind_ok, trace_after, List.append_assoc]
    calc (replay (_ ++ ((next a tray).trace ++ more))).bind next'
        = (next' a (tray.scripted ((next a tray).trace ++ more))).after rolls :=
          congrArg (Run.bind · next') hfirst
      _ = ((next a tray).scripted more).after rolls := congrArg (Run.after · rolls) hsecond

theorem ReplayedBy.map {r : Run σ α} {replay : List Int64 → Run Roller.Script α}
    (h : r.ReplayedBy replay) (f : α → β) :
    (r.map f).ReplayedBy fun faces => (replay faces).map f :=
  fun more => congrArg (Run.map f) (h more)

end Run

section

variable [Roller σ] [Roller.Honest σ]

theorem Tray.rollAt_replayedBy (tray : Tray σ) (index stop : Nat) (quantity sides : Number) :
    (tray.rollAt index stop quantity sides).ReplayedBy fun faces =>
      (tray.scripted faces).rollAt index stop quantity sides := by
  intro more
  by_cases hexceeded : (tray.count (diceOf quantity)).exceeded = true
  · -- The dice are refused, and that with any roller.
    have hscript : ∀ faces, ((tray.scripted faces).count (diceOf quantity)).exceeded = true :=
      fun _ => hexceeded
    rw [rollAt_of_error (roll_of_exceeded hexceeded sides)]
    exact rollAt_of_error (roll_of_exceeded (hscript _) sides) index stop
  · -- The roll is recorded, whatever its sum is, so its faces are in the trace.
    have hallowed : (tray.count (diceOf quantity)).exceeded = false := by simpa using hexceeded
    rw [rollAt_of_ok (roll_of_allowed hallowed sides)]
    simp only [Run.trace, List.map_cons, List.map_nil, trace_cons, trace_nil, List.append_nil]
    exact rollAt_of_ok (roll_scripted hallowed sides more) index stop

theorem Step.perform_replayedBy (step : Step) (stack : List Number) (tray : Tray σ) :
    (step.perform stack tray).ReplayedBy fun faces => step.perform stack (tray.scripted faces) := by
  rcases step.perform_cases stack with ⟨result, -, hcalc⟩ |
    ⟨index, quantity, sides, rest, -, rfl, hroll⟩
  · -- A calculation has no trace.
    intro more
    rw [hcalc tray]
    exact hcalc (tray.scripted more)
  · simp only [hroll]
    exact (tray.rollAt_replayedBy index step.seen quantity sides).map _

/-- A script of the faces in the records of a run takes the roller's place in it. -/
theorem Program.runSteps_replayedBy (seen : Nat) (steps : List Step) (stack : List Number)
    (tray : Tray σ) :
    (runSteps seen steps stack tray).ReplayedBy fun faces =>
      runSteps seen steps stack (tray.scripted faces) := by
  induction steps generalizing stack tray with
  | nil => exact fun more => rfl
  | cons step steps ih =>
    simp only [runSteps_cons_eq_bind]
    exact (step.perform_replayedBy stack tray).bind ih

theorem Program.run_replayedBy (p : Program) (tray : Tray σ) :
    (p.run tray).ReplayedBy fun faces => p.run (tray.scripted faces) := by
  intro more
  have hsteps := Program.runSteps_replayedBy p.seen p.steps [] tray more
  exact congrArg (fun done : Run Roller.Script (List Number) =>
    (⟨done.result.bind (conclude p.verdict), done.rolls, done.seen, done.tray⟩ :
      Run Roller.Script Number)) hsteps

/-- **The records of an evaluation are complete, and replay it.** Without the
zeros of dice that were not thrown, the faces in the records are what the roller
handed out, in the same order, whether the evaluation succeeds or fails. A
script of these faces evaluates the expression to the same outcome, records and
tokens under the same ceiling, and is used up by it: what follows it is left. -/
theorem Tray.evaluate_replay (tray : Tray σ) (e : Expression) (more : List Int64) :
    let handed := (tray.asked e).flatMap Roller.Throw.faces
    handed = ((tray.evaluate e).1.rolls.flatMap RollRecord.faces).filter (· ≠ 0) ∧
      (tray.scripted (handed ++ more)).evaluate e =
        ((tray.evaluate e).1, (tray.evaluate e).2.scripted more) := by
  intro handed
  have hhanded : handed = trace (tray.evaluate e).1.rolls := tray.faces_asked e
  have hreplay : (Program.ofTokens e.tokens).run (tray.scripted (handed ++ more)).reset =
      ((Program.ofTokens e.tokens).run tray.reset).scripted more := by
    rw [hhanded]
    exact Program.run_replayedBy (Program.ofTokens e.tokens) tray.reset more
  refine ⟨hhanded, ?_⟩
  simp only [evaluate, hreplay]
  rfl

end

/-- Dice in dice, and dice that are none, in an evaluation that fails: it is
replayed by the three faces that were thrown. -/
theorem Tray.evaluate_replay_failed :
    let tray : Tray Roller.Stepping := ⟨some 9, 4, ⟨3, 1⟩⟩
    let e := Expression.scan "2d(1d4) + (0d6)d0 + 3d0 / 0"
    ((tray.evaluate e).1.rolls.flatMap RollRecord.faces).filter (· ≠ 0) = [3, 1, 2] ∧
      (tray.scripted [3, 1, 2]).evaluate e =
        ((tray.evaluate e).1, (tray.evaluate e).2.scripted []) := by
  have hfaces : ((⟨some 9, 4, ⟨3, 1⟩⟩ : Tray Roller.Stepping).asked
      (Expression.scan "2d(1d4) + (0d6)d0 + 3d0 / 0")).flatMap Roller.Throw.faces = [3, 1, 2] := by
    decide +kernel
  obtain ⟨htrace, hreplay⟩ := Tray.evaluate_replay (⟨some 9, 4, ⟨3, 1⟩⟩ : Tray Roller.Stepping)
    (Expression.scan "2d(1d4) + (0d6)d0 + 3d0 / 0") []
  rw [hfaces] at htrace hreplay
  exact ⟨htrace.symm, hreplay⟩

end DiceNotation
