import DiceNotation.Proofs.Records

/-!
# DiceNotation.Proofs.Structure

What the dice do not decide. Two evaluations of an expression may differ in the
roller, its state and the ceiling, and so in every value; they still make the
same rolls in the same order, up to where one of them fails.

* `EvalError.ofReading`: the errors that are found by reading alone;
* `Program.verdict_of_run`, `Program.run_of_verdict`: a run fails for such an error only if the
  expression has it, and then no run succeeds;
* `Tray.evaluate_carries`: which tokens carry a roll follows from the extents of the rolls;
* `Tray.evaluate_structure`: two evaluations of an expression compared.
-/

namespace DiceNotation

variable {σ τ : Type} [Roller σ] [Roller τ]

/-! ## Errors of reading -/

/-- Whether an error is found by reading alone: it depends on no value and no roll. -/
def EvalError.ofReading : EvalError → Bool
  | .unexpectedValue _ | .unexpectedEnd | .unclosedGroup _ | .lexical _ | .unreadable
  | .tooDeep => true
  | .zeroDivision _ | .roll .. | .notFinite | .missingOperand => false

namespace Program

/-- Where the steps of an expression fail, reading has not failed. -/
theorem runSteps_not_ofReading {tokens : List Token} {tray : Tray σ} {why : EvalError}
    (h : (runSteps (ofTokens tokens).seen (ofTokens tokens).steps [] tray).result = .error why) :
    why.ofReading = false := by
  rcases runSteps_failure h with rfl | ⟨index, rfl⟩ | ⟨index, cause, rfl⟩ <;> rfl

/-- **A run that fails for an error of reading** has come to the verdict on the expression. -/
theorem verdict_of_run {tokens : List Token} {tray : Tray σ} {why : EvalError}
    (h : ((ofTokens tokens).run tray).result = .error why) (hreading : why.ofReading = true) :
    (ofTokens tokens).verdict = .error why := by
  rcases run_error h with hstep | ⟨hverdict, -⟩
  · rw [runSteps_not_ofReading hstep] at hreading
    cases hreading
  · exact hverdict

/-- A run of an expression that cannot be read fails for that, or before it for
a value or a roll. -/
theorem run_of_verdict {tokens : List Token} {why : EvalError}
    (h : (ofTokens tokens).verdict = .error why) (tray : Tray σ) :
    ∃ why', ((ofTokens tokens).run tray).result = .error why' ∧
      (why' = why ∨ why'.ofReading = false) := by
  rw [run_result]
  cases hsteps : (runSteps (ofTokens tokens).seen (ofTokens tokens).steps [] tray).result with
  | error e => exact ⟨e, rfl, .inr (runSteps_not_ofReading hsteps)⟩
  | ok stack =>
    refine ⟨why, ?_, .inl rfl⟩
    rw [h]
    rfl

/-- A run that succeeds stops where the expression ends. -/
theorem run_endsAt (p : Program) (tray : Tray σ) : (p.run tray).EndsAt p.seen := by
  intro x hx
  obtain ⟨stack, hstack⟩ := runSteps_of_run_ok hx
  exact runSteps_endsAt _ _ _ _ stack hstack

end Program

/-! ## Two evaluations -/

namespace Tray

/-- The tokens that carry a roll, or the roll of an operand, are those that did
before and those in the extents of the rolls. -/
theorem evaluate_carries (tray : Tray σ) (e : Expression) (index : Nat) :
    let extents := ((Program.ofTokens e.tokens).run tray.reset).rolls.map RollEvent.extent
    (tray.evaluate e).1.tokens[index]?.map (fun t => (t.roll.isSome, t.rollResult.isSome)) =
      e.tokens[index]?.map fun t =>
        (extents.any (·.operator = index) || t.roll.isSome,
          extents.any (·.operandEnd = index) || t.rollResult.isSome) := by
  intro extents
  rw [evaluate_map_records (fun t => (t.roll.isSome, t.rollResult.isSome)) (fun _ _ => rfl) tray e
    index]
  simp only [Token.afterRolls, Option.isSome_or, isSome_lastRecord?, extents, List.any_map]
  rfl

/-- An evaluation succeeds if its run does. -/
theorem run_ok_of_evaluate {tray : Tray σ} {e : Expression}
    (h : (tray.evaluate e).1.failed = false) :
    ∃ x, ((Program.ofTokens e.tokens).run tray.reset).result = .ok x := by
  cases hresult : ((Program.ofTokens e.tokens).run tray.reset).result with
  | ok x => exact ⟨x, rfl⟩
  | error why =>
    have houtcome := (tray.evaluate_outcome_eq_error e why).2 hresult
    rw [Evaluation.failed, houtcome] at h
    cases h

/-- **The structure of an evaluation does not depend on the dice.** Of two evaluations
of an expression, one makes the rolls of the other, at the same tokens and in the same
order, and perhaps some more after them. If both succeed they make the same rolls,
leave rolls at the same tokens, and stop at the same token. If one fails for an error
of reading the other fails too, for the same error or before it. -/
theorem evaluate_structure (tray : Tray σ) (tray' : Tray τ) (e : Expression) :
    let run := (Program.ofTokens e.tokens).run tray.reset
    let run' := (Program.ofTokens e.tokens).run tray'.reset
    let extents := run.rolls.map RollEvent.extent
    let extents' := run'.rolls.map RollEvent.extent
    let result := (tray.evaluate e).1
    let result' := (tray'.evaluate e).1
    (extents <+: extents' ∨ extents' <+: extents) ∧
    (result.failed = false → result'.failed = false →
      extents = extents' ∧
      result.tokens.map (fun t => (t.roll.isSome, t.rollResult.isSome)) =
        result'.tokens.map (fun t => (t.roll.isSome, t.rollResult.isSome)) ∧
      run.seen = run'.seen) ∧
    ∀ why, result.outcome = .error why → why.ofReading = true →
      ∃ why', result'.outcome = .error why' ∧ (why' = why ∨ why'.ofReading = false) := by
  intro run run' extents extents' result result'
  obtain ⟨hmade, hwhole⟩ := (Program.ofTokens e.tokens).run_extents tray.reset
  obtain ⟨hmade', hwhole'⟩ := (Program.ofTokens e.tokens).run_extents tray'.reset
  have hcompared : extents <+: extents' ∨ extents' <+: extents :=
    List.prefix_or_prefix_of_prefix hmade hmade'
  refine ⟨hcompared, ?_, ?_⟩
  · intro hok hok'
    obtain ⟨x, hx⟩ := run_ok_of_evaluate hok
    obtain ⟨x', hx'⟩ := run_ok_of_evaluate hok'
    have hextents : extents = extents' := (hwhole x hx).trans (hwhole' x' hx').symm
    refine ⟨hextents, ?_, ?_⟩
    · apply List.ext_getElem?
      intro index
      rw [List.getElem?_map, List.getElem?_map, tray.evaluate_carries, tray'.evaluate_carries]
      show e.tokens[index]?.map (fun t => (extents.any _ || _, extents.any _ || _)) = _
      rw [hextents]
    · have hseen := Program.run_endsAt _ tray.reset x hx
      have hseen' := Program.run_endsAt _ tray'.reset x' hx'
      exact hseen.trans hseen'.symm
  · intro why hwhy hreading
    have hverdict := Program.verdict_of_run ((tray.evaluate_outcome_eq_error e why).1 hwhy) hreading
    obtain ⟨why', hwhy', hsame⟩ := Program.run_of_verdict hverdict tray'.reset
    exact ⟨why', (tray'.evaluate_outcome_eq_error e why').2 hwhy', hsame⟩

end Tray

end DiceNotation
