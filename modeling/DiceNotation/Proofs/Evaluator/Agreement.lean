import DiceNotation.Proofs.Evaluator.Calls
import DiceNotation.Proofs.Evaluator.Simulation
import DiceNotation.Roller.Stepping

/-!
# DiceNotation.Proofs.Evaluator.Agreement

The evaluator comes to what an evaluation is: the program that is read from the same tokens, run.

* `Evaluator.run_agrees`: it has an answer, which is that evaluation;
* `Evaluator.run_coherent`: its state is coherent whenever a call is made or done.
-/

namespace DiceNotation.Evaluator

open Descent (program)

variable {σ : Type}

/-- What an answer is as an evaluation of a text. -/
def Answer.evaluation (a : Answer σ Number) (text : String) : Evaluation where
  outcome := a.result
  text := text
  rolls := a.state.rolls
  tokens := a.state.tokens

/-- The cursor on the first token, where descent begins. -/
theorem at_start {tokens : List Token} (h : obstacle? tokens = none) (tray : Tray σ) :
    ∃ s : State σ, advance (.start tokens tray) = some { result := .ok (), state := s } ∧
      At s ⟨0, tokens, [.advance 0]⟩ ∧ s.depth = 0 ∧ s.rolls = [] ∧ s.tokens = tokens ∧
      s.tray = tray := by
  have hhead : tokens[0]?.map Token.symbol = (Descent.symbol? tokens).map .ok := by
    rw [← List.head?_eq_getElem?]
    exact head?_of_free h
  have hadvance := place_of_symbol (s := .start tokens tray) hhead
  obtain ⟨_, -, hdone⟩ := keeps_start tokens tray _ hadvance
  exact ⟨_, hadvance, ⟨(hdone () rfl).2.1, rfl, rfl⟩, rfl, rfl, rfl, rfl⟩

variable [Roller σ]

/-- An evaluation, from a run of the program that is read. -/
theorem evaluate_of_run {tray : Tray σ} {e : Expression} {run : Run σ Number}
    (h : (Program.ofTokens e.tokens).runOn [] tray.reset = run) :
    tray.evaluate e =
      ({ outcome := run.result.map Number.normalize
         text := e.text
         rolls := run.rolls.map RollEvent.record
         tokens := annotate e.tokens run.rolls run.result }, run.tray) := by
  subst h
  rfl

/-- The evaluator does not begin if the first token cannot be looked at. -/
theorem run_agrees_of_obstacle (tray : Tray σ) {e : Expression} {why : EvalError}
    (h : obstacle? e.tokens = some why)
    (hprogram : Program.ofTokens e.tokens = .stop why 0) (calls : Nat) :
    ∃ a : Answer σ Number, run calls (.start e.tokens tray.reset) = some a ∧
      tray.evaluate e = (a.evaluation e.text, a.state.tray) := by
  have hhead : e.tokens[0]?.map Token.symbol = some (.error why) := by
    rw [← List.head?_eq_getElem?]
    exact head?_of_obstacle h
  have hadvance := place_of_error (s := .start e.tokens tray.reset) hhead
  have hrun : (Program.ofTokens e.tokens).runOn [] tray.reset =
      ⟨.error why, [], 0, tray.reset⟩ := by
    rw [hprogram]
    rfl
  refine ⟨_, bind_of_error hadvance, (evaluate_of_run hrun).trans ?_⟩
  simp [Answer.evaluation, annotate, annotateError_of_none (mark?_of_obstacle? h), State.start,
    Except.map]

/-- An answer that matches what descent came to is the evaluation. -/
theorem evaluate_of_matches {tray : Tray σ} {e : Expression} {s : State σ} {d : Descent.State}
    {new : List Descent.Event} {b : Answer σ Number} {result : Except EvalError Unit}
    (h : Matches s [] (· :: []) d new b result)
    (hprogram : Program.ofTokens e.tokens = program ⟨[], result, d.index⟩ new)
    (hrolls : s.rolls = []) (htokens : s.tokens = e.tokens) (htray : s.tray = tray.reset) :
    tray.evaluate e =
      ({ b with result := b.result.map Number.normalize }.evaluation e.text, b.state.tray) := by
  cases h with
  | @ok x s' trace rolls _ _ _ hrolls' htokens' hrest =>
    have hfinal : Program.runOn ⟨[], .ok (), d.index⟩ [x] s'.tray =
        ⟨.ok x, [], d.index, s'.tray⟩ := rfl
    have hrun : (Program.ofTokens e.tokens).runOn [] tray.reset =
        ⟨.ok x, rolls, d.index, s'.tray⟩ := by
      rw [hprogram, ← htray, hrest, hfinal, Run.after, List.append_nil]
    rw [evaluate_of_run hrun]
    simp [Answer.evaluation, hrolls', htokens', hrolls, htokens, annotate, Except.map]
  | @error why s' trace _ rolls hrolls' htokens' hrest =>
    obtain ⟨seen, hrun⟩ := hrest ⟨[], result, d.index⟩ fun why h => by rw [h]; rfl
    rw [htray, ← hprogram] at hrun
    rw [evaluate_of_run hrun]
    simp [Answer.evaluation, hrolls', htokens', hrolls, htokens, Except.map]

/-- **The evaluator comes to the evaluation**, as soon as it may make enough calls. -/
theorem run_agrees (tray : Tray σ) (e : Expression) {calls : Nat}
    (h : 2 * e.tokens.length < calls) :
    ∃ a : Answer σ Number, run calls (.start e.tokens tray.reset) = some a ∧
      tray.evaluate e = (a.evaluation e.text, a.state.tray) := by
  obtain ⟨account, hread, hof⟩ := Descent.exists_read e.tokens
  have hprogram : Program.ofTokens e.tokens = account.program := hof.program.symm
  replace hread := hread calls h
  cases hfree : obstacle? e.tokens with
  | some why =>
    obtain rfl := Option.some.inj ((Descent.read_of_obstacle hfree calls).symm.trans hread)
    exact run_agrees_of_obstacle tray hfree hprogram calls
  | none =>
    rw [Descent.read_of_free hfree] at hread
    obtain ⟨⟨result, d⟩, hdescent, rfl⟩ := Option.map_eq_some_iff.1 hread
    obtain ⟨s, hadvance, hat, hdepth, hrolls, htokens, htray⟩ := at_start hfree tray.reset
    obtain ⟨b, new, hb, hevents, hmatch⟩ :=
      (simulates calls).1 hat (congrArg (· + 1) hdepth) 0 [] result d hdescent
    have hlog : Program.ofTokens e.tokens = program ⟨[], result, d.index⟩ new := by
      have haccount : Program.ofTokens e.tokens = program ⟨[], result, d.index⟩ d.events := hprogram
      rw [haccount, hevents]
      rfl
    have hrun : run calls (.start e.tokens tray.reset) =
        (expression calls 0 >>= fun x => pure x.normalize) s :=
      (bind_of_ok hadvance).trans (map_after_nil _)
    have hvalue := evaluate_of_matches hmatch hlog hrolls htokens htray
    obtain ⟨value, s', trace⟩ := b
    cases value with
    | ok x => exact ⟨_, hrun.trans (bind_of_ok hb), hvalue⟩
    | error why => exact ⟨_, hrun.trans (bind_of_error hb), hvalue⟩

/-- **The state of an evaluation is coherent** whenever a call is made or done: the cursor and the
tokens fit together, the depth is the number of expressions in progress, and rolls are only added.
An expression that is done has consumed a token. It has come to something that can follow an operand
and that binds no more tightly than it was told, as has what follows an operand. -/
theorem run_coherent (tray : Tray σ) (e : Expression) :
    ∃ answer : Answer σ Number,
      (∀ calls, 2 * e.tokens.length < calls →
        run calls (.start e.tokens tray.reset) = some answer) ∧
      tray.evaluate e = (answer.evaluation e.text, answer.state.tray) ∧
      (∀ p ∈ answer.trace, p.state.Coherent ∧
        (p.state.current = none ↔ p.state.index = p.state.tokens.length)) ∧
      (∀ before p after, answer.trace = before ++ p :: after →
        p.state.depth = p.around (active before)) ∧
      answer.trace.Pairwise (fun p q => p.state.rolls <+: q.state.rolls) ∧
      (∀ power start s, .done (.expression power) start s ∈ answer.trace →
        start.index < s.index ∧ Ends power s.current) ∧
      (∀ left power start s, .done (.continueExpression left power) start s ∈ answer.trace →
        Ends power s.current) := by
  obtain ⟨answer, hanswer, hevaluate⟩ := run_agrees tray e (Nat.lt_succ_self _)
  obtain ⟨depth, htrail⟩ := run_trail hanswer
  have hholds := htrail.holds
  refine ⟨answer, fun calls h => run_extends h _ _ hanswer, hevaluate, fun p hp => ?_,
    fun before p after hsplit => htrail.depth hsplit, htrail.pairwise.2,
    fun power start s hdone => (hholds _ hdone).2,
    fun left power start s hdone => (hholds _ hdone).2⟩
  have hcoherent := (hholds p hp).coherent
  exact ⟨hcoherent, hcoherent.current_eq_none_iff⟩

-- The cursor, the depth and the number of rolls at the points of `d4`: the sides are an expression
-- inside the first one, and the roll comes after it.
example :
    let tray : Tray Roller.Stepping := ⟨none, 0, ⟨3, 1⟩⟩
    (run 5 (.start (Expression.scan "d4").tokens tray)).map (fun answer => answer.trace.map fun p =>
        (p.state.index, p.state.depth, p.state.rolls.length)) =
      some [(0, 0, 0), (1, 1, 0), (1, 1, 0), (2, 2, 0), (2, 2, 0), (2, 2, 0), (2, 2, 0), (2, 1, 0),
        (2, 1, 0), (2, 1, 1), (2, 1, 1), (2, 1, 1), (2, 1, 1), (2, 0, 1)] := by decide +kernel

end DiceNotation.Evaluator
