import DiceNotation.Proofs.Locality
import DiceNotation.Proofs.Shifting.Reading

/-!
# DiceNotation.Proofs.OneDie

Dice without a quantity are one die. Where dice begin an operand that is not itself the sides of
dice, the number one may be written out before them, and nothing changes but the indices of the
tokens from there on (`Tray.evaluate_oneDie`).

The reader takes different ways. Without the number the dice open an operand and bring their
quantity with them; with it an operand is complete, which the dice then continue. Only dice hold an
operand as tightly as dice do (`Move.leads_operand`), so nothing else takes the number from them,
and both readers come to the same row of frames: there are as many levels on the one side as on the
other, and no exception for expressions that are nested too deeply.

* `Program.lockstep_runsShifted`: a token that both read, before the dice or after them;
* `Program.runsShifted_dice`: the number and the dice;
* `Program.run_oneDie`: the two runs.
-/

namespace DiceNotation

variable {i : Nat}

/-! ## Reading -/

/-- Whether a token is followed by an operand that is not the sides of dice: an
opening parenthesis and the signs are. -/
def TokenValue.leadsOperand : TokenValue → Bool
  | .operator .add | .operator .sub | .operator .mul | .operator .div | .operator .pow => true
  | .operator .leftParen => true
  | .operator .rightParen | .operator (.dice _) | .number _ | .text _ => false

theorem Scope.holding_alike (scope : Scope) {frames frames' : List Frame}
    (h : List.Forall₂ (Frame.Alike i) frames frames') :
    scope.holding frames' = scope.holding frames := by
  cases h with
  | nil => rfl
  | cons hframe _ => cases hframe <;> rfl

namespace Program

variable {scope : Scope} {frames frames' : List Frame} {index : Nat}

/-- After a sign or an opening parenthesis no dice wait for the operand. -/
theorem Move.leads_operand {token : Token} {mode mode' : Mode} {steps : List Step}
    (h : Move scope frames index token mode steps mode' frames')
    (htoken : token.value.leadsOperand = true) :
    mode' = .operand ∧ scope.holding frames' < dicePower := by
  cases h with
  | number _ hsymbol =>
    rw [Token.value_of_symbol_number hsymbol] at htoken
    cases htoken
  | @opening op actions frame _ hsymbol hop =>
    rw [Token.value_of_symbol hsymbol] at htoken
    refine ⟨rfl, ?_⟩
    cases op with
    | sub | leftParen =>
      cases hop
      exact of_decide_eq_true rfl
    | dice upper => cases htoken
    | _ => cases hop
  | @continuing op power frame hsymbol hop _ =>
    rw [Token.value_of_symbol hsymbol] at htoken
    refine ⟨rfl, ?_⟩
    cases op with
    | dice upper | rightParen => cases htoken
    | _ =>
      cases hop
      exact of_decide_eq_true rfl
  | @closing op outer hsymbol hop _ =>
    rw [Token.value_of_symbol hsymbol] at htoken
    cases op with
    | rightParen => cases htoken
    | _ => cases hop

/-- **The readers with and without the number stay in step.** -/
theorem lockstep_runsShifted (i : Nat) (scope : Scope) :
    Lockstep i scope (fun frames frames' => List.Forall₂ (Frame.Alike i) frames frames' ∧
      Frame.levels frames' = Frame.levels frames) (RunsShifted i) := by
  rintro frames frames' index tokens tokens' mode ⟨hframes, hlevels⟩ hindex htokens hnext
  have hadmits : mode = .operand → scope.admits frames' = scope.admits frames := fun _ => by
    rw [Scope.admits, Scope.admits, hlevels]
  have hpast : ∀ {step : Step}, index ≤ step.seen → 0 < i ∨ 0 < step.seen := by
    intro step hstep
    omega
  rcases read_cases scope mode frames index tokens with
    hhalt | ⟨token, rest, steps, mode', frames₁, rfl, hmove, hrest, hread⟩
  · exact (hhalt.shifted hframes hadmits hindex htokens).runsShifted fun step hstep =>
      hpast (hhalt.beyond.steps step hstep)
  · obtain ⟨steps', frames₁', hmove', hsteps, hframes₁, hlevels₁⟩ :=
      hmove.alike hframes hadmits hindex
    cases htokens with
    | @cons _ _ rest' hsame =>
      rw [hread, read_of_move hmove' (hsame.trans hrest)]
      have hrest' := hnext token rest rest' steps mode' _ _ rfl rfl hmove
        ⟨hframes₁, hlevels₁ hlevels⟩
      exact hrest'.after hsteps fun step hstep => hpast (hmove.le_seen step hstep)

/-- A quantity of one is on the stack before the rest of a program, wherever it came from. -/
theorem runOn_one {σ : Type} [Roller σ] (p : Program) (seen : Nat) (stack : List Number)
    (tray : Tray σ) :
    (p.after [⟨.push (.int 1), seen⟩]).runOn stack tray = p.runOn (.int 1 :: stack) tray :=
  runOn_after p _ seen stack tray

/-- **The number and the dice.** Where an operand is expected and no dice wait for it, the reader
with the number has two tokens to consume. It comes to the same frames, with the same stack. -/
theorem runsShifted_dice (scope : Scope) (hframes : List.Forall₂ (Frame.Alike i) frames frames')
    (hlevels : Frame.levels frames' = Frame.levels frames)
    (hholding : scope.holding frames < dicePower) {dice one : Token} {upper : Bool}
    (hdice : dice.symbol = .ok (.operator (.dice upper)))
    (hone : one.symbol = .ok (.number (.int 1))) (rest : List Token) :
    RunsShifted i (read scope .operand frames i (dice :: rest))
      (read scope .operand frames' i (one :: dice :: rest)) := by
  have hadmits : scope.admits frames' = scope.admits frames := by
    rw [Scope.admits, Scope.admits, hlevels]
  have hholding' : scope.holding frames' < dicePower := by rwa [scope.holding_alike hframes]
  have hinside : Frame.held dicePower frames' = [] → scope.power < dicePower := by
    intro hnil
    rw [Frame.held_eq_self hholding'] at hnil
    rwa [hnil] at hholding'
  have hlook : obstacle? (dice :: rest) = none := by simp only [obstacle?, hdice]
  have hopening : (Operator.dice upper).opening? i = some ([.push (.int 1)], .dice i) := rfl
  have hcontinuing : (Operator.dice upper).continuing? (i + 1) =
      some (dicePower, .dice (i + 1)) := rfl
  cases hopen : scope.admits frames with
  | false =>
    rw [read_of_halt (.tooDeep hopen), read_of_halt (.tooDeep (hadmits.trans hopen))]
    have hstop := RunsShifted.stop_same (i := i) (e := .tooDeep) rfl i
    rwa [shiftSeen_of_le (Nat.le_refl i)] at hstop
  | true =>
    rw [read_of_move (.number (hadmits.trans hopen) hone) hlook]
    cases hrest : obstacle? rest with
    | some e =>
      rw [read_of_halt (.blocked hopen hdice hrest),
        read_of_halt (.blockedOperator hdice hcontinuing hinside hrest),
        Frame.released_eq_nil hholding']
      have hstop := RunsShifted.stop_same (obstacle?_shift hrest i) (i + 1)
      rw [shiftSeen_succ, shiftIndex_of_le (Nat.le_refl i)] at hstop
      intro σ _ stack tray
      rw [runOn_one]
      exact hstop σ stack tray
    | none =>
      rw [read_of_move (.opening hopen hdice hopening) hrest,
        read_of_move (.continuing hdice hcontinuing hinside) hrest,
        Frame.released_eq_nil hholding', Frame.held_eq_self hholding']
      have hframe : Frame.Alike i (.dice i) (.dice (i + 1)) := by
        have hframe := Frame.Alike.dice (i := i) i
        rwa [shiftIndex_of_le (Nat.le_refl i)] at hframe
      have hlevels' : Frame.levels (.dice (i + 1) :: frames') =
          Frame.levels (.dice i :: frames) := by
        rw [Frame.levels_cons, Frame.levels_cons, hlevels]
        rfl
      have hbeyond := (lockstep_runsShifted i scope).beyond rest .operand
        ⟨.cons hframe hframes, hlevels'⟩ (Nat.lt_succ_self i)
      intro σ _ stack tray
      rw [List.map_singleton, runOn_one, runOn_one]
      exact hbeyond σ (.int 1 :: stack) tray

/-- **The run with the number** is the run without it, by shifted indices. -/
theorem run_oneDie {σ : Type} [Roller σ] {tokens : List Token} {index : Nat} {one : Token}
    (hdice : ReadsDice tokens index)
    (hplace : index = 0 ∨ tokens[index - 1]?.any (·.value.leadsOperand) = true)
    (hone : one.symbol = .ok (.number (.int 1))) (tray : Tray σ) :
    (ofTokens (tokens.insertIdx index one)).run tray =
      ((ofTokens tokens).run tray).shift index := by
  obtain ⟨upper, hreads⟩ := hdice
  obtain ⟨dice, hat, hsymbol⟩ := Option.map_eq_some_iff.1 hreads
  obtain ⟨hlt, rfl⟩ := List.getElem?_eq_some_iff.1 hat
  have hdrop := List.drop_eq_getElem_cons hlt
  have hruns : RunsShifted index (ofTokens tokens) (ofTokens (tokens.insertIdx index one)) := by
    -- The number is come to where an operand is expected and no dice wait for it.
    refine (lockstep_runsShifted index .whole).ofTokens ⟨.nil, rfl⟩ hlt ?_ (Q := fun mode frames =>
      mode = .operand ∧ Scope.whole.holding frames < dicePower) (fun _ => ⟨rfl, by decide⟩) ?_ ?_
    · rw [hdrop]
      simp only [obstacle?, hone, hsymbol]
    · intro last hpos hlast _ _ _ _ _ _ hmove
      have hleads := hplace.resolve_left (Nat.ne_of_gt hpos)
      rw [hlast, Option.any_some] at hleads
      exact hmove.leads_operand hleads
    · rintro _ frames frames' ⟨hframes, hlevels⟩ ⟨rfl, hholding⟩
      rw [hdrop]
      exact runsShifted_dice .whole hframes hlevels hholding hsymbol hone _
  exact hruns σ [] tray

end Program

/-! ## Evaluating -/

namespace Tray

/-- **Dice without a quantity are one die.** Let dice stand at the beginning of an
expression, or after a sign or an opening parenthesis. With the number one put in
before them, the expression has the same value or fails for the same reason, makes
the same rolls, leaves the tray as it would have been, and has the same annotations
at the same tokens and none at the number; only the indices are others. -/
theorem evaluate_oneDie {σ : Type} [Roller σ] (tray : Tray σ) (text text' : String)
    (tokens : List Token) (index : Nat) (one : Token) (hdice : ReadsDice tokens index)
    (hplace : index = 0 ∨ tokens[index - 1]?.any (·.value.leadsOperand) = true)
    (hone : one.value = .number (.int 1)) (herror : one.error = none) :
    let result := tray.evaluate ⟨text, tokens⟩
    let result' := tray.evaluate ⟨text', tokens.insertIdx index one⟩
    result'.1.outcome = result.1.outcome.mapError (EvalError.shift index) ∧
    result'.1.errorText = result.1.errorText ∧
    result'.1.rolls = result.1.rolls ∧
    result'.1.tokens = result.1.tokens.insertIdx index one ∧
    result'.2 = result.2 := by
  have hsymbol : one.symbol = .ok (.number (.int 1)) := by simp only [Token.symbol, herror, hone]
  exact tray.evaluate_insertIdx text text' tokens index one
    (Program.run_oneDie hdice hplace hsymbol tray.reset)

/-- The number in an exponent that is dice with dice before them, in an
expression that fails later. -/
theorem evaluate_oneDie_power :
    let tray : Tray Roller.Stepping := ⟨some 9, 0, ⟨3, 1⟩⟩
    let tokens := (Expression.scan "2^d6d4/0").tokens
    let one : Token := ⟨.number (.int 1), ⟨2, 2⟩, .number, none, none, none⟩
    let result := tray.evaluate (.scan "2^d6d4/0")
    let result' := tray.evaluate ⟨"", tokens.insertIdx 2 one⟩
    result.1.outcome = .error (.zeroDivision 6) ∧ result'.1.outcome = .error (.zeroDivision 7) ∧
      result'.1.rolls = result.1.rolls ∧ result'.1.tokens = result.1.tokens.insertIdx 2 one := by
  intro tray tokens one result result'
  have hdie := tray.evaluate_oneDie "2^d6d4/0" "" tokens 2 one ⟨false, rfl⟩
    (.inr (by decide +kernel)) rfl rfl
  obtain ⟨houtcome, -, hrolls, htokens, -⟩ := hdie
  have hfailed : result.1.outcome = .error (.zeroDivision 6) := by decide +kernel
  exact ⟨hfailed, houtcome.trans (congrArg _ hfailed), hrolls, htokens⟩

end Tray

end DiceNotation
