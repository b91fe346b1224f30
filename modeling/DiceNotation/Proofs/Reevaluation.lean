import DiceNotation.Proofs.Blame
import DiceNotation.Proofs.Meaning

/-!
# DiceNotation.Proofs.Reevaluation

Evaluating what an evaluation left: the same tokens, with rolls and perhaps an error at them.

* `Tray.evaluate_again`: the rolls that a success left make no difference, and
  another success replaces them all;
* `Tray.evaluate_sticky`: the error that a failure left is met again, and brings
  a failure with any dice.

Rolls are not part of what a token means (`Token.meaning`). That none of them stays is because all
successful evaluations of an expression leave rolls at the same tokens. An error is met again
because it was left at a token that had been looked at, on the way to which nothing depends on dice.
-/

namespace DiceNotation

variable {σ τ : Type} [Roller σ] [Roller τ]

/-- What was evaluated, with what was left at its tokens. -/
def Evaluation.expression (e : Evaluation) : Expression := ⟨e.text, e.tokens⟩

/-! ## After a success -/

/-- Rolls with the same extents have a last one at the same tokens. -/
theorem isSome_lastRecord?_congr {first second : List RollEvent}
    (h : first.map RollEvent.extent = second.map RollEvent.extent) (p : Extent → Bool) :
    (lastRecord? (p ·.extent) first).isSome = (lastRecord? (p ·.extent) second).isSome := by
  have hany : ∀ rolls : List RollEvent,
      (lastRecord? (p ·.extent) rolls).isSome = (rolls.map RollEvent.extent).any p := by
    intro rolls
    rw [isSome_lastRecord?, List.any_map]
    rfl
  rw [hany, hany, h]

theorem or_or_of_isSome {α : Type} {new old : Option α} (h : old.isSome = new.isSome)
    (before : Option α) : new.or (old.or before) = new.or before := by
  cases new with
  | some x => rfl
  | none =>
    have hold : old = none := by simpa using h
    rw [hold]
    rfl

/-- **Rolls replace all of those with the same extents.** -/
theorem annotateRolls_again {first second : List RollEvent}
    (h : first.map RollEvent.extent = second.map RollEvent.extent) (tokens : List Token) :
    second.foldl annotateRoll (first.foldl annotateRoll tokens) =
      second.foldl annotateRoll tokens := by
  apply List.ext_getElem?
  intro index
  rw [getElem?_annotateRolls, getElem?_annotateRolls, getElem?_annotateRolls, Option.map_map]
  cases tokens[index]? with
  | none => rfl
  | some t =>
    have hoperator := isSome_lastRecord?_congr h (·.operator = index)
    have hend := isSome_lastRecord?_congr h (·.operandEnd = index)
    simp only [Option.map_some, Function.comp_apply, Token.afterRolls, Option.some.injEq]
    congr 1
    · exact or_or_of_isSome hoperator t.roll
    · exact or_or_of_isSome hend t.rollResult

namespace Tray

/-- **Evaluating what a success left** is evaluating the expression: the outcome, the rolls and the
tray after it are the same, with any roller, in any state, under any ceiling. If it succeeds again
the tokens are the same too, so that nothing at them is left of the first evaluation. -/
theorem evaluate_again {tray : Tray σ} {e : Expression} (h : (tray.evaluate e).1.failed = false)
    (tray' : Tray τ) :
    let result := (tray'.evaluate e).1
    let again := (tray'.evaluate (tray.evaluate e).1.expression).1
    again.outcome = result.outcome ∧ again.rolls = result.rolls ∧
    (tray'.evaluate (tray.evaluate e).1.expression).2 = (tray'.evaluate e).2 ∧
    (result.failed = false → again.tokens = result.tokens) := by
  intro result again
  obtain ⟨x, hx⟩ := run_ok_of_evaluate h
  have hleft : (tray.evaluate e).1.tokens =
      ((Program.ofTokens e.tokens).run tray.reset).rolls.foldl annotateRoll e.tokens := by
    simp only [evaluate, annotate, hx]
  have hmeaning : e.tokens.map Token.meaning =
      (tray.evaluate e).1.expression.tokens.map Token.meaning := by
    rw [Evaluation.expression, hleft, map_meaning_annotateRolls]
  have hagain := evaluate_congr hmeaning tray'
  refine ⟨congrArg (·.1.outcome) hagain, congrArg (·.1.rolls) hagain, congrArg (·.2) hagain, ?_⟩
  intro hok
  obtain ⟨y, hy⟩ := run_ok_of_evaluate hok
  have hextents : ((Program.ofTokens e.tokens).run tray.reset).rolls.map RollEvent.extent =
      ((Program.ofTokens e.tokens).run tray'.reset).rolls.map RollEvent.extent :=
    ((Program.run_extents _ tray.reset).2 x hx).trans
      ((Program.run_extents _ tray'.reset).2 y hy).symm
  have htokens : again.tokens = annotate (tray.evaluate e).1.tokens
      ((Program.ofTokens e.tokens).run tray'.reset).rolls
      ((Program.ofTokens e.tokens).run tray'.reset).result := congrArg (·.1.tokens) hagain
  have htokens' : result.tokens =
      ((Program.ofTokens e.tokens).run tray'.reset).rolls.foldl annotateRoll e.tokens := by
    simp only [result, evaluate, annotate, hy]
  rw [htokens, htokens', hleft, hy]
  exact annotateRolls_again hextents e.tokens

/-- Dice in dice, which end at one token, evaluated twice. -/
theorem evaluate_again_nested :
    let tray : Tray Roller.Stepping := ⟨some 9, 0, ⟨3, 1⟩⟩
    let tray' : Tray Roller.Stepping := ⟨none, 5, ⟨2, 3⟩⟩
    let e := Expression.scan "dd6 - 2d(1d4)"
    let result := (tray.evaluate e).1
    let again := (tray'.evaluate result.expression).1
    result.failed = false ∧ result.outcome = .ok (.int (-1)) ∧ (tray'.evaluate e).1.failed = false ∧
      again.outcome = .ok (.int (-4)) ∧ again.tokens = (tray'.evaluate e).1.tokens := by
  intro tray tray' e result again
  have hok : result.failed = false := by decide +kernel
  have hok' : (tray'.evaluate e).1.failed = false := by decide +kernel
  obtain ⟨houtcome, -, -, htokens⟩ := evaluate_again hok tray'
  refine ⟨hok, by decide +kernel, hok', houtcome.trans ?_, htokens hok'⟩
  decide +kernel

end Tray

/-! ## After a failure -/

theorem lastRecord?_append (p : RollEvent → Bool) (first second : List RollEvent) :
    lastRecord? p (first ++ second) = (lastRecord? p second).or (lastRecord? p first) := by
  induction first with
  | nil => rw [List.nil_append, lastRecord?_nil, Option.or_none]
  | cons event first ih =>
    rw [List.cons_append, lastRecord?_cons, ih, lastRecord?_cons, Option.or_assoc]

/-- The last of the first rolls at an index is the last of all, if no later roll
has an index of theirs. -/
theorem lastRecord?_of_first {place : RollEvent → Nat} {first later : List RollEvent}
    (hapart : ∀ x ∈ first, ∀ y ∈ later, place x ≠ place y) (index : Nat)
    (before : Option RollRecord) :
    (lastRecord? (place · = index) first).or
        ((lastRecord? (place · = index) (first ++ later)).or before) =
      (lastRecord? (place · = index) (first ++ later)).or before := by
  rw [lastRecord?_append]
  cases hfirst : lastRecord? (place · = index) first with
  | none => rfl
  | some record =>
    obtain ⟨x, hx, hxi, -⟩ := exists_of_lastRecord? hfirst
    have hlater : lastRecord? (place · = index) later = none := by
      rw [← Option.not_isSome_iff_eq_none, isSome_lastRecord?, List.any_eq_true]
      rintro ⟨y, hy, hyi⟩
      exact hapart x hx y hy ((of_decide_eq_true hxi).trans (of_decide_eq_true hyi).symm)
    rw [hlater]
    rfl

namespace Tray

/-- The first rolls of an evaluation are at its tokens already, if the later
ones are made by other dice and end at other tokens. -/
theorem annotateRolls_first {tray : Tray σ} {e : Expression} {first later : List RollEvent}
    (h : ((Program.ofTokens e.tokens).run tray.reset).rolls = first ++ later)
    (hoperators : ∀ x ∈ first, ∀ y ∈ later, x.operator ≠ y.operator)
    (hends : ∀ x ∈ first, ∀ y ∈ later, x.operandEnd ≠ y.operandEnd) :
    first.foldl annotateRoll (tray.evaluate e).1.tokens = (tray.evaluate e).1.tokens := by
  apply List.ext_getElem?
  intro index
  have hroll := tray.evaluate_roll e index
  have hresult := tray.evaluate_rollResult e index
  rw [h] at hroll hresult
  rw [getElem?_annotateRolls]
  cases ht : (tray.evaluate e).1.tokens[index]? with
  | none => rfl
  | some t =>
    rw [ht, Option.map_some] at hroll hresult
    obtain ⟨old, hold, holdroll⟩ := Option.map_eq_some_iff.1 hroll.symm
    rw [hold, Option.map_some, Option.some.injEq] at hresult
    have hsame : t.afterRolls index first = t := by
      rw [Token.afterRolls, ← holdroll, hresult, lastRecord?_of_first hoperators,
        lastRecord?_of_first hends, holdroll, ← hresult]
    rw [Option.map_some, hsame]

/-- A token gains an error from a run that fails and blames it. -/
theorem run_of_gainsError {tray : Tray σ} {e : Expression} {index : Nat} {mark : TokenError}
    (h : GainsError e.tokens (tray.evaluate e).1.tokens index mark) :
    ∃ why, ((Program.ofTokens e.tokens).run tray.reset).result = .error why ∧
      why.mark? = some (index, mark) := by
  have hblamed := (tray.gainsError_iff e index mark).1 h
  cases houtcome : (tray.evaluate e).1.outcome with
  | ok x =>
    rw [houtcome] at hblamed
    cases hblamed
  | error why =>
    rw [houtcome] at hblamed
    exact ⟨why, (tray.evaluate_outcome_eq_error e why).1 houtcome, hblamed⟩

/-- What a failure left means the same up to the token that gained the error,
which cannot be read. -/
theorem meaning_of_gainsError {tray : Tray σ} {e : Expression} {index : Nat} {mark : TokenError}
    (h : GainsError e.tokens (tray.evaluate e).1.tokens index mark) :
    ∃ t rest, t.symbol = .error (.lexical mark.message) ∧ (e.tokens.take index).length = index ∧
      (e.tokens.take index ++ t :: rest).map Token.meaning =
        (tray.evaluate e).1.tokens.map Token.meaning := by
  obtain ⟨why, hwhy, hmark⟩ := run_of_gainsError h
  let rolled := ((Program.ofTokens e.tokens).run tray.reset).rolls.foldl annotateRoll e.tokens
  have hleft : (tray.evaluate e).1.tokens = rolled.modify index (Token.mark · mark) := by
    simp only [evaluate, annotate, hwhy, annotateError, hmark, rolled]
  have hlength : rolled.length = e.tokens.length := length_annotateRolls ..
  obtain ⟨t, ht, herror⟩ := Option.map_eq_some_iff.1 h.2
  obtain ⟨hindex, hget⟩ := List.getElem?_eq_some_iff.1 ht
  have hbefore : (tray.evaluate e).1.tokens.take index = rolled.take index := by
    rw [hleft, List.take_modify, List.modify_eq_self (List.length_take_le ..)]
  refine ⟨t, (tray.evaluate e).1.tokens.drop (index + 1), ?_, ?_, ?_⟩
  · simp only [Token.symbol, herror]
  · rw [hleft, List.length_modify, hlength] at hindex
    exact List.length_take_of_le (Nat.le_of_lt hindex)
  · have hsplit := (List.take_append_drop index (tray.evaluate e).1.tokens).symm
    rw [List.drop_eq_getElem_cons hindex, hget] at hsplit
    have hfirst : (e.tokens.take index).map Token.meaning =
        ((tray.evaluate e).1.tokens.take index).map Token.meaning := by
      rw [hbefore, List.map_take, List.map_take, map_meaning_annotateRolls]
    rw [List.map_append, hfirst, ← List.map_append]
    exact congrArg (List.map Token.meaning) hsplit.symm

/-- The token that a failure blames had been looked at, and nothing before it
has changed its meaning. -/
theorem ofTokens_of_gainsError {tray : Tray σ} {e : Expression} {index : Nat} {mark : TokenError}
    (h : GainsError e.tokens (tray.evaluate e).1.tokens index mark) :
    ∃ t rest, t.symbol = .error (.lexical mark.message) ∧
      Program.ofTokens (tray.evaluate e).1.tokens =
        Program.ofTokens (e.tokens.take index ++ t :: rest) ∧
      (e.tokens.take index).length ≤
        ((Program.ofTokens (e.tokens.take index ++ e.tokens.drop index)).run tray.reset).seen := by
  obtain ⟨why, hwhy, hmark⟩ := run_of_gainsError h
  obtain ⟨t, rest, hsymbol, hlength, hmeaning⟩ := meaning_of_gainsError h
  refine ⟨t, rest, hsymbol, Program.ofTokens_congr hmeaning.symm, ?_⟩
  rw [hlength, List.take_append_drop]
  exact Nat.le_of_lt (Program.run_passed hwhy hmark)

/-- What a failure left cannot be read. -/
theorem verdict_of_gainsError {tray : Tray σ} {e : Expression} {index : Nat} {mark : TokenError}
    (h : GainsError e.tokens (tray.evaluate e).1.tokens index mark) :
    (Program.ofTokens (tray.evaluate e).1.tokens).verdict = .error (.lexical mark.message) := by
  obtain ⟨t, rest, hsymbol, hprogram, hseen⟩ := ofTokens_of_gainsError h
  obtain ⟨before, -, hstopped, -⟩ := Program.ofTokens_unreadable hsymbol
    (Nat.le_trans hseen (Program.runSteps_seen_le _ tray.reset)) rest
  rw [hprogram, hstopped]
  rfl

/-- A run of what a failure left makes the first rolls of the run that failed. The others are made
by other dice, and their operands end at other tokens. -/
theorem rolls_of_gainsError {tray : Tray σ} {e : Expression} {index : Nat} {mark : TokenError}
    (h : GainsError e.tokens (tray.evaluate e).1.tokens index mark) :
    let run := (Program.ofTokens e.tokens).run tray.reset
    let run' := (Program.ofTokens (tray.evaluate e).1.tokens).run tray.reset
    run'.result = .error (.lexical mark.message) ∧ ∃ later, run.rolls = run'.rolls ++ later ∧
      (∀ x ∈ run'.rolls, ∀ y ∈ later, x.operator ≠ y.operator) ∧
      ∀ x ∈ run'.rolls, ∀ y ∈ later, x.operandEnd ≠ y.operandEnd := by
  intro run run'
  obtain ⟨t, rest, hsymbol, hprogram, hseen⟩ := ofTokens_of_gainsError h
  obtain ⟨hresult, later, hrolls, hkept, hlater⟩ := Program.run_unreadable hsymbol hseen rest
  rw [← hprogram] at hresult hrolls hkept
  rw [List.take_append_drop] at hrolls
  refine ⟨hresult, later, hrolls, ?_, ?_⟩
  · intro x hx y hy
    have hnodup := (Program.run_ordered e.tokens tray.reset).1.nodup_operators
    rw [List.map_map, hrolls, List.map_append] at hnodup
    exact (List.nodup_append.1 hnodup).2.2 _ (List.mem_map_of_mem hx) _ (List.mem_map_of_mem hy)
  · intro x hx y hy
    have := hkept x hx
    have := hlater y hy
    omega

/-- **A failure is met again.** Evaluated again from the same state, what a failure left at a token
brings a failure with the message that was left there: no token changes, and the rolls are the first
of those that were made before. With any other roller, state or ceiling it brings a failure too. -/
theorem evaluate_sticky {tray : Tray σ} {e : Expression} {index : Nat} {mark : TokenError}
    (h : GainsError e.tokens (tray.evaluate e).1.tokens index mark) :
    let result := (tray.evaluate e).1
    (∀ tray' : Tray σ, tray'.ceiling = tray.ceiling → tray'.roller = tray.roller →
      let again := (tray'.evaluate result.expression).1
      again.outcome = .error (.lexical mark.message) ∧ again.errorText = mark.message ∧
        again.tokens = result.tokens ∧ again.rolls <+: result.rolls) ∧
    ∀ {τ : Type} [Roller τ] (tray' : Tray τ),
      (tray'.evaluate result.expression).1.failed = true := by
  intro result
  constructor
  · intro tray' hceiling hroller again
    obtain ⟨hresult, later, hrolls, hoperators, hends⟩ := rolls_of_gainsError h
    have hagain : again = (tray.evaluate result.expression).1 := by
      simp only [again, evaluate, reset, hceiling, hroller]
    have houtcome : again.outcome = .error (.lexical mark.message) := by
      rw [hagain]
      exact (tray.evaluate_outcome_eq_error result.expression _).2 hresult
    rw [hagain] at houtcome ⊢
    refine ⟨houtcome, ?_, ?_, ?_⟩
    · simp only [Evaluation.errorText, houtcome]
      rfl
    · show annotate result.tokens ((Program.ofTokens result.tokens).run tray.reset).rolls
        ((Program.ofTokens result.tokens).run tray.reset).result = result.tokens
      rw [hresult]
      exact annotateRolls_first hrolls hoperators hends
    · show ((Program.ofTokens result.tokens).run tray.reset).rolls.map RollEvent.record <+:
        ((Program.ofTokens e.tokens).run tray.reset).rolls.map RollEvent.record
      rw [hrolls, List.map_append]
      exact List.prefix_append _ _
  · intro τ _ tray'
    obtain ⟨why, hfailed, -⟩ := Program.run_of_verdict (verdict_of_gainsError h) tray'.reset
    have houtcome := (tray'.evaluate_outcome_eq_error result.expression why).2 hfailed
    simp only [Evaluation.failed, houtcome]

/-- The division fails after both rolls. The second time it is looked at before
the first roll is made, and found to be wrong. -/
theorem evaluate_sticky_division :
    let tray : Tray Roller.Stepping := ⟨some 9, 0, ⟨3, 1⟩⟩
    let e := Expression.scan "2d6 - 1d6 / (d4 * 0)"
    let result := (tray.evaluate e).1
    let again := (tray.evaluate result.expression).1
    GainsError e.tokens result.tokens 7 .zeroDivision ∧
      result.rolls = [⟨.int 6, [3, 4]⟩, ⟨.int 6, [5]⟩, ⟨.int 4, [2]⟩] ∧
      again.rolls = [⟨.int 6, [3, 4]⟩] ∧
      again.errorText = "Cannot divide by zero." ∧ again.tokens = result.tokens ∧
      ((⟨none, 0, ⟨1, 1⟩⟩ : Tray Roller.Stepping).evaluate result.expression).1.failed = true := by
  intro tray e result again
  have hgains : GainsError e.tokens result.tokens 7 .zeroDivision :=
    ⟨by decide +kernel, by decide +kernel⟩
  obtain ⟨hsame, hother⟩ := evaluate_sticky hgains
  obtain ⟨-, htext, htokens, -⟩ := hsame tray rfl rfl
  exact ⟨hgains, by decide +kernel, by decide +kernel, htext, htokens, hother _⟩

end Tray

end DiceNotation
