import DiceNotation.Proofs.Grammar

/-!
# DiceNotation.Proofs.Annotations

What an evaluation writes on the tokens of its expression, and what it leaves alone.

* `map_annotate`: what neither an error nor a roll changes stays as it was at every token;
* `GainsError`, `Tray.gainsError_iff`: a token gains an error if the outcome blames it, and no other
  token does;
* `Tray.evaluate_frame`: so an evaluation adds its one error and touches nothing else of the input.

An error is never lost to one that was there before: the token to blame has been read, and a token
that carries an error is not read (`EvalError.Placed.error_eq_none`).
-/

namespace DiceNotation

variable {σ α : Type}

/-! ## What is left alone -/

/-- What a mark does not change at any token, an error leaves. -/
theorem map_annotateError {f : Token → α} (hmark : ∀ t mark, f (t.mark mark) = f t)
    (tokens : List Token) (e : EvalError) : (annotateError tokens e).map f = tokens.map f := by
  unfold annotateError
  split
  · apply List.ext_getElem?
    intro i
    simp only [List.getElem?_map, List.getElem?_modify]
    cases tokens[i]? with
    | none => rfl
    | some t => simp only [Option.map_some]; split <;> simp [hmark]
  · rfl

/-- What neither an error nor a roll changes at any token, a run leaves. -/
theorem map_annotate {f : Token → α} (hmark : ∀ t mark, f (t.mark mark) = f t)
    (hroll : ∀ t r, f (t.withRoll r) = f t) (hresult : ∀ t r, f (t.withRollResult r) = f t)
    (tokens : List Token) (rolls : List RollEvent) (result : Except EvalError Number) :
    (annotate tokens rolls result).map f = tokens.map f := by
  have hrolls := map_annotateRolls hroll hresult tokens rolls
  unfold annotate
  cases result with
  | ok x => exact hrolls
  | error e => exact (map_annotateError hmark _ e).trans hrolls

/-! ## Errors that are gained -/

/-- A token that had no error got one. -/
def GainsError (before after : List Token) (index : Nat) (error : TokenError) : Prop :=
  before[index]?.map Token.error = some none ∧ after[index]?.map Token.error = some (some error)

/-- The token that a result blames, and the error that it leaves there. -/
def blamed? (result : Except EvalError α) : Option (Nat × TokenError) :=
  match result with
  | .ok _ => none
  | .error e => e.mark?

/-- A result replaces the error at the token that it blames. -/
theorem blame_eq (result : Except EvalError α) (errors : List (Option TokenError)) :
    blame result errors =
      match blamed? result with
      | some (index, mark) => errors.set index (some mark)
      | none => errors := by
  cases result <;> rfl

section

variable {result : Except EvalError α} {errors : List (Option TokenError)}
  (hfree : ∀ index mark, blamed? result = some (index, mark) → errors[index]? = some none)

include hfree

/-- The errors after a result differ from those before it at the token that is blamed. -/
theorem gains_blame_iff (index : Nat) (error : TokenError) :
    errors[index]? = some none ∧ (blame result errors)[index]? = some (some error) ↔
      blamed? result = some (index, error) := by
  -- Where nobody is blamed the errors are as before, and none is both there and not.
  have hsame : ¬ (errors[index]? = some none ∧ errors[index]? = some (some error)) := by
    rintro ⟨hnone, hsome⟩
    rw [hnone] at hsome
    cases hsome
  rw [blame_eq]
  cases hblamed : blamed? result with
  | none => simpa using hsame
  | some place =>
    obtain ⟨blamed, mark⟩ := place
    have hnone := hfree blamed mark hblamed
    by_cases hindex : blamed = index
    · subst hindex
      simp [hnone, List.getElem?_set_self', eq_comm]
    · simp only [List.getElem?_set_ne hindex, Option.some.injEq, Prod.mk.injEq, hindex, false_and,
        iff_false]
      exact hsame

/-- An error that was there is not replaced. -/
theorem blame_keeps {index : Nat} {error : TokenError} (h : errors[index]? = some (some error)) :
    (blame result errors)[index]? = some (some error) := by
  rw [blame_eq]
  cases hblamed : blamed? result with
  | none => exact h
  | some place =>
    obtain ⟨blamed, mark⟩ := place
    have hne : blamed ≠ index := by
      rintro rfl
      rw [hfree blamed mark hblamed] at h
      cases h
    show (errors.set blamed (some mark))[index]? = _
    rw [List.getElem?_set_ne hne, h]

end

variable [Roller σ]

namespace Tray

/-- The token that an evaluation blames had no error. -/
theorem blamed?_free (tray : Tray σ) (e : Expression) {index : Nat} {mark : TokenError}
    (h : blamed? (tray.evaluate e).1.outcome = some (index, mark)) :
    (e.tokens.map Token.error)[index]? = some none := by
  cases houtcome : (tray.evaluate e).1.outcome with
  | ok x => simp [houtcome, blamed?] at h
  | error why =>
    have hplaced := Program.run_placed e.tokens tray.reset why
      ((tray.evaluate_outcome_eq_error e why).1 houtcome)
    rw [houtcome] at h
    rw [List.getElem?_map]
    exact hplaced.error_eq_none h

/-- **Which token gains which error**: the one that the outcome blames, and no other. -/
theorem gainsError_iff (tray : Tray σ) (e : Expression) (index : Nat) (error : TokenError) :
    GainsError e.tokens (tray.evaluate e).1.tokens index error ↔
      blamed? (tray.evaluate e).1.outcome = some (index, error) := by
  rw [GainsError, ← List.getElem?_map, ← List.getElem?_map, tray.evaluate_errors e]
  exact gains_blame_iff (fun _ _ => tray.blamed?_free e) index error

/-- **An evaluation adds its error and touches nothing else.** The tokens stay in their places with
their kinds, values and spans, and no error that was there is replaced. No token gains an error if
the evaluation succeeds, or fails without a place to blame. Otherwise exactly one token does: the
one read last for a value that does not fit, an opening parenthesis, a division, or dice. -/
theorem evaluate_frame (tray : Tray σ) (e : Expression) :
    let run := (Program.ofTokens e.tokens).run tray.reset
    let result := (tray.evaluate e).1
    let gains := GainsError e.tokens result.tokens
    result.text = e.text ∧
    result.tokens.map (fun t => (t.kind, t.value, t.span)) =
      e.tokens.map (fun t => (t.kind, t.value, t.span)) ∧
    (∀ (index : Nat) (error : TokenError), e.tokens[index]?.map Token.error = some (some error) →
      result.tokens[index]?.map Token.error = some (some error)) ∧
    match result.outcome with
    | .error (.unexpectedValue index) =>
      index + 1 = run.seen ∧
        ∀ i error, gains i error ↔ i = index ∧ error = TokenError.unexpectedValue
    | .error (.unclosedGroup index) =>
      Reads e.tokens index (.operator .leftParen) ∧
        ∀ i error, gains i error ↔ i = index ∧ error = TokenError.missingParen
    | .error (.zeroDivision index) =>
      Reads e.tokens index (.operator .div) ∧
        ∀ i error, gains i error ↔ i = index ∧ error = TokenError.zeroDivision
    | .error (.roll index .tooManyRolls) =>
      ReadsDice e.tokens index ∧
        ∀ i error, gains i error ↔ i = index ∧ error = TokenError.tooManyRolls
    | .ok _ | .error (.roll _ .noFaces) | .error .unexpectedEnd | .error (.lexical _)
    | .error .unreadable | .error .tooDeep | .error .notFinite | .error .missingOperand =>
      ∀ i error, ¬ gains i error := by
  intro run result gains
  have hgains : ∀ i error, gains i error ↔ blamed? result.outcome = some (i, error) :=
    tray.gainsError_iff e
  have hplaced : ∀ why, result.outcome = .error why → why.Placed e.tokens run.seen := fun why h =>
    Program.run_placed e.tokens tray.reset why ((tray.evaluate_outcome_eq_error e why).1 h)
  refine ⟨rfl, map_annotate (fun _ _ => rfl) (fun _ _ => rfl) (fun _ _ => rfl) _ _ _, ?_, ?_⟩
  · intro index error herror
    rw [← List.getElem?_map] at herror ⊢
    rw [tray.evaluate_errors e]
    exact blame_keeps (fun _ _ => tray.blamed?_free e) herror
  · have hnone : blamed? result.outcome = none → ∀ i error, ¬ gains i error := by
      intro h i error hgain
      rw [hgains, h] at hgain
      cases hgain
    have hone : ∀ {index mark}, blamed? result.outcome = some (index, mark) →
        ∀ i error, gains i error ↔ i = index ∧ error = mark := by
      intro index mark h i error
      rw [hgains, h, Option.some.injEq, Prod.mk.injEq, eq_comm, @eq_comm _ mark]
    cases houtcome : result.outcome with
    | ok x => exact hnone (by rw [houtcome]; rfl)
    | error why =>
      have hwhy := hplaced why houtcome
      rw [houtcome] at hnone hone
      cases why with
      | unexpectedValue index => exact ⟨hwhy.1, hone rfl⟩
      | unclosedGroup index => exact ⟨hwhy, hone rfl⟩
      | zeroDivision index => exact ⟨hwhy, hone rfl⟩
      | roll index cause =>
        cases cause with
        | tooManyRolls => exact ⟨hwhy, hone rfl⟩
        | noFaces => exact hnone rfl
      | unexpectedEnd => exact hnone rfl
      | lexical message => exact hnone rfl
      | unreadable => exact hnone rfl
      | tooDeep => exact hnone rfl
      | notFinite => exact hnone rfl
      | missingOperand => exact hnone rfl

end Tray

end DiceNotation
