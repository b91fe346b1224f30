import DiceNotation.Proofs.Grammar
import DiceNotation.Proofs.Shifting.Reading
import DiceNotation.Proofs.Tree.Reading
import DiceNotation.Roller.Stepping

/-!
# DiceNotation.Proofs.WrittenProduct

A product with a group may be written out. A sign put in before a parenthesis that follows an
operand changes nothing but the indices of the tokens from there on (`Tray.evaluate_signed`).

The reader takes different ways. Without the sign the group waits in a frame of its own kind, and
its product holds no level; with the sign it is the right operand of an operator, and is one level
deeper. The two readers are kept in step by a relation of their frames (`Frame.Alike`) in which a
product that is not written out corresponds to one that is.

* `Program.Rewritten`: programs that differ by indices, unless the one with the sign is too deep;
* `Program.lockstep_rewritten`: a token that both read, before the parenthesis or after it;
* `Program.read_sign`: the sign and the parenthesis;
* `Program.Rewritten.runOn`: rewritten programs run alike.
-/

namespace DiceNotation

variable {i : Nat}

/-! ## Reading -/

namespace Program

/-- Programs that are the same by shifted indices, unless the second ends
because expressions are nested too deeply. -/
inductive Rewritten (i : Nat) : Program → Program → Prop
  | stop (e : EvalError) (seen : Nat) :
      Rewritten i (.stop e seen) (.stop (e.shift i) (shiftSeen i seen))
  | finish (seen : Nat) : Rewritten i (.finish seen) (.finish (shiftSeen i seen))
  | tooDeep (p : Program) (seen : Nat) : Rewritten i p (.stop .tooDeep seen)
  | after {p p' : Program} {steps steps' : List Step} : List.Forall₂ (Step.Alike i) steps steps' →
      Rewritten i p p' → Rewritten i (p.after steps) (p'.after steps')

theorem Rewritten.stop_same {e : EvalError} (h : e.shift i = e) (seen : Nat) :
    Rewritten i (Program.stop e seen) (.stop e (shiftSeen i seen)) := by
  have hstop := Rewritten.stop (i := i) e seen
  rwa [h] at hstop

theorem Shifted.rewritten {p p' : Program} (h : Shifted i p p') : Rewritten i p p' := by
  induction h with
  | stop e seen => exact .stop e seen
  | finish seen => exact .finish seen
  | after hsteps _ ih => exact .after hsteps ih

/-- **The readers with and without the sign stay in step**, unless the one with it is too deep. -/
theorem lockstep_rewritten (i : Nat) (scope : Scope) :
    Lockstep i scope (List.Forall₂ (Frame.Alike i)) (Rewritten i) := by
  intro frames frames' index tokens tokens' mode hframes hindex htokens hnext
  by_cases hadmits : mode = .operand → scope.admits frames' = true
  · -- The frames without the sign make no more levels.
    have hsame : mode = .operand → scope.admits frames' = scope.admits frames := fun hmode =>
      (hadmits hmode).trans (Scope.admits_alike hframes (hadmits hmode)).symm
    rcases read_cases scope mode frames index tokens with
      hhalt | ⟨token, rest, steps, mode', frames₁, rfl, hmove, hrest, hread⟩
    · exact (hhalt.shifted hframes hsame hindex htokens).rewritten
    · obtain ⟨steps', frames₁', hmove', hsteps, hframes₁, -⟩ := hmove.alike hframes hsame hindex
      cases htokens with
      | @cons _ _ rest' hsame =>
        rw [hread, read_of_move hmove' (hsame.trans hrest)]
        exact .after hsteps (hnext token rest rest' steps mode' _ _ rfl rfl hmove hframes₁)
  · obtain ⟨rfl, hdeep⟩ := Classical.not_imp.1 hadmits
    replace hdeep : scope.admits frames' = false := by simpa using hdeep
    rw [read_of_halt (.tooDeep hdeep)]
    exact .tooDeep _ _

/-- **The sign and the parenthesis.** Where a group is read that is to be
multiplied with the operand before it, the reader with the sign has two tokens
to consume. It comes to the same frames, but for the product. -/
theorem read_sign (scope : Scope) {frames frames' : List Frame}
    (hframes : List.Forall₂ (Frame.Alike i) frames frames') {paren star : Token}
    (hparen : paren.symbol = .ok (.operator .leftParen))
    (hstar : star.symbol = .ok (.operator .mul)) (rest : List Token) :
    Rewritten i (read scope .operator frames i (paren :: rest))
      (read scope .operator frames' i (star :: paren :: rest)) := by
  have hseen : i = shiftSeen i i := (shiftSeen_of_le (Nat.le_refl i)).symm
  have hnext : i + 1 + 1 = shiftSeen i (i + 1) := (shiftSeen_of_lt (Nat.lt_succ_self i)).symm
  have hheld := Frame.held_alike hframes productPower
  have hsteps := Frame.steps_alike (Frame.released_alike hframes productPower) hseen
  have hempty := Frame.held_nil_of_alike hframes productPower
  have hlook : obstacle? (paren :: rest) = none := by simp only [obstacle?, hparen]
  by_cases hout : Frame.held productPower frames = [] ∧ productPower ≤ scope.power
  · rw [read_of_halt (.outside hparen rfl hout.1 hout.2),
      read_of_halt (.outside hstar rfl (hempty.2 hout.1) hout.2)]
    refine .after hsteps ?_
    have hfinish := Rewritten.finish (i := i) i
    rwa [← hseen] at hfinish
  · have hinside : Frame.held productPower frames = [] → scope.power < productPower :=
      fun hnil => Nat.lt_of_not_le fun hle => hout ⟨hnil, hle⟩
    have hinside' : Frame.held productPower frames' = [] → scope.power < productPower :=
      fun hnil => hinside (hempty.1 hnil)
    have hmul : Operator.mul.continuing? i = some (productPower, .binary .mul i) := rfl
    have hproduct : Operator.leftParen.continuing? i = some (productPower, .product i) := rfl
    rw [read_of_move (.continuing hstar hmul hinside') hlook]
    cases hrest : obstacle? rest with
    | some e =>
      rw [read_of_halt (.blockedOperator hparen hproduct hinside hrest)]
      refine .after hsteps ?_
      cases hadmits : scope.admits (.binary .mul i :: Frame.held productPower frames') with
      | false =>
        rw [read_of_halt (.tooDeep hadmits)]
        exact .tooDeep _ _
      | true =>
        rw [read_of_halt (.blocked hadmits hparen hrest), hnext]
        exact .stop_same (obstacle?_shift hrest i) (i + 1)
    | none =>
      rw [read_of_move (.continuing hparen hproduct hinside) hrest]
      refine .after hsteps ?_
      cases hadmits : scope.admits (.binary .mul i :: Frame.held productPower frames') with
      | false =>
        rw [read_of_halt (.tooDeep hadmits)]
        exact .tooDeep _ _
      | true =>
        -- The group of a factor is taken for a group for which a product waits.
        rw [read_of_move (.opening hadmits hparen rfl) hrest, read, readOperand_product]
        have hgroup : Frame.Alike i (.group i) (.group (i + 1)) := by
          have hgroup := Frame.Alike.group (i := i) i
          rwa [shiftIndex_of_le (Nat.le_refl i)] at hgroup
        exact (lockstep_rewritten i scope).beyond rest .operand
          (.cons hgroup (.cons (.written i i) hheld)) (Nat.lt_succ_self i)

end Program

/-! ## Running -/

variable {σ : Type} [Roller σ]

namespace Program

/-- **Rewritten programs run alike**, unless the second fails because expressions are nested too
deeply. -/
theorem Rewritten.runOn {p p' : Program} (h : Rewritten i p p') (hi : 0 < i) (stack : List Number)
    (tray : Tray σ) (hdeep : (p'.runOn stack tray).result ≠ .error .tooDeep) :
    p'.runOn stack tray = (p.runOn stack tray).shift i := by
  induction h generalizing stack tray with
  | stop e seen => rfl
  | finish seen => cases stack <;> rfl
  | tooDeep p seen => exact absurd rfl hdeep
  | @after p p' steps steps' hsteps _ ih =>
    rw [runOn_after p' steps' (shiftSeen i 0), runSteps_alike hsteps fun _ _ => .inl hi] at hdeep ⊢
    rw [runOn_after p steps 0, Run.shift_bind]
    generalize runSteps 0 steps stack tray = first at hdeep ⊢
    obtain ⟨result, rolls, seen, tray'⟩ := first
    cases result with
    | error e => rfl
    | ok stack' => exact congrArg (Run.after · _) (ih stack' tray' hdeep)

/-- **The run with the sign** is the run without it, by shifted indices. -/
theorem run_signed {tokens : List Token} {index : Nat} {star : Token}
    (hparen : Reads tokens (index + 1) (.operator .leftParen))
    (hlast : tokens[index]?.any (·.value.endsOperand) = true)
    (hstar : star.symbol = .ok (.operator .mul)) (tray : Tray σ)
    (hdeep : ((ofTokens (tokens.insertIdx (index + 1) star)).run tray).result ≠ .error .tooDeep) :
    (ofTokens (tokens.insertIdx (index + 1) star)).run tray =
      ((ofTokens tokens).run tray).shift (index + 1) := by
  obtain ⟨paren, hat, hsymbol⟩ := Option.map_eq_some_iff.1 hparen
  obtain ⟨hlt, rfl⟩ := List.getElem?_eq_some_iff.1 hat
  have hdrop := List.drop_eq_getElem_cons hlt
  have hrewritten : Rewritten (index + 1) (ofTokens tokens)
      (ofTokens (tokens.insertIdx (index + 1) star)) := by
    -- The sign is come to after an operand.
    refine (lockstep_rewritten (index + 1) .whole).ofTokens .nil hlt ?_ (Q := fun mode _ =>
      mode = .operator) nofun ?_ ?_
    · rw [hdrop]
      simp only [obstacle?, hstar, hsymbol]
    · intro last _ hat' _ _ _ _ _ _ hmove
      rw [Nat.add_sub_cancel] at hat'
      rw [hat', Option.any_some] at hlast
      exact hmove.endsOperand_iff.1 hlast
    · rintro _ frames frames' hframes rfl
      rw [hdrop]
      exact read_sign .whole hframes hsymbol hstar _
  exact hrewritten.runOn (Nat.succ_pos index) [] tray hdeep

end Program

/-! ## Evaluating -/

/-- Operators are free of errors when a text is split. -/
theorem Expression.error_of_scan {text : String} {t : Token}
    (ht : t ∈ (Expression.scan text).tokens) {op : Operator} (hop : t.value = .operator op) :
    t.error = none := by
  obtain ⟨⟨span, run⟩, -, hrun⟩ := List.mem_filterMap.1 ht
  replace hrun : Token.ofRun? span run = some t := hrun
  unfold Token.ofRun? at hrun
  split at hrun
  · cases hrun
  · split at hrun
    · cases hrun
    · cases hrun
      rfl
    · cases hrun
      unfold Token.ofNumeric at hop ⊢
      split at hop <;> cases hop
    · cases hrun
      cases hop

namespace Tray

/-- **A product with a group may be written out.** Let a parenthesis follow a number or a closing
parenthesis in a text. With the sign of a product put in between, the expression has the same value
or fails for the same reason, makes the same rolls, leaves the tray as it would have been, and has
the same annotations at the same tokens and none at the sign; only the indices are others. The one
exception is that it may be nested too deeply. -/
theorem evaluate_signed (tray : Tray σ) (text text' : String) (index : Nat) (star : Token)
    (hparen : (Expression.scan text).tokens[index + 1]?.map Token.value =
      some (.operator .leftParen))
    (hlast : (Expression.scan text).tokens[index]?.any (·.value.endsOperand) = true)
    (hstar : star.value = .operator .mul) (herror : star.error = none)
    (hdeep : (tray.evaluate
      ⟨text', (Expression.scan text).tokens.insertIdx (index + 1) star⟩).1.outcome ≠
        .error .tooDeep) :
    let result := tray.evaluate (.scan text)
    let result' := tray.evaluate ⟨text', (Expression.scan text).tokens.insertIdx (index + 1) star⟩
    result'.1.outcome = result.1.outcome.mapError (EvalError.shift (index + 1)) ∧
    result'.1.errorText = result.1.errorText ∧
    result'.1.rolls = result.1.rolls ∧
    result'.1.tokens = result.1.tokens.insertIdx (index + 1) star ∧
    result'.2 = result.2 := by
  have hreads : Reads (Expression.scan text).tokens (index + 1) (.operator .leftParen) := by
    obtain ⟨paren, hat, hvalue⟩ := Option.map_eq_some_iff.1 hparen
    have herror := Expression.error_of_scan (List.mem_of_getElem? hat) hvalue
    rw [Reads, hat, Option.map_some, Token.symbol_of_value hvalue herror]
  refine tray.evaluate_insertIdx text text' _ (index + 1) star ?_
  apply Program.run_signed hreads hlast (Token.symbol_of_value hstar herror)
  intro hfailed
  exact hdeep ((tray.evaluate_outcome_eq_error _ _).2 hfailed)

/-- The sign in a divisor with a roll, before a power and a division that fails. -/
theorem evaluate_signed_power :
    let tray : Tray Roller.Stepping := ⟨some 9, 0, ⟨3, 1⟩⟩
    let star : Token := ⟨.operator .mul, ⟨3, 3⟩, .operator, none, none, none⟩
    let result := tray.evaluate (.scan "6/2(d4)^2 - 1/0")
    let result' := tray.evaluate ⟨"", (Expression.scan "6/2(d4)^2 - 1/0").tokens.insertIdx 3 star⟩
    result.1.outcome = .error (.zeroDivision 11) ∧
      result'.1.outcome = .error (.zeroDivision 12) ∧
      result'.1.rolls = [⟨.int 4, [3]⟩] ∧ result'.1.tokens = result.1.tokens.insertIdx 3 star := by
  intro tray star result result'
  have hsigned := tray.evaluate_signed "6/2(d4)^2 - 1/0" "" 2 star
    (by decide +kernel) (by decide +kernel) rfl rfl (by decide +kernel)
  obtain ⟨houtcome, -, hrolls, htokens, -⟩ := hsigned
  have hfailed : result.1.outcome = .error (.zeroDivision 11) := by decide +kernel
  refine ⟨hfailed, ?_, ?_, htokens⟩
  · exact houtcome.trans (congrArg _ hfailed)
  · exact hrolls.trans (by decide +kernel)

end Tray

end DiceNotation
