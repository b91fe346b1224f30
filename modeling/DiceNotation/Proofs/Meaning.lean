import Mathlib.Data.List.Forall2
import DiceNotation.Proofs.Structure

/-!
# DiceNotation.Proofs.Meaning

What of a token counts for an evaluation: the error it carries, and if there is
none its number or its operator. Where it stands in the text does not count, nor
what was rolled at it, nor the letter that dice are written with.

* `Token.meaning`: all that counts;
* `Program.read_congr`: tokens that mean the same are read into the same program;
* `annotate_forall₂`: what is left at tokens is the same whatever they mean;
* `Tray.evaluate_congr`: so expressions that mean the same are evaluated alike.
-/

namespace DiceNotation

/-! ## Meanings -/

/-- The operator with dice in lower case. -/
def Operator.lower : Operator → Operator
  | .dice _ => .dice false
  | op => op

/-- The symbol with dice in lower case. -/
def Symbol.lower : Symbol → Symbol
  | .number x => .number x
  | .operator op => .operator op.lower

/-- The value with dice in lower case. -/
def TokenValue.lower : TokenValue → TokenValue
  | .operator op => .operator op.lower
  | value => value

/-- What a token means, dice being the same in either letter. -/
def Token.meaning (t : Token) : Except EvalError Symbol := t.symbol.map Symbol.lower

/-- The error and the value are all that counts. -/
theorem Token.meaning_eq (t : Token) :
    t.meaning =
      match t.error, t.value.lower with
      | some e, _ => .error (.lexical e.message)
      | none, .number x => .ok (.number x)
      | none, .operator op => .ok (.operator op)
      | none, .text _ => .error .unreadable := by
  unfold Token.meaning Token.symbol
  cases t.error with
  | some e => rfl
  | none => cases t.value <;> rfl

namespace Operator

/-- Where an operand is expected, the letter of dice makes no difference. -/
theorem opening?_congr {op op' : Operator} (h : op.lower = op'.lower) (index : Nat) :
    op.opening? index = op'.opening? index := by
  cases op <;> cases op' <;> first | rfl | cases h

/-- After an operand, the letter of dice makes no difference. -/
theorem continuing?_congr {op op' : Operator} (h : op.lower = op'.lower) (index : Nat) :
    op.continuing? index = op'.continuing? index := by
  cases op <;> cases op' <;> first | rfl | cases h

end Operator

/-- What tokens are that mean the same. -/
inductive Token.Alike (t t' : Token) : Prop
  | error {e : EvalError} : t.symbol = .error e → t'.symbol = .error e → Alike t t'
  | number {x : Number} : t.symbol = .ok (.number x) → t'.symbol = .ok (.number x) → Alike t t'
  | operator {op op' : Operator} : t.symbol = .ok (.operator op) → t'.symbol = .ok (.operator op') →
      op.lower = op'.lower → Alike t t'

theorem Token.alike_of_meaning {t t' : Token} (h : t.meaning = t'.meaning) : t.Alike t' := by
  unfold Token.meaning at h
  cases hsymbol : t.symbol with
  | error e =>
    cases hsymbol' : t'.symbol with
    | error e' =>
      rw [hsymbol, hsymbol'] at h
      cases h
      exact .error hsymbol hsymbol'
    | ok symbol' => simp [hsymbol, hsymbol', Except.map] at h
  | ok symbol =>
    cases hsymbol' : t'.symbol with
    | error e' => simp [hsymbol, hsymbol', Except.map] at h
    | ok symbol' =>
      rw [hsymbol, hsymbol'] at h
      have hlower : symbol.lower = symbol'.lower := Except.ok.inj h
      cases symbol with
      | number x =>
        cases symbol' with
        | number x' =>
          cases hlower
          exact .number hsymbol hsymbol'
        | operator op' => cases hlower
      | operator op =>
        cases symbol' with
        | number x' => cases hlower
        | operator op' => exact .operator hsymbol hsymbol' (Symbol.operator.inj hlower)

/-! ## Reading -/

theorem obstacle?_congr {tokens tokens' : List Token}
    (h : tokens.map Token.meaning = tokens'.map Token.meaning) :
    obstacle? tokens = obstacle? tokens' := by
  cases tokens with
  | nil =>
    obtain rfl : tokens' = [] := List.map_eq_nil_iff.1 h.symm
    rfl
  | cons t rest =>
    obtain ⟨t', rest', rfl, hmeaning, -⟩ := List.map_eq_cons_iff.1 h.symm
    cases Token.alike_of_meaning hmeaning.symm with
    | error hsymbol hsymbol' => simp only [obstacle?, hsymbol, hsymbol']
    | number hsymbol hsymbol' => simp only [obstacle?, hsymbol, hsymbol']
    | operator hsymbol hsymbol' _ => simp only [obstacle?, hsymbol, hsymbol']

namespace Program

/-- **Tokens that mean the same are read into the same program.** -/
theorem read_congr {tokens tokens' : List Token}
    (h : tokens.map Token.meaning = tokens'.map Token.meaning) (scope : Scope) (mode : Mode)
    (frames : List Frame) (index : Nat) :
    read scope mode frames index tokens = read scope mode frames index tokens' := by
  induction tokens generalizing tokens' mode frames index with
  | nil =>
    obtain rfl : tokens' = [] := List.map_eq_nil_iff.1 h.symm
    rfl
  | cons t rest ih =>
    obtain ⟨t', rest', rfl, hmeaning, hrest⟩ := List.map_eq_cons_iff.1 h.symm
    have hobstacle := obstacle?_congr hrest
    have hoperand : ∀ frames index,
        readOperand scope frames index rest = readOperand scope frames index rest' :=
      ih hrest.symm .operand
    have hoperator : ∀ frames index,
        readOperator scope frames index rest = readOperator scope frames index rest' :=
      ih hrest.symm .operator
    cases Token.alike_of_meaning hmeaning.symm with
    | error hsymbol hsymbol' =>
      cases mode <;> simp only [read, readOperand, readOperator, hsymbol, hsymbol']
    | number hsymbol hsymbol' =>
      cases mode with
      | operand =>
        simp only [read, readOperand, hsymbol, hsymbol', hobstacle, hoperator]
        cases obstacle? rest <;> rfl
      | operator => simp only [read, readOperator, hsymbol, hsymbol']
    | operator hsymbol hsymbol' hlower =>
      cases mode with
      | operand =>
        simp only [read, readOperand, hsymbol, hsymbol', hobstacle, hoperand]
        cases obstacle? rest with
        | none => simp only [Operator.opening?_congr hlower]
        | some e => rfl
      | operator =>
        simp only [read, readOperator, hsymbol, hsymbol', hobstacle, hoperand, hoperator,
          Operator.continuing?_congr hlower]

theorem ofTokens_congr {tokens tokens' : List Token}
    (h : tokens.map Token.meaning = tokens'.map Token.meaning) :
    ofTokens tokens = ofTokens tokens' :=
  read_congr h .whole .operand [] 0

end Program

/-! ## Evaluating -/

/-- Tokens that are related pairwise still are when those in one place are changed alike. -/
theorem forall₂_modify {R : Token → Token → Prop} {f : Token → Token}
    (hf : ∀ t t', R t t' → R (f t) (f t')) {tokens tokens' : List Token}
    (h : List.Forall₂ R tokens tokens') (index : Nat) :
    List.Forall₂ R (tokens.modify index f) (tokens'.modify index f) := by
  induction h generalizing index with
  | nil =>
    rw [List.modify_nil]
    exact .nil
  | cons hfirst hrest ih =>
    cases index with
    | zero => exact .cons (hf _ _ hfirst) hrest
    | succ index => exact .cons hfirst (ih index)

/-- **What a run leaves keeps tokens related** that are related apart from it. -/
theorem annotate_forall₂ {R : Token → Token → Prop}
    (hmark : ∀ mark t t', R t t' → R (t.mark mark) (t'.mark mark))
    (hroll : ∀ r t t', R t t' → R (t.withRoll r) (t'.withRoll r))
    (hresult : ∀ r t t', R t t' → R (t.withRollResult r) (t'.withRollResult r))
    {tokens tokens' : List Token} (h : List.Forall₂ R tokens tokens') (rolls : List RollEvent)
    (result : Except EvalError Number) :
    List.Forall₂ R (annotate tokens rolls result) (annotate tokens' rolls result) := by
  have hrolls : List.Forall₂ R (rolls.foldl annotateRoll tokens)
      (rolls.foldl annotateRoll tokens') := by
    induction rolls generalizing tokens tokens' with
    | nil => exact h
    | cons event rolls ih =>
      exact ih (forall₂_modify (hresult _) (forall₂_modify (hroll _) h _) _)
  unfold annotate
  cases result with
  | ok x => exact hrolls
  | error why =>
    show List.Forall₂ R (annotateError _ why) (annotateError _ why)
    unfold annotateError
    cases why.mark? with
    | none => exact hrolls
    | some place => exact forall₂_modify (hmark _) hrolls _

/-- What a run leaves does not change what tokens mean, if it succeeds. -/
theorem map_meaning_annotateRolls (tokens : List Token) (rolls : List RollEvent) :
    (rolls.foldl annotateRoll tokens).map Token.meaning = tokens.map Token.meaning :=
  map_annotateRolls (fun _ _ => rfl) (fun _ _ => rfl) tokens rolls

variable {σ : Type} [Roller σ]

/-- **Expressions that mean the same are evaluated alike**: the same is left, at
the tokens of each. -/
theorem Tray.evaluate_congr {e e' : Expression}
    (h : e.tokens.map Token.meaning = e'.tokens.map Token.meaning) (tray : Tray σ) :
    let run := (Program.ofTokens e.tokens).run tray.reset
    tray.evaluate e' =
      ({ (tray.evaluate e).1 with
          text := e'.text
          tokens := annotate e'.tokens run.rolls run.result },
        (tray.evaluate e).2) := by
  simp only [evaluate, Program.ofTokens_congr h]

end DiceNotation
