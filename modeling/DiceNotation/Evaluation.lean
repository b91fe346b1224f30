import DiceNotation.Number.Normal
import DiceNotation.Program.Run
import DiceNotation.Token.Scan

/-!
# DiceNotation.Evaluation

Evaluating an expression: reading it into a program, running the program on a tray, and leaving what
happened at the tokens.

* `Evaluation`: the outcome of an expression, with its rolls and its tokens;
* `annotate`: the tokens of an expression after a run;
* `Tray.evaluate`, `Tray.evaluateText`: evaluates on a tray, whose count begins anew.

A failed evaluation keeps the rolls that were made before the failure.
-/

namespace DiceNotation

/-- An expression that has been evaluated. -/
structure Evaluation where
  outcome : Except EvalError Number
  text : String
  rolls : List RollRecord
  /-- The tokens of the expression, with the rolls and the error that came of them. -/
  tokens : List Token

namespace Evaluation

/-- Whether the evaluation failed. -/
def failed (e : Evaluation) : Bool :=
  match e.outcome with
  | .ok _ => false
  | .error _ => true

/-- Why the evaluation failed, nothing if it did not. -/
def errorText (e : Evaluation) : String :=
  match e.outcome with
  | .ok _ => ""
  | .error why => why.message

/-- The value, zero if the evaluation failed. -/
def value (e : Evaluation) : Number :=
  match e.outcome with
  | .ok x => x
  | .error _ => Number.zero

/-- The text of the value, or why there is none. -/
def resultText (e : Evaluation) : String := if e.failed then e.errorText else e.value.toText

/-- The indices of the tokens that carry errors. -/
def errorIndices (e : Evaluation) : List Nat :=
  (e.tokens.zipIdx.filter fun (token, _) => token.hasError).map Prod.snd

end Evaluation

/-! ## Annotations -/

/-- Leaves a roll at its dice operator and at the end of its operand. -/
def annotateRoll (tokens : List Token) (event : RollEvent) : List Token :=
  (tokens.modify event.operator (Token.withRoll · event.record)).modify event.operandEnd
    (Token.withRollResult · event.record)

/-- Leaves an error at the token to blame, if there is one. -/
def annotateError (tokens : List Token) (e : EvalError) : List Token :=
  match e.mark? with
  | some (index, mark) => tokens.modify index (Token.mark · mark)
  | none => tokens

/-- The tokens of an expression after a run: with its rolls, in order, and its error. -/
def annotate (tokens : List Token) (rolls : List RollEvent) (result : Except EvalError Number) :
    List Token :=
  let tokens := rolls.foldl annotateRoll tokens
  match result with
  | .ok _ => tokens
  | .error e => annotateError tokens e

/-! ## Evaluating -/

namespace Tray

variable {σ : Type} [Roller σ]

/-- Evaluates an expression on a tray. -/
def evaluate (tray : Tray σ) (e : Expression) : Evaluation × Tray σ :=
  let run := (Program.ofTokens e.tokens).run tray.reset
  ({ outcome := run.result.map Number.normalize
     text := e.text
     rolls := run.rolls.map RollEvent.record
     tokens := annotate e.tokens run.rolls run.result },
   run.tray)

/-- Evaluates a text on a tray. -/
def evaluateText (tray : Tray σ) (text : String) : Evaluation × Tray σ :=
  tray.evaluate (.scan text)

end Tray

/-- Annotating keeps the number of tokens. -/
@[simp] theorem length_annotateRoll (tokens : List Token) (event : RollEvent) :
    (annotateRoll tokens event).length = tokens.length := by
  simp [annotateRoll]

@[simp] theorem length_annotateError (tokens : List Token) (e : EvalError) :
    (annotateError tokens e).length = tokens.length := by
  unfold annotateError
  split <;> simp

end DiceNotation
