import DiceNotation.Token
import DiceNotation.Tray

/-!
# DiceNotation.EvalError

Why an evaluation fails. Each cause is a constructor of its own and carries the place to blame, as
the index of a token; the wording is given once, by `EvalError.message`, and the error that is left
at the blamed token by `EvalError.mark?`.

Several causes share one general message: values that are not finite, expressions nested too deeply,
and what a text and an honest roller cannot bring about.
-/

namespace DiceNotation

/-- Why an evaluation failed. Indices count the tokens of the expression from zero. -/
inductive EvalError where
  /-- Something follows the token at `index` that cannot follow it, or it cannot
  stand there itself. -/
  | unexpectedValue (index : Nat)
  /-- The expression ends where an operand is needed. -/
  | unexpectedEnd
  /-- The group opened at `index` is not closed. -/
  | unclosedGroup (index : Nat)
  /-- The division at `index` has a zero divisor. -/
  | zeroDivision (index : Nat)
  /-- The dice operator at `index` got no faces. -/
  | roll (index : Nat) (error : RollError)
  /-- A token was reached that carries an error with this message. -/
  | lexical (message : String)
  /-- A token was reached that has no meaning and carries no error. -/
  | unreadable
  /-- Expressions are nested too deeply. -/
  | tooDeep
  /-- A literal or the value of an operator is infinite or not a number. -/
  | notFinite
  /-- An operator lacks an operand; no expression that was read comes to this. -/
  | missingOperand
  deriving DecidableEq, Repr

/-- What to tell about a failure without a better explanation. -/
def generalMessage : String := "Unable to parse expression."

namespace RollError

/-- The wording of an error. -/
def message : RollError → String
  | .tooManyRolls => "Too many dice rolled."
  | .noFaces => generalMessage

end RollError

namespace EvalError

/-- The wording of an error. -/
def message : EvalError → String
  | .unexpectedValue _ => "Unexpected value in expression"
  | .unexpectedEnd => "Unexpected end of expression"
  | .unclosedGroup _ => "Expected )"
  | .zeroDivision _ => "Cannot divide by zero."
  | .roll _ e => e.message
  | .lexical text => text
  | .unreadable | .tooDeep | .notFinite | .missingOperand => generalMessage

/-- The token to blame and what to say there, for the errors that have such a place. -/
def mark? : EvalError → Option (Nat × TokenError)
  | .unexpectedValue index => some (index, .unexpectedValue)
  | .unclosedGroup index => some (index, .missingParen)
  | .zeroDivision index => some (index, .zeroDivision)
  | .roll index .tooManyRolls => some (index, .tooManyRolls)
  | .roll _ .noFaces => none
  | .unexpectedEnd | .lexical _ | .unreadable | .tooDeep | .notFinite | .missingOperand => none

end EvalError

end DiceNotation
