import DiceNotation.Evaluation
import DiceNotation.Report.Layout
import DiceNotation.Text.Quoted

/-!
# DiceNotation.Report.Dump

The full account of an evaluation: its outcome, every roll and every token, as an indented text.
Texts are quoted, and numbers say whether they are integers or doubles.
-/

namespace DiceNotation

open Report

namespace Operator

/-- The name of an operator in an account; that of dice shows their letter. -/
def layout : Operator → Layout
  | .add => .plain "Add"
  | .sub => .plain "Sub"
  | .mul => .plain "Mul"
  | .div => .plain "Div"
  | .pow => .plain "Pow"
  | .dice upper => .named "Dice" (.plain (Text.quoteChar (Operator.dice upper).toChar))
  | .leftParen => .plain "LeftParen"
  | .rightParen => .plain "RightParen"

/-- The name of an operator on one line. -/
def name (op : Operator) : String := op.layout.inline

end Operator

/-- A number in an account. -/
def Number.layout : Number → Layout
  | .int n => .named "Int" (.plain (toString n.toInt))
  | .float x => .named "Float" (.plain (Number.floatText x))

/-- A roll in an account. -/
def RollRecord.layout (r : RollRecord) : Layout :=
  .group "RollRecord" .curly [
    .field "sides" r.sides.layout,
    .field "rolls" (.list (r.faces.map fun face => .plain (toString face.toInt))),
    .field "sum" r.sum.layout]

/-- The kind of an error in an account. -/
def ErrorKind.layout : ErrorKind → Layout
  | .badNumber => .plain "BadNum"
  | .badCharacters => .plain "BadChars"
  | .badOperator => .plain "BadOp"
  | .tooManyRolls => .plain "TooManyRolls"

/-- An error at a token in an account. -/
def TokenError.layout (e : TokenError) : Layout :=
  .group "TokenError" .curly [
    .field "kind" e.kind.layout,
    .field "message" (.plain (Text.quoteString e.message))]

/-- What a token says, in an account. -/
def TokenValue.layout : TokenValue → Layout
  | .number x => .named "Number" x.layout
  | .operator op => .named "Operator" op.layout
  | .text raw => .named "Text" (.plain (Text.quoteString raw))

/-- The kind of a token in an account. -/
def TokenKind.layout : TokenKind → Layout
  | .number => .plain "Number"
  | .operator => .plain "Operator"

/-- A range of bytes in an account. -/
def Span.layout (s : Span) : Layout := .plain (toString s.start ++ ".." ++ toString s.stop)

/-- A token in an account. -/
def Token.layout (t : Token) : Layout :=
  .group "Token" .curly [
    .field "kind" t.kind.layout,
    .field "value" t.value.layout,
    .field "span" t.span.layout,
    .field "error" (.optional (t.error.map TokenError.layout)),
    .field "roll" (.optional (t.roll.map RollRecord.layout)),
    .field "roll_result" (.optional (t.rollResult.map RollRecord.layout))]

namespace Evaluation

/-- An evaluation in an account. -/
def layout (e : Evaluation) : Layout :=
  .group "EvalResult" .curly [
    .field "error" (.plain (toString e.failed)),
    .field "error_code" (.plain (Text.quoteString e.errorText)),
    .field "value" e.value.layout,
    .field "original_text" (.plain (Text.quoteString e.text)),
    .field "rolls" (.list (e.rolls.map RollRecord.layout)),
    .field "tokens" (.list (e.tokens.map Token.layout))]

/-- The full account of an evaluation. -/
def dump (e : Evaluation) : String := e.layout.write

end Evaluation

end DiceNotation
