import DiceNotation.Program.Frame

/-!
# DiceNotation.Program.Reading

Reading the tokens of an expression into a program, from left to right and each token once. The
reader is in one of two modes and keeps the operators that wait for an operand:

* `Program.readOperand`: an operand is expected, so a number, a minus sign, dice or an opening
  parenthesis;
* `Program.readOperator`: an operand is complete, so an operator, a closing parenthesis or the end;
* `Program.ofTokens`: the program of a whole expression.

A token takes effect only when the one after it has been looked at: if that one
carries an error, the error comes first (`obstacle?`). A closing parenthesis
without a group ends the expression, and what follows it is not read.
-/

namespace DiceNotation

/-! ## Looking at a token -/

/-- What a token means to the reader. -/
inductive Symbol where
  | number (x : Number)
  | operator (op : Operator)
  deriving DecidableEq

/-- The meaning of a token. One that carries an error has none, and its message is the reason. -/
def Token.symbol (t : Token) : Except EvalError Symbol :=
  match t.error with
  | some e => .error (.lexical e.message)
  | none =>
    match t.value with
    | .number x => .ok (.number x)
    | .operator op => .ok (.operator op)
    | .text _ => .error .unreadable

/-- Why the next token cannot be looked at. The end always can. -/
def obstacle? : List Token → Option EvalError
  | [] => none
  | t :: _ =>
    match t.symbol with
    | .error e => some e
    | .ok _ => none

/-! ## Reading -/

/-- Where an expression stands: the power of the operator whose operand it is, and the number of
expressions around it. -/
structure Scope where
  power : Nat
  level : Nat
  deriving DecidableEq, Repr

/-- The scope of an expression that stands by itself. -/
def Scope.whole : Scope := ⟨0, 0⟩

/-- The greatest number of expressions inside each other. -/
def levelLimit : Nat := 256

/-- Whether an expression can still be read inside these frames. -/
def Scope.admits (scope : Scope) (frames : List Frame) : Bool :=
  scope.level + Frame.levels frames < levelLimit

namespace Program

mutual

/-- Reads on where an operand is expected, at the token of the given index. -/
def readOperand (scope : Scope) (frames : List Frame) (index : Nat) : List Token → Program
  | [] => if scope.admits frames then .stop .unexpectedEnd index else .stop .tooDeep index
  | token :: rest =>
    if scope.admits frames then
      match token.symbol, obstacle? rest with
      | .error e, _ => .stop e index
      | .ok _, some e => .stop e (index + 1)
      | .ok (.number x), none =>
        (readOperator scope frames (index + 1) rest).after [⟨.push x, index + 1⟩]
      | .ok (.operator op), none =>
        match op.opening? index with
        | some (actions, frame) =>
          (readOperand scope (frame :: frames) (index + 1) rest).after
            (actions.map (⟨·, index + 1⟩))
        | none => .stop (.unexpectedValue index) (index + 1)
    else .stop .tooDeep index

/-- Reads on after a complete operand, at the token of the given index. -/
def readOperator (scope : Scope) (frames : List Frame) (index : Nat) : List Token → Program
  | [] =>
    (match Frame.unclosed? (Frame.held 0 frames) with
      | some opening => Program.stop (.unclosedGroup opening) index
      | none => .finish index).after (Frame.steps index (Frame.released 0 frames))
  | token :: rest =>
    match token.symbol with
    | .error e => .stop e index
    | .ok (.number _) => .stop (.unexpectedValue (index - 1)) index
    | .ok (.operator op) =>
      match op.continuing? index with
      | some (power, frame) =>
        (if (Frame.held power frames).isEmpty && power ≤ scope.power then Program.finish index
          else match obstacle? rest with
            | some e => .stop e (index + 1)
            | none => readOperand scope (frame :: Frame.held power frames) (index + 1) rest).after
          (Frame.steps index (Frame.released power frames))
      | none =>
        (match Frame.close? (Frame.held 0 frames) with
          | none => Program.finish index
          | some outer =>
            match obstacle? rest with
            | some e => .stop e (index + 1)
            | none => readOperator scope outer (index + 1) rest).after
          (Frame.steps index (Frame.released 0 frames))

end

/-- The program of an expression. -/
def ofTokens (tokens : List Token) : Program := readOperand .whole [] 0 tokens

end Program

end DiceNotation
