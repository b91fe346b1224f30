import DiceNotation.EvalError

/-!
# DiceNotation.Program

An expression as a postfix program: the steps that compute its value on a stack, in order, and how
the expression ended. Which token is read next never depends on a value, so an expression becomes a
program before a single die is rolled, and all of its syntax errors are found on the way. A syntax
error is met only after the steps before it have been taken, so a program keeps both.

* `BinaryOp`, `Action`, `Step`: what a step does, and how far the expression had been read by then;
* `Program`: the steps, the verdict on the syntax, and how far the expression was read;
* `Program.after`: steps to be taken before a program.
-/

namespace DiceNotation

/-- The operators of two numbers. -/
inductive BinaryOp where
  | add
  | sub
  | mul
  | div
  | pow
  deriving DecidableEq, Repr

/-- What a step of a program does with the stack. -/
inductive Action where
  /-- Puts a number on the stack. -/
  | push (x : Number)
  /-- Replaces the top of the stack by its negative. -/
  | negate
  /-- Replaces the two topmost numbers, the right operand above the left, by the
  value of the operator at `index`. -/
  | apply (op : BinaryOp) (index : Nat)
  /-- Replaces the two topmost numbers, sides above quantity, by the sum of the roll that the dice
  operator at `index` makes. -/
  | roll (index : Nat)
  deriving DecidableEq

/-- A step of a program. -/
structure Step where
  action : Action
  /-- The index of the token being looked at when the step is taken. It has been read, and its own
  error would have come first; the operand of the step ended just before it. -/
  seen : Nat
  deriving DecidableEq

/-- An expression in postfix form. -/
structure Program where
  steps : List Step
  /-- Whether the expression ended where it could, or why not. -/
  verdict : Except EvalError Unit
  /-- The index of the last token looked at, the number of tokens if that was the end. -/
  seen : Nat

namespace Program

/-- The program of an expression that ends here. -/
def finish (seen : Nat) : Program := ⟨[], .ok (), seen⟩

/-- The program of an expression that cannot be read on. -/
def stop (e : EvalError) (seen : Nat) : Program := ⟨[], .error e, seen⟩

/-- A program with steps before its own. -/
def after (p : Program) (steps : List Step) : Program := { p with steps := steps ++ p.steps }

@[simp] theorem after_nil (p : Program) : p.after [] = p := rfl

@[simp] theorem after_after (p : Program) (s t : List Step) :
    (p.after t).after s = p.after (s ++ t) := by
  simp [after]

@[simp] theorem after_steps (p : Program) (s : List Step) : (p.after s).steps = s ++ p.steps := rfl
@[simp] theorem after_verdict (p : Program) (s : List Step) : (p.after s).verdict = p.verdict := rfl
@[simp] theorem after_seen (p : Program) (s : List Step) : (p.after s).seen = p.seen := rfl

end Program

end DiceNotation
