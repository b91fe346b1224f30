import DiceNotation.Program.Reading

/-!
# DiceNotation.Program.Run

Running a program on a stack of numbers, with dice from a tray.

* `Step.perform`: one step;
* `Program.runSteps`: a row of steps, up to the first that fails;
* `Program.run`: a program; its verdict on the syntax counts once every step has been taken.

Every number that is put on the stack is finite (`finite`). A roll is kept as an event, with the
token of its dice operator and the token that ended its operand, whatever comes after it.
-/

namespace DiceNotation

/-! ## What a run leaves -/

/-- A roll and where it happened, by the indices of tokens. -/
structure RollEvent where
  /-- The dice operator. -/
  operator : Nat
  /-- The last token of the operand after it. -/
  operandEnd : Nat
  record : RollRecord
  deriving DecidableEq

/-- What a run leaves: its result, its rolls in order, the index of the last
token that was looked at, and the tray. -/
structure Run (σ α : Type) where
  result : Except EvalError α
  rolls : List RollEvent
  seen : Nat
  tray : Tray σ

/-- A run with rolls before its own. -/
def Run.after {σ α : Type} (r : Run σ α) (rolls : List RollEvent) : Run σ α :=
  { r with rolls := rolls ++ r.rolls }

/-! ## One step -/

/-- A number that may be put on the stack. -/
def finite (x : Number) : Except EvalError Number :=
  if x.isFinite then .ok x else .error .notFinite

/-- The value of an operator. Only a division can fail. -/
def BinaryOp.apply (op : BinaryOp) (index : Nat) (left right : Number) : Except EvalError Number :=
  match op with
  | .add => .ok (left + right)
  | .sub => .ok (left - right)
  | .mul => .ok (left * right)
  | .div => if right.isZero then .error (.zeroDivision index) else .ok (left / right)
  | .pow => .ok (left ^ right)

variable {σ : Type}

/-- Takes one step on a stack. -/
def Step.perform [Roller σ] (step : Step) (stack : List Number) (tray : Tray σ) :
    Run σ (List Number) :=
  match step.action, stack with
  | .push x, stack => ⟨(finite x).map (· :: stack), [], step.seen, tray⟩
  | .negate, x :: stack => ⟨(finite (-x)).map (· :: stack), [], step.seen, tray⟩
  | .apply op index, right :: left :: stack =>
    ⟨((op.apply index left right).bind finite).map (· :: stack), [], step.seen, tray⟩
  | .roll index, sides :: quantity :: stack =>
    match tray.roll quantity sides with
    | (.error e, tray) => ⟨.error (.roll index e), [], step.seen, tray⟩
    | (.ok faces, tray) =>
      let record : RollRecord := ⟨sides, faces⟩
      ⟨(finite record.sum).map (· :: stack), [⟨index, step.seen - 1, record⟩], step.seen, tray⟩
  | _, _ => ⟨.error .missingOperand, [], step.seen, tray⟩

namespace Program

/-! ## Rows of steps -/

/-- Takes steps in order, up to the first that fails; `seen` is what has been looked at after all of
them. -/
def runSteps [Roller σ] (seen : Nat) :
    List Step → List Number → Tray σ → Run σ (List Number)
  | [], stack, tray => ⟨.ok stack, [], seen, tray⟩
  | step :: steps, stack, tray =>
    let done := step.perform stack tray
    match done.result with
    | .ok stack => (runSteps seen steps stack done.tray).after done.rolls
    | .error e => ⟨.error e, done.rolls, done.seen, done.tray⟩

/-- The result of a program whose steps left a stack. -/
def conclude (verdict : Except EvalError Unit) (stack : List Number) : Except EvalError Number :=
  match verdict, stack with
  | .error e, _ => .error e
  | .ok (), value :: _ => .ok value
  | .ok (), [] => .error .missingOperand

/-- Runs a program on a stack, the top of which is its value in the end. -/
def runOn [Roller σ] (p : Program) (stack : List Number) (tray : Tray σ) : Run σ Number :=
  let done := runSteps p.seen p.steps stack tray
  ⟨done.result.bind (conclude p.verdict), done.rolls, done.seen, done.tray⟩

/-- Runs a program. -/
def run [Roller σ] (p : Program) (tray : Tray σ) : Run σ Number := p.runOn [] tray

/-! ## Equations -/

@[simp] theorem runSteps_nil [Roller σ] (seen : Nat) (stack : List Number) (tray : Tray σ) :
    runSteps seen [] stack tray = ⟨.ok stack, [], seen, tray⟩ := rfl

theorem runSteps_cons [Roller σ] (seen : Nat) (step : Step) (steps : List Step)
    (stack : List Number) (tray : Tray σ) :
    runSteps seen (step :: steps) stack tray =
      match (step.perform stack tray).result with
      | .ok stack' =>
        (runSteps seen steps stack' (step.perform stack tray).tray).after
          (step.perform stack tray).rolls
      | .error e => ⟨.error e, (step.perform stack tray).rolls, (step.perform stack tray).seen,
          (step.perform stack tray).tray⟩ := rfl

end Program

end DiceNotation
