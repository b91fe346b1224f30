import DiceNotation.Proofs.Reading

/-!
# DiceNotation.Proofs.Descent

Reading an expression by recursive descent. The reader of this library keeps the operators that wait
in a row of frames. Here the same language is read by functions that call each other, one for an
expression and one for each thing that a token can do, and what waits are their calls:

* `Descent.expression`: an operand, and the operators that bind it more tightly than a given power;
* `Descent.openOperand`, `Descent.continueOperand`, `Descent.joinOperand`: what a token does where
  an operand is expected, the loop over the operators after one, and what such an operator does;
* `Descent.read`: a whole expression.

The functions have no limit on nesting. They are told how many calls may be in progress, and have no
answer if that is not enough; a recursion that does not come to an end has none for any number. They
keep a log of what they do (`Descent.Event`), so that statements about their calls are statements
about the log. Levels are handed from call to call, and the next modules compare them with the
expressions that are in progress and with the frames of the reader.
-/

namespace DiceNotation

/-- The binary operator that an operator is between two operands, if it is one. -/
def Operator.binary? : Operator → Option BinaryOp
  | .add => some .add
  | .sub => some .sub
  | .mul => some .mul
  | .div => some .div
  | .pow => some .pow
  | .dice _ | .leftParen | .rightParen => none

namespace Descent

/-! ## What is logged -/

/-- What the functions do. -/
inductive Event where
  /-- An expression of the given level is begun at `index`. -/
  | enter (index level : Nat)
  /-- The expression begun last is complete. -/
  | leave
  /-- The cursor is moved, to `index`. -/
  | advance (index : Nat)
  /-- What was found where an operand is expected is asked to begin one; `none` is the end. -/
  | opening (symbol : Option Symbol)
  /-- What was found after an operand is asked to go on with it; `none` is the end. -/
  | continuing (symbol : Option Symbol)
  /-- A step is taken. -/
  | take (step : Step)
  deriving DecidableEq

/-- How many expressions are in progress after an event, if there were `depth` before it. -/
def Event.depth (depth : Nat) : Event → Nat
  | .enter _ _ => depth + 1
  | .leave => depth - 1
  | .advance _ | .opening _ | .continuing _ | .take _ => depth

/-- How many expressions are in progress after events. -/
def depth (events : List Event) : Nat := events.foldl Event.depth 0

/-- Where an event moves the cursor. -/
def Event.position? : Event → Option Nat
  | .advance index => some index
  | .enter _ _ | .leave | .opening _ | .continuing _ | .take _ => none

/-- Where the cursor is moved, in order. -/
def positions (events : List Event) : List Nat := events.filterMap Event.position?

/-- The step of an event. -/
def Event.step? : Event → Option Step
  | .take step => some step
  | .enter _ _ | .leave | .advance _ | .opening _ | .continuing _ => none

/-- The steps that are taken, in order. -/
def steps (events : List Event) : List Step := events.filterMap Event.step?

/-! ## The functions -/

/-- A cursor in the tokens of an expression, and the log. -/
structure State where
  /-- The index of the token at the cursor, the number of tokens at the end. -/
  index : Nat
  /-- The tokens from the cursor on. -/
  tokens : List Token
  /-- What has been done. -/
  events : List Event := []

/-- Reading: it may fail, and may need too many calls. The state is kept when it fails. -/
abbrev Reader : Type → Type := ExceptT EvalError (StateT State Option)

/-- Adds to the log. -/
def record (event : Event) : Reader Unit := modify fun s => { s with events := s.events ++ [event] }

/-- What a row of tokens begins with, nothing at the end. -/
def symbol? : List Token → Option Symbol
  | [] => none
  | token :: _ => token.symbol.toOption

/-- Looks at the token at the cursor. -/
def look : Reader Unit := do
  match obstacle? (← get).tokens with
  | some e => throw e
  | none => pure ()

/-- Moves the cursor to the next token and looks at it. The cursor stays at the end. -/
def advance : Reader Unit := do
  let s ← get
  match s.tokens with
  | [] =>
    record (.advance s.index)
    throw .unexpectedEnd
  | _ :: rest =>
    set { s with index := s.index + 1, tokens := rest }
    record (.advance (s.index + 1))
    look

/-- Takes a step in view of the token at the cursor. -/
def take (action : Action) : Reader Unit := do
  record (.take ⟨action, (← get).index⟩)

/-- Fails for the token at the cursor, and blames the one before it. -/
def unexpected : Reader Unit := do
  throw (.unexpectedValue ((← get).index - 1))

/-- Moves past the parenthesis that closes a group, or fails for the one that opened it. -/
def close (opening : Nat) : Reader Unit := do
  match symbol? (← get).tokens with
  | some (.operator .rightParen) => advance
  | _ => throw (.unclosedGroup opening)

/-- There is no answer where more calls would be needed. -/
def endless : Reader Unit := ExceptT.mk fun _ => none

mutual

/-- Reads an expression up to the first operator that binds no more tightly than `power`. -/
def expression (calls power level : Nat) : Reader Unit :=
  match calls with
  | 0 => endless
  | calls + 1 => do
    let s ← get
    record (.enter s.index level)
    advance
    openOperand calls (symbol? s.tokens) s.index level
    continueOperand calls power level
    record .leave

/-- Reads on from a symbol where an operand is expected; the cursor has moved past it. -/
def openOperand (calls : Nat) (symbol : Option Symbol) (index level : Nat) : Reader Unit :=
  match calls with
  | 0 => endless
  | calls + 1 => do
    record (.opening symbol)
    match symbol with
    | some (.number x) => take (.push x)
    | some (.operator .sub) => do
      expression calls negationPower (level + 1)
      take .negate
    | some (.operator .leftParen) => do
      expression calls 0 (level + 1)
      close index
    | some (.operator (.dice _)) => do
      take (.push (.int 1))
      expression calls dicePower (level + 1)
      take (.roll index)
    | some (.operator .add) | some (.operator .mul) | some (.operator .div) | some (.operator .pow)
    | some (.operator .rightParen) | none => unexpected

/-- Reads on after an operand, as long as operators follow that bind more tightly than `power`. -/
def continueOperand (calls power level : Nat) : Reader Unit :=
  match calls with
  | 0 => endless
  | calls + 1 => do
    let s ← get
    match nextPower? s.tokens with
    | none => unexpected
    | some next =>
      if next ≤ power then pure ()
      else do
        advance
        joinOperand calls (symbol? s.tokens) s.index level
        continueOperand calls power level

/-- Reads on from a symbol after an operand; the cursor has moved past it. -/
def joinOperand (calls : Nat) (symbol : Option Symbol) (index level : Nat) : Reader Unit :=
  match calls with
  | 0 => endless
  | calls + 1 => do
    record (.continuing symbol)
    match symbol with
    | some (.operator (.dice _)) => do
      expression calls dicePower (level + 1)
      take (.roll index)
    | some (.operator .leftParen) => do
      expression calls 0 (level + 1)
      close index
      -- The group is a factor, and what binds more tightly than a product belongs to it.
      continueOperand calls productPower level
      take (.apply .mul index)
    | some (.operator op) =>
      match op.binary? with
      | some op => do
        expression calls op.rightPower (level + 1)
        take (.apply op index)
      | none => throw .missingOperand
    | some (.number _) | none => throw .missingOperand

end

theorem expression_zero (power level : Nat) : expression 0 power level = endless := by
  rw [expression]

theorem openOperand_zero (symbol : Option Symbol) (index level : Nat) :
    openOperand 0 symbol index level = endless := by
  rw [openOperand.eq_def]

theorem continueOperand_zero (power level : Nat) : continueOperand 0 power level = endless := by
  rw [continueOperand.eq_def]

theorem joinOperand_zero (symbol : Option Symbol) (index level : Nat) :
    joinOperand 0 symbol index level = endless := by
  rw [joinOperand.eq_def]

/-- What reading an expression comes to. -/
structure Account where
  verdict : Except EvalError Unit
  /-- The index of the token at the cursor. -/
  seen : Nat
  events : List Event

/-- Reads an expression, up to what cannot belong to it, with at most `calls` calls in progress. -/
def read (calls : Nat) (tokens : List Token) : Option Account :=
  let reader : Reader Unit := do
    record (.advance 0)
    look
    expression calls 0 1
  (reader.run.run { index := 0, tokens }).map fun (verdict, s) => ⟨verdict, s.index, s.events⟩

/-! ## What the log says -/

/-- The program that events make, with another program after them. It is cut off
where an expression is nested too deeply. -/
def program (rest : Program) : List Event → Program
  | [] => rest
  | .enter index level :: events =>
    if level ≤ levelLimit then program rest events else .stop .tooDeep index
  | .take step :: events => (program rest events).after [step]
  | .leave :: events | .advance _ :: events | .opening _ :: events | .continuing _ :: events =>
    program rest events

/-- The program of an account. -/
def Account.program (a : Account) : Program := Descent.program ⟨[], a.verdict, a.seen⟩ a.events

theorem program_append (rest : Program) (first second : List Event) :
    program rest (first ++ second) = program (program rest second) first := by
  induction first with
  | nil => rfl
  | cons event first ih => cases event <;> simp only [List.cons_append, program, ih]

theorem positions_append (first second : List Event) :
    positions (first ++ second) = positions first ++ positions second :=
  List.filterMap_append

theorem depth_append (first second : List Event) :
    depth (first ++ second) = second.foldl Event.depth (depth first) :=
  List.foldl_append

end Descent

end DiceNotation
