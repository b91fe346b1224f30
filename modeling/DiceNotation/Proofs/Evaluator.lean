import DiceNotation.Evaluation
import DiceNotation.Proofs.Descent

/-!
# DiceNotation.Proofs.Evaluator

Evaluating an expression while it is read. The library reads an expression into
a program and runs that. Here the same is done in one go, by routines that call
each other and share a state: a cursor in the tokens, what has been left at
them, the rolls, the number of expressions in progress, and the tray.

* `Evaluator.State`, `Evaluator.Routine`: the state, and what works on it;
* `Evaluator.Call`, `Evaluator.Point`: the calls that are watched, and the
  points of time at which they are made and done;
* `Evaluator.expression`, `Evaluator.asPrefix`, `Evaluator.asInfix`, `Evaluator.continueExpression`:
  the routines, as those of `Descent` but with values;
* `Evaluator.run`: a whole evaluation.

A trace of the points is kept beside the state, so that statements about calls are statements about
the trace. The state has no part in it. As in `Descent`, the routines are told how many calls may be
in progress, and have no answer if that is not enough.
-/

namespace DiceNotation.Evaluator

variable {σ α β : Type}

/-! ## States -/

/-- What the routines share. -/
structure State (σ : Type) where
  /-- The tokens, with the rolls and errors that were left at them. -/
  tokens : List Token
  /-- The index of the token at the cursor, the number of tokens at the end. The cursor is nowhere
  before it is first moved. -/
  position : Option Nat := none
  /-- What the token at the cursor means, nothing at the end. -/
  current : Option Symbol := none
  /-- The index of the token that the cursor moved past last. -/
  last : Option Nat := none
  rolls : List RollRecord := []
  /-- How many expressions are in progress. -/
  depth : Nat := 0
  tray : Tray σ

/-- The index of the token at the cursor. -/
def State.index (s : State σ) : Nat := s.position.getD 0

/-- Leaves the error of a failure at the token to blame. -/
def State.blame (s : State σ) (e : EvalError) : State σ :=
  { s with tokens := annotateError s.tokens e }

/-- Keeps a roll, and leaves it at its dice operator and at the token that the
cursor moved past last. -/
def State.attach (s : State σ) (index : Nat) (record : RollRecord) : State σ :=
  let tokens := s.tokens.modify index (Token.withRoll · record)
  { s with
    tokens := s.last.elim tokens fun last => tokens.modify last (Token.withRollResult · record)
    rolls := s.rolls ++ [record] }

/-! ## Calls and points -/

/-- The calls that are watched. -/
inductive Call where
  | expression (power : Nat)
  | continueExpression (left : Number) (power : Nat)
  | asPrefix (symbol : Option Symbol) (index : Nat)
  | asInfix (symbol : Option Symbol) (index : Nat) (left : Number)
  | closeGroup (opening : Nat)
  | roll (index : Nat) (quantity sides : Number)

/-- A point of time in an evaluation. -/
inductive Point (σ : Type) where
  /-- A call is made in a state. -/
  | made (call : Call) (state : State σ)
  /-- A call that was made in the state `start` has succeeded. -/
  | done (call : Call) (start state : State σ)

/-- The state at a point. -/
def Point.state : Point σ → State σ
  | .made _ s => s
  | .done _ _ s => s

/-- How many expressions are in progress after a point, if there are `active` before it. -/
def Point.active (active : Nat) : Point σ → Nat
  | .made (.expression _) _ => active + 1
  | .done (.expression _) _ _ => active - 1
  | _ => active

/-- How many expressions are in progress after points. -/
def active (points : List (Point σ)) : Nat := points.foldl Point.active 0

/-- How many expressions are in progress around a call, itself not among them, when it is made and
when it is done, if there are `active` before that point. -/
def Point.around (active : Nat) : Point σ → Nat
  | .made _ _ => active
  | .done call start s => Point.active active (.done call start s)

/-! ## Routines -/

/-- What a routine comes to: a result, the state that it leaves, also when it
fails, and its trace. -/
structure Answer (σ α : Type) where
  result : Except EvalError α
  state : State σ
  trace : List (Point σ) := []

/-- A routine has an answer in every state, unless it needs too many calls. -/
def Routine (σ α : Type) : Type := State σ → Option (Answer σ α)

/-- An answer with points before its own. -/
def Answer.after (a : Answer σ α) (points : List (Point σ)) : Answer σ α :=
  { a with trace := points ++ a.trace }

/-- Routines follow each other until one fails. -/
def Routine.bind (m : Routine σ α) (next : α → Routine σ β) : Routine σ β := fun s =>
  (m s).bind fun a =>
    match a.result with
    | .ok x => (next x a.state).map (Answer.after · a.trace)
    | .error e => some ⟨.error e, a.state, a.trace⟩

instance : Monad (Routine σ) where
  pure x := fun s => some { result := .ok x, state := s }
  bind := Routine.bind

theorem map_after_nil (a : Option (Answer σ α)) : a.map (Answer.after · []) = a := by
  cases a <;> rfl

variable {s s' : State σ} {m : Routine σ α} {next : α → Routine σ β}

theorem bind_of_ok {x : α} {trace : List (Point σ)} (h : m s = some ⟨.ok x, s', trace⟩) :
    (m >>= next) s = (next x s').map (Answer.after · trace) := by
  show Routine.bind m next s = _
  rw [Routine.bind, h]
  rfl

theorem bind_of_error {e : EvalError} {trace : List (Point σ)}
    (h : m s = some ⟨.error e, s', trace⟩) : (m >>= next) s = some ⟨.error e, s', trace⟩ := by
  show Routine.bind m next s = _
  rw [Routine.bind, h]
  rfl

/-- What routines one after the other come to. -/
theorem bind_cases {b : Answer σ β} (h : (m >>= next) s = some b) :
    (∃ s' trace x c, m s = some ⟨.ok x, s', trace⟩ ∧ next x s' = some c ∧ b = c.after trace) ∨
      ∃ s' trace e, m s = some ⟨.error e, s', trace⟩ ∧ b = ⟨.error e, s', trace⟩ := by
  change (m s).bind _ = some b at h
  obtain ⟨⟨result, s', trace⟩, ha, hb⟩ := Option.bind_eq_some_iff.1 h
  cases result with
  | ok x =>
    obtain ⟨c, hc, rfl⟩ := Option.map_eq_some_iff.1 hb
    exact .inl ⟨s', trace, x, c, ha, hc, rfl⟩
  | error e => exact .inr ⟨s', trace, e, ha, (Option.some.inj hb).symm⟩

/-- The state. -/
def state : Routine σ (State σ) := fun s => some { result := .ok s, state := s }

theorem state_bind (next : State σ → Routine σ β) (s : State σ) : (state >>= next) s = next s s :=
  (bind_of_ok rfl).trans (map_after_nil _)

/-- Fails, and leaves the error at the token to blame. -/
def fail (e : EvalError) : Routine σ α := fun s => some { result := .error e, state := s.blame e }

/-- The value of what may fail. -/
def value : Except EvalError α → Routine σ α
  | .ok x => pure x
  | .error e => fail e

theorem value_bind (r : Except EvalError α) (f : α → Except EvalError β) (s : State σ) :
    (value r >>= fun x => value (f x)) s = value (r.bind f) s := by
  cases r with
  | ok x => exact (bind_of_ok rfl).trans (map_after_nil _)
  | error e => exact bind_of_error rfl

/-- There is no answer where more calls would be needed. -/
def endless : Routine σ α := fun _ => none

/-- A routine whose call is watched. -/
def watched (call : Call) (body : Routine σ α) : Routine σ α := fun s =>
  (body s).map fun a =>
    match a.result with
    | .ok _ => { a with trace := .made call s :: (a.trace ++ [.done call s a.state]) }
    | .error _ => { a with trace := .made call s :: a.trace }

/-- A routine inside one more expression. -/
def nested (body : Routine σ α) : Routine σ α := fun s =>
  if s.depth < levelLimit then
    (body { s with depth := s.depth + 1 }).map fun a =>
      { a with state := { a.state with depth := a.state.depth - 1 } }
  else fail .tooDeep s

/-- Puts the cursor at a token and looks at it. If it cannot be looked at, what was looked at before
stays. -/
def place (index : Nat) : Routine σ Unit := fun s =>
  match s.tokens[index]?.map Token.symbol with
  | none => some { result := .ok (), state := { s with position := some index, current := none } }
  | some (.ok symbol) =>
    some { result := .ok (), state := { s with position := some index, current := some symbol } }
  | some (.error e) => some { result := .error e, state := { s with position := some index } }

/-- Moves the cursor to the next token. -/
def advance : Routine σ Unit := fun s =>
  match s.position with
  | none => place 0 s
  | some index =>
    if index < s.tokens.length then place (index + 1) { s with last := some index }
    else fail .unexpectedEnd s

/-- Fails for the token at the cursor, and blames the one before it. -/
def unexpected : Routine σ α := do
  match (← state).last with
  | some last => fail (.unexpectedValue last)
  | none => fun s => some { result := .error (.unexpectedValue 0), state := s }

/-- Moves past the parenthesis that closes a group, or fails for the one that opened it. -/
def closeGroup (opening : Nat) : Routine σ Unit :=
  watched (.closeGroup opening) do
    if (← state).current = some (.operator .rightParen) then advance
    else fail (.unclosedGroup opening)

/-- Rolls dice for the dice operator at `index`. -/
def roll [Roller σ] (index : Nat) (quantity sides : Number) : Routine σ Number :=
  watched (.roll index quantity sides) fun s =>
    match s.tray.roll quantity sides with
    | (.error e, tray) => fail (.roll index e) { s with tray }
    | (.ok faces, tray) =>
      let record : RollRecord := ⟨sides, faces⟩
      some { result := .ok record.sum, state := { s with tray }.attach index record }

/-- The binding power to the left of what is at the cursor. A number has none, as it cannot follow
an operand; what ends an expression has the least. -/
def leftPower? : Option Symbol → Option Nat
  | some (.number _) => none
  | some (.operator op) => some ((op.continuing? 0).elim 0 Prod.fst)
  | none => some 0

mutual

/-- Evaluates an expression up to the first operator that binds no more tightly than `power`. -/
def expression [Roller σ] (calls power : Nat) : Routine σ Number :=
  match calls with
  | 0 => endless
  | calls + 1 =>
    watched (.expression power) <| nested do
      let s ← state
      advance
      let left ← asPrefix calls s.current s.index
      watched (.continueExpression left power) (fold calls left power)

/-- Evaluates on from a symbol where an operand is expected; the cursor has moved past it. -/
def asPrefix [Roller σ] (calls : Nat) (symbol : Option Symbol) (index : Nat) : Routine σ Number :=
  match calls with
  | 0 => endless
  | calls + 1 =>
    watched (.asPrefix symbol index) do
      match symbol with
      | some (.number x) => value (finite x)
      | some (.operator .sub) => do
        let x ← expression calls negationPower
        value (finite (-x))
      | some (.operator .leftParen) => do
        let x ← expression calls 0
        closeGroup index
        value (finite x)
      | some (.operator (.dice _)) => do
        let sides ← expression calls dicePower
        let x ← roll index (.int 1) sides
        value (finite x)
      | some (.operator .add) | some (.operator .mul) | some (.operator .div)
      | some (.operator .pow) | some (.operator .rightParen) | none => unexpected

/-- Evaluates on after an operand of value `left`, as long as operators follow
that bind more tightly than `power`. -/
def fold [Roller σ] (calls : Nat) (left : Number) (power : Nat) : Routine σ Number :=
  match calls with
  | 0 => endless
  | calls + 1 => do
    let s ← state
    match leftPower? s.current with
    | none => unexpected
    | some next =>
      if next ≤ power then pure left
      else do
        advance
        let left ← asInfix calls s.current s.index left
        fold calls left power

/-- Evaluates on from a symbol after an operand of value `left`; the cursor has moved past it. -/
def asInfix [Roller σ] (calls : Nat) (symbol : Option Symbol) (index : Nat) (left : Number) :
    Routine σ Number :=
  match calls with
  | 0 => endless
  | calls + 1 =>
    watched (.asInfix symbol index left) do
      match symbol with
      | some (.operator (.dice _)) => do
        let sides ← expression calls dicePower
        let x ← roll index left sides
        value (finite x)
      | some (.operator .leftParen) => do
        let inner ← expression calls 0
        closeGroup index
        -- The group is a factor, and what binds more tightly than a product belongs to it.
        let right ← watched (.continueExpression inner productPower) (fold calls inner productPower)
        value (finite (left * right))
      | some (.operator op) =>
        match op.binary? with
        | some op => do
          let right ← expression calls op.rightPower
          let x ← value (op.apply index left right)
          value (finite x)
        | none => fail .missingOperand
      | some (.number _) | none => fail .missingOperand

end

section

variable [Roller σ]

theorem expression_zero (power : Nat) : (expression 0 power : Routine σ Number) = endless := by
  rw [expression]

theorem asPrefix_zero (symbol : Option Symbol) (index : Nat) :
    (asPrefix 0 symbol index : Routine σ Number) = endless := by
  rw [asPrefix.eq_def]

theorem fold_zero (left : Number) (power : Nat) :
    (fold 0 left power : Routine σ Number) = endless := by
  rw [fold.eq_def]

theorem asInfix_zero (symbol : Option Symbol) (index : Nat) (left : Number) :
    (asInfix 0 symbol index left : Routine σ Number) = endless := by
  rw [asInfix.eq_def]

end

/-- Evaluates on after an operand of value `left`. -/
def continueExpression [Roller σ] (calls : Nat) (left : Number) (power : Nat) : Routine σ Number :=
  watched (.continueExpression left power) (fold calls left power)

/-- Evaluates an expression, up to what cannot belong to it, with at most
`calls` calls in progress. -/
def run [Roller σ] (calls : Nat) : Routine σ Number := do
  advance
  let x ← expression calls 0
  pure x.normalize

/-- The state before an evaluation. -/
def State.start (tokens : List Token) (tray : Tray σ) : State σ := { tokens, tray }

end DiceNotation.Evaluator
