import DiceNotation.Proofs.Reading
import DiceNotation.Proofs.Running
import Mathlib.Algebra.Ring.Nat

/-!
# DiceNotation.Proofs.Operands

How high the stack is, by counting alone. A step needs a number of operands and leaves one, whatever
the numbers are, so the height of the stack after a row of steps (`Program.height?`) is known before
it is run. What is read never runs out of operands:

* `Program.supplied_ofTokens`: the steps of an expression always have their operands, and leave a
  value if the expression ends where it can;
* `Program.runSteps_height`: a run whose steps have their operands does not lack one;
* `Program.verdictOf_conclude`: so all that is left when the steps are done is the verdict.

The reader keeps this because every frame that waits with a left operand has put it on the stack
(`Frame.waiting`): under the operand being read there are exactly as many numbers as such frames.
-/

namespace DiceNotation

/-! ## Heights -/

/-- The height of the stack after a row of steps. -/
def Program.height? (n : Nat) (steps : List Step) : Option Nat :=
  steps.foldlM (fun n step => step.action.height? n) n

namespace Program

@[simp] theorem height?_nil (n : Nat) : height? n [] = some n := rfl

@[simp] theorem height?_cons (n : Nat) (step : Step) (steps : List Step) :
    height? n (step :: steps) = (step.action.height? n).bind (height? · steps) := rfl

@[simp] theorem height?_append (n : Nat) (first second : List Step) :
    height? n (first ++ second) = (height? n first).bind (height? · second) := by
  simp [height?, List.foldlM_append]

end Program

/-! ## Frames -/

/-- How many numbers wait on the stack for a frame to get its operand. -/
def Frame.waiting : Frame → Nat
  | .group _ | .negation => 0
  | .product _ | .factor _ | .dice _ | .binary .. => 1

/-- How many numbers wait on the stack for a row of frames. -/
def Frame.waitingAll (frames : List Frame) : Nat := (frames.map waiting).sum

@[simp] theorem Frame.waitingAll_cons (frame : Frame) (frames : List Frame) :
    waitingAll (frame :: frames) = frame.waiting + waitingAll frames := by
  simp [waitingAll]

/-- The frames that get their operand take what waits for them, and leave their value. -/
theorem Frame.height?_steps_released (seen power : Nat) (frames : List Frame) :
    Program.height? (waitingAll frames + 1) (steps seen (released power frames)) =
      some (waitingAll (held power frames) + 1) := by
  induction frames with
  | nil => rfl
  | cons frame frames ih =>
    by_cases hyields : frame.yields power = true
    · -- The innermost frame takes the operand and what waits for it, and leaves an operand.
      obtain ⟨action, haction, hheight⟩ : ∃ action, frame.action? = some action ∧
          action.height? (frame.waiting + waitingAll frames + 1) =
            some (waitingAll frames + 1) := by
        cases frame with
        | group index => simp [yields] at hyields
        | product index => simp [yields] at hyields
        | factor index => exact ⟨_, rfl, by simp [waiting, Action.height?, Nat.add_comm 1]⟩
        | negation => exact ⟨_, rfl, by simp [waiting, Action.height?]⟩
        | dice index => exact ⟨_, rfl, by simp [waiting, Action.height?, Nat.add_comm 1]⟩
        | binary op index => exact ⟨_, rfl, by simp [waiting, Action.height?, Nat.add_comm 1]⟩
      have hsteps : steps seen (released power (frame :: frames)) =
          ⟨action, seen⟩ :: steps seen (released power frames) := by
        simp [steps, released, hyields, haction]
      have hheld : held power (frame :: frames) = held power frames := by
        simp [held, hyields]
      rw [hsteps, hheld, waitingAll_cons, Program.height?_cons]
      simpa only [hheight, Option.bind_some] using ih
    · simp [released, held, hyields, steps]

/-- Closing a group leaves what waits under it: the product with a group waits as the group did. -/
theorem Frame.waitingAll_close {frames outer : List Frame} (h : close? frames = some outer) :
    waitingAll outer = waitingAll frames := by
  unfold close? at h
  split at h <;> cases h <;> simp [waiting]

/-! ## Reading -/

/-- The height of the stack in a mode of the reader. -/
def Mode.height (frames : List Frame) : Mode → Nat
  | .operand => Frame.waitingAll frames
  | .operator => Frame.waitingAll frames + 1

namespace Program

/-- The steps of a program have their operands on a stack of `n` numbers, and leave a value for a
verdict that asks for one. -/
def Supplied (n : Nat) (p : Program) : Prop :=
  ∃ m, height? n p.steps = some m ∧ (p.verdict = .ok () → 1 ≤ m)

theorem Supplied.after {n m : Nat} {steps : List Step} {p : Program} (h : height? n steps = some m)
    (hp : p.Supplied m) : (p.after steps).Supplied n := by
  obtain ⟨k, hk, hvalue⟩ := hp
  exact ⟨k, by simp [h, hk], hvalue⟩

theorem Halt.supplied {scope : Scope} {frames : List Frame} {index : Nat} {mode : Mode}
    {tokens : List Token} {program : Program} (h : Halt scope frames index mode tokens program) :
    program.Supplied (mode.height frames) := by
  have hstop : ∀ e seen n, (stop e seen).Supplied n := fun e seen n => ⟨n, rfl, nofun⟩
  have hfinish : ∀ seen n, (finish seen).Supplied (n + 1) := fun seen n =>
    ⟨n + 1, rfl, fun _ => Nat.le_add_left 1 n⟩
  have hreleased := fun power => Frame.height?_steps_released index power frames
  cases h with
  | tooDeep _ => exact hstop ..
  | lacking _ => exact hstop ..
  | unreadable _ _ => exact hstop ..
  | blocked _ _ _ => exact hstop ..
  | misplacedOperator _ _ _ _ => exact hstop ..
  | misplacedNumber _ => exact hstop ..
  | unclosed _ => exact .after (hreleased 0) (hstop ..)
  | complete _ => exact .after (hreleased 0) (hfinish ..)
  | outside _ _ _ _ => exact .after (hreleased _) (hfinish ..)
  | blockedOperator _ _ _ _ => exact .after (hreleased _) (hstop ..)
  | closed _ _ _ => exact .after (hreleased 0) (hfinish ..)
  | blockedClosing _ _ _ _ => exact .after (hreleased 0) (hstop ..)

theorem Move.height {scope : Scope} {frames frames' : List Frame} {index : Nat} {token : Token}
    {mode mode' : Mode} {steps : List Step}
    (h : Move scope frames index token mode steps mode' frames') :
    height? (mode.height frames) steps = some (mode'.height frames') := by
  cases h with
  | number _ _ => rfl
  | opening _ _ hop =>
    unfold Operator.opening? at hop
    split at hop <;> cases hop <;>
      simp [Mode.height, Frame.waiting, Action.height?, Nat.add_comm 1]
  | @continuing op power frame _ hop _ =>
    have hframe : frame.waiting = 1 := by
      unfold Operator.continuing? at hop
      split at hop <;> cases hop <;> rfl
    rw [Mode.height, Mode.height, Frame.waitingAll_cons, hframe, Nat.add_comm 1]
    exact Frame.height?_steps_released ..
  | closing _ _ hclose =>
    rw [Mode.height, Mode.height, Frame.waitingAll_close hclose]
    exact Frame.height?_steps_released ..

/-- The steps of an expression have their operands, and leave a value if the
expression ends where it can. -/
theorem supplied_ofTokens (tokens : List Token) : (ofTokens tokens).Supplied 0 :=
  read_induct .whole
    (P := fun mode frames _ _ program => program.Supplied (mode.height frames))
    (fun h => h.supplied) (fun hmove _ h => h.after hmove.height) tokens .operand [] 0

end Program

/-! ## Running -/

/-- What a result says apart from its value. -/
def verdictOf {α : Type} (result : Except EvalError α) : Except EvalError Unit :=
  result.map fun _ => ()

@[simp] theorem verdictOf_map {α β : Type} (f : α → β) (result : Except EvalError α) :
    verdictOf (result.map f) = verdictOf result := by
  cases result <;> rfl

theorem verdictOf_eq_error {α : Type} {result : Except EvalError α} {why : EvalError} :
    verdictOf result = .error why ↔ result = .error why := by
  cases result <;> simp [verdictOf, Except.map]

/-- A step that has its operands does not lack one, and makes the stack as high as counted. -/
theorem Step.perform_height {σ : Type} [Roller σ] {step : Step} {stack : List Number} {m : Nat}
    (h : step.action.height? stack.length = some m) (tray : Tray σ) :
    (step.perform stack tray).result ≠ .error .missingOperand ∧
      ∀ stack', (step.perform stack tray).result = .ok stack' → stack'.length = m := by
  have hfinite : ∀ (x : Number) (rest : List Number), m = rest.length + 1 →
      (finite x).map (· :: rest) ≠ .error .missingOperand ∧
        ∀ stack', (finite x).map (· :: rest) = .ok stack' → stack'.length = m := by
    intro x rest hm
    unfold finite
    split
    · exact ⟨nofun, fun _ h => by cases h; exact hm.symm⟩
    · exact ⟨nofun, nofun⟩
  rcases step.perform_cases stack with ⟨result, hcalculation, hcalc⟩ |
    ⟨index, quantity, sides, rest, haction, rfl, hroll⟩
  · rw [hcalc tray]
    generalize step.action = action at h hcalculation
    cases hcalculation with
    | lacking hnone =>
      -- What lacks an operand has no height.
      rw [hnone] at h
      cases h
    | zeroDivision => exact ⟨nofun, nofun⟩
    | value x rest hsome =>
      rw [hsome] at h
      cases h
      exact hfinite x rest rfl
  · rw [haction] at h
    cases h
    rw [hroll tray]
    rcases hfaces : tray.roll quantity sides with ⟨result, tray'⟩
    cases result with
    | error e => rw [Tray.rollAt_of_error hfaces]; exact ⟨nofun, nofun⟩
    | ok faces => rw [Tray.rollAt_of_ok hfaces]; exact hfinite _ rest rfl

namespace Program

variable {σ : Type} [Roller σ]

theorem runSteps_height {steps : List Step} {n m : Nat} (h : height? n steps = some m)
    {stack : List Number} (hstack : stack.length = n) (seen : Nat) (tray : Tray σ) :
    (runSteps seen steps stack tray).result ≠ .error .missingOperand ∧
      ∀ stack', (runSteps seen steps stack tray).result = .ok stack' → stack'.length = m := by
  induction steps generalizing n stack tray with
  | nil =>
    cases h
    exact ⟨nofun, fun _ h => by cases h; exact hstack⟩
  | cons step steps ih =>
    subst hstack
    obtain ⟨k, hstep, hsteps⟩ := Option.bind_eq_some_iff.1 h
    obtain ⟨hmissing, hlength⟩ := Step.perform_height hstep tray
    rw [runSteps_cons]
    cases hresult : (step.perform stack tray).result with
    | error e =>
      rw [hresult] at hmissing
      exact ⟨hmissing, nofun⟩
    | ok stack' =>
      exact ih hsteps (hlength stack' hresult) (step.perform stack tray).tray

/-- What a program that has its operands comes to: its verdict, once its steps have been taken. -/
theorem verdictOf_conclude {p : Program} (h : p.Supplied 0) {tray : Tray σ} {stack : List Number}
    (hstack : (runSteps p.seen p.steps [] tray).result = .ok stack) :
    verdictOf (conclude p.verdict stack) = p.verdict := by
  obtain ⟨m, hheight, hvalue⟩ := h
  have hlength : stack.length = m := (runSteps_height hheight rfl p.seen tray).2 stack hstack
  cases hverdict : p.verdict with
  | error e => rfl
  | ok _ =>
    cases stack with
    | nil => simp [← hlength, hverdict] at hvalue
    | cons value rest => rfl

end Program

end DiceNotation
