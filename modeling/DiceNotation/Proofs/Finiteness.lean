import DiceNotation.Proofs.Binary64
import DiceNotation.Proofs.Grammar

/-!
# DiceNotation.Proofs.Finiteness

No number that is infinite, or not a number, is ever calculated with.

* `Run.LeavesFinite`, `Step.perform_finite`: a step leaves one new number on the
  stack, and it is finite;
* `Program.runSteps_finite`: so all numbers on the stack are finite throughout a
  run, and with them the sides of every roll;
* `Number.isFinite_normalize`: the normal form of a finite number is finite;
* `Tray.evaluate_finite`: an evaluation calculates with finite numbers and comes to one.

Literals may be infinite or not a number. They are refused when they are put on the stack, like the
values of operators, so the stack is the only invariant.
-/

namespace DiceNotation

variable {σ : Type}

/-! ## Numbers -/

/-- The doubles that are reported as integers are finite, and so are the others if `x` is. -/
theorem Number.isFinite_ofFloat {x : Float} (h : x.isFinite = true) :
    (Number.ofFloat x).isFinite = true := by
  unfold Number.ofFloat
  dsimp only
  split
  · exact Number.isFinite_int _
  · exact h

/-- **The normal form of a finite number is finite.** -/
theorem Number.isFinite_normalize {x : Number} (h : x.isFinite = true) :
    x.normalize.isFinite = true := by
  cases x with
  | int n => rfl
  | float x =>
    apply Number.isFinite_ofFloat
    split
    · rename_i hfraction
      apply Binary64.isFinite_roundThousandths
      simp only [Bool.and_eq_true, Bool.not_eq_true'] at hfraction
      exact hfraction.2
    · exact h

theorem isFinite_of_finite {x y : Number} (h : finite x = .ok y) : y.isFinite = true := by
  unfold finite at h
  split at h
  · cases h
    assumption
  · cases h

/-- Whether all numbers on a stack are finite. -/
def AllFinite (stack : List Number) : Prop := ∀ x ∈ stack, x.isFinite = true

theorem allFinite_cons {x : Number} {stack : List Number} :
    AllFinite (x :: stack) ↔ x.isFinite = true ∧ AllFinite stack :=
  List.forall_mem_cons

/-! ## Steps -/

variable [Roller σ]

/-- A run that leaves finite numbers only, and rolls with finite sides only. -/
structure Run.LeavesFinite (r : Run σ (List Number)) : Prop where
  stack : ∀ stack, r.result = .ok stack → AllFinite stack
  sides : ∀ event ∈ r.rolls, event.record.sides.isFinite = true

omit [Roller σ] in
theorem Run.leavesFinite_of_error {r : Run σ (List Number)} {e : EvalError}
    (hresult : r.result = .error e) (hrolls : r.rolls = []) : r.LeavesFinite where
  stack stack hok := by
    rw [hresult] at hok
    cases hok
  sides event hevent := by
    rw [hrolls] at hevent
    cases hevent

omit [Roller σ] in
/-- A number that goes on the stack is looked at before. -/
theorem Run.leavesFinite_of_finite {r : Run σ (List Number)} {x : Number} {rest : List Number}
    (hresult : r.result = (finite x).map (· :: rest)) (hrest : AllFinite rest)
    (hsides : ∀ event ∈ r.rolls, event.record.sides.isFinite = true) : r.LeavesFinite where
  stack stack hok := by
    rw [hresult] at hok
    cases hx : finite x with
    | error e =>
      rw [hx] at hok
      cases hok
    | ok y =>
      rw [hx] at hok
      cases hok
      exact allFinite_cons.2 ⟨isFinite_of_finite hx, hrest⟩
  sides := hsides

/-- **A step keeps the stack finite**, and rolls with finite sides only. -/
theorem Step.perform_finite (step : Step) {stack : List Number} (hstack : AllFinite stack)
    (tray : Tray σ) : (step.perform stack tray).LeavesFinite := by
  obtain ⟨action, seen⟩ := step
  cases action with
  | push x => exact Run.leavesFinite_of_finite rfl hstack (List.forall_mem_nil _)
  | negate =>
    rcases stack with _ | ⟨x, rest⟩
    · exact Run.leavesFinite_of_error rfl rfl
    · exact Run.leavesFinite_of_finite rfl (allFinite_cons.1 hstack).2 (List.forall_mem_nil _)
  | apply op index =>
    rcases stack with _ | ⟨right, _ | ⟨left, rest⟩⟩
    · exact Run.leavesFinite_of_error rfl rfl
    · exact Run.leavesFinite_of_error rfl rfl
    · have hrest := (allFinite_cons.1 (allFinite_cons.1 hstack).2).2
      -- A division may fail before there is a number to look at.
      cases hvalue : op.apply index left right with
      | error e => exact Run.leavesFinite_of_error (by simp only [Step.perform, hvalue]; rfl) rfl
      | ok x =>
        exact Run.leavesFinite_of_finite (by simp only [Step.perform, hvalue]; rfl) hrest
          (List.forall_mem_nil _)
  | roll index =>
    rcases stack with _ | ⟨sides, _ | ⟨quantity, rest⟩⟩
    · exact Run.leavesFinite_of_error rfl rfl
    · exact Run.leavesFinite_of_error rfl rfl
    · obtain ⟨hsides, hbelow⟩ := allFinite_cons.1 hstack
      rw [Step.perform_roll]
      rcases hroll : tray.roll quantity sides with ⟨result, tray'⟩
      cases result with
      | error e =>
        rw [Tray.rollAt_of_error hroll]
        exact Run.leavesFinite_of_error rfl rfl
      | ok faces =>
        rw [Tray.rollAt_of_ok hroll]
        exact Run.leavesFinite_of_finite rfl (allFinite_cons.1 hbelow).2
          (List.forall_mem_singleton.2 hsides)

namespace Program

/-- **A run keeps the stack finite**, and makes no roll whose sides are not. -/
theorem runSteps_finite (seen : Nat) (steps : List Step) {stack : List Number}
    (hstack : AllFinite stack) (tray : Tray σ) : (runSteps seen steps stack tray).LeavesFinite := by
  induction steps generalizing stack tray with
  | nil =>
    refine ⟨fun stack' h => ?_, List.forall_mem_nil _⟩
    cases h
    exact hstack
  | cons step steps ih =>
    have hstep := step.perform_finite hstack tray
    rw [runSteps_cons]
    cases hresult : (step.perform stack tray).result with
    | error e =>
      refine ⟨fun stack' h => ?_, hstep.sides⟩
      cases h
    | ok stack' =>
      have hsteps := ih (hstep.stack stack' hresult) (step.perform stack tray).tray
      exact ⟨hsteps.stack, List.forall_mem_append.2 ⟨hstep.sides, hsteps.sides⟩⟩

/-- A program that finds finite numbers leaves one. -/
theorem runOn_finite (p : Program) {stack : List Number} (hstack : AllFinite stack)
    (tray : Tray σ) {x : Number} (h : (p.runOn stack tray).result = .ok x) : x.isFinite = true := by
  have hbind : (runSteps p.seen p.steps stack tray).result.bind (conclude p.verdict) = .ok x := h
  cases hresult : (runSteps p.seen p.steps stack tray).result with
  | error e =>
    rw [hresult] at hbind
    cases hbind
  | ok stack' =>
    have hleft := (runSteps_finite p.seen p.steps hstack tray).stack stack' hresult
    rw [hresult] at hbind
    replace hbind : conclude p.verdict stack' = .ok x := hbind
    unfold conclude at hbind
    split at hbind
    · cases hbind
    · cases hbind
      exact (allFinite_cons.1 hleft).1
    · cases hbind

/-! ## The operands of a step -/

/-- A run of a program gets as far as having taken some steps, which leave a stack. -/
structure Reaches (p : Program) (tray : Tray σ) (taken : List Step)
    (stack : List Number) : Prop where
  first : taken <+: p.steps
  result : (runSteps p.seen taken [] tray).result = .ok stack

end Program

/-- How many numbers an action takes from the stack. -/
def Action.arity : Action → Nat
  | .push _ => 0
  | .negate => 1
  | .apply .. | .roll _ => 2

theorem Action.arity_le_of_height? {action : Action} {n m : Nat}
    (h : action.height? n = some m) : action.arity ≤ n := by
  unfold Action.height? at h
  split at h <;> cases h <;> simp [Action.arity]

namespace Program

/-- A step of an expression finds its operands. -/
theorem Reaches.arity_le {tokens : List Token} {tray : Tray σ} {taken : List Step} {step : Step}
    {stack : List Number} (h : (ofTokens tokens).Reaches tray taken stack)
    (hnext : taken ++ [step] <+: (ofTokens tokens).steps) : step.action.arity ≤ stack.length := by
  obtain ⟨n, hheight, -⟩ := supplied_ofTokens tokens
  obtain ⟨rest, hrest⟩ := hnext
  rw [← hrest, height?_append, height?_append] at hheight
  obtain ⟨k, hk, -⟩ := Option.bind_eq_some_iff.1 hheight
  obtain ⟨m, htaken, hstep⟩ := Option.bind_eq_some_iff.1 hk
  have hlength : stack.length = m := (runSteps_height htaken rfl _ tray).2 stack h.result
  obtain ⟨m', hheight', -⟩ := Option.bind_eq_some_iff.1 hstep
  rw [hlength]
  exact Action.arity_le_of_height? hheight'

end Program

/-! ## Evaluating -/

/-- **No number that is not finite is used or survives**, whatever the literals are.
Wherever a run gets, the numbers on the stack are finite; these are the values of
the literals, operators and groups so far. So every step finds its operands, and
they are finite. The value of an evaluation is finite, and so are the sides of its
records. The same holds of reading on anywhere, with finite numbers on the stack. -/
theorem Tray.evaluate_finite (tray : Tray σ) (e : Expression) :
    let program := Program.ofTokens e.tokens
    let result := (tray.evaluate e).1
    (∀ taken stack, program.Reaches tray.reset taken stack → AllFinite stack ∧
      ∀ step, taken ++ [step] <+: program.steps →
        (stack.take step.action.arity).length = step.action.arity ∧
          AllFinite (stack.take step.action.arity)) ∧
    (∀ x, result.outcome = .ok x → x.isFinite = true) ∧
    (∀ r ∈ result.rolls, r.sides.isFinite = true) ∧
    ∀ scope mode frames index tokens stack (tray' : Tray σ) x, AllFinite stack →
      ((Program.read scope mode frames index tokens).runOn stack tray').result = .ok x →
        x.isFinite = true := by
  intro program result
  have hempty : AllFinite [] := List.forall_mem_nil _
  refine ⟨?_, ?_, ?_, ?_⟩
  · intro taken stack hreaches
    have hstack : AllFinite stack :=
      (Program.runSteps_finite program.seen taken hempty tray.reset).stack stack hreaches.result
    refine ⟨hstack, ?_⟩
    intro step hnext
    have harity := hreaches.arity_le hnext
    refine ⟨List.length_take_of_le harity, ?_⟩
    intro x hx
    exact hstack x (List.mem_of_mem_take hx)
  · intro x hx
    cases hrun : (program.run tray.reset).result with
    | error why =>
      have hfailed := (tray.evaluate_outcome_eq_error e why).2 hrun
      rw [hx] at hfailed
      cases hfailed
    | ok y =>
      have hy : y.isFinite = true := program.runOn_finite hempty tray.reset hrun
      have houtcome : (program.run tray.reset).result.map Number.normalize = .ok x := hx
      rw [hrun] at houtcome
      cases houtcome
      exact Number.isFinite_normalize hy
  · intro r hr
    obtain ⟨event, hevent, rfl⟩ := List.mem_map.1 hr
    exact (Program.runSteps_finite program.seen program.steps hempty tray.reset).sides event hevent
  · intro scope mode frames index tokens stack tray' x hstack hx
    exact Program.runOn_finite _ hstack tray' hx

end DiceNotation
