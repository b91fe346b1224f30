import DiceNotation.Program.Run

/-!
# DiceNotation.Proofs.Running

What runs have in common, whatever the steps, the roller and the ceiling.

* `Run.bind`: a run that goes on with the value of another, which is how `runSteps` goes on;
* `Tray.rollAt`: what the step of a dice operator does, apart from the stack;
* `Step.perform_cases`: a step either calculates, which leaves the tray alone and does not depend on
  it, or is the roll of a dice operator. Invariants of runs use steps through this lemma only;
* `runSteps_invariant`: what every request for dice keeps, a run keeps;
* `runSteps_related`: trays that answer alike run alike.
-/

namespace DiceNotation

variable {σ τ α β γ : Type}

/-! ## Runs in sequence -/

namespace Run

/-- A run with its value changed. -/
def map (f : α → β) (r : Run σ α) : Run σ β := ⟨r.result.map f, r.rolls, r.seen, r.tray⟩

/-- A run that goes on with the value of another, on the tray that the other left. -/
def bind (r : Run σ α) (next : α → Tray σ → Run σ β) : Run σ β :=
  match r.result with
  | .ok a => (next a r.tray).after r.rolls
  | .error e => ⟨.error e, r.rolls, r.seen, r.tray⟩

@[simp] theorem after_result (r : Run σ α) (rolls : List RollEvent) :
    (r.after rolls).result = r.result := rfl
@[simp] theorem after_rolls (r : Run σ α) (rolls : List RollEvent) :
    (r.after rolls).rolls = rolls ++ r.rolls := rfl
@[simp] theorem after_seen (r : Run σ α) (rolls : List RollEvent) :
    (r.after rolls).seen = r.seen := rfl
@[simp] theorem after_tray (r : Run σ α) (rolls : List RollEvent) :
    (r.after rolls).tray = r.tray := rfl

@[simp] theorem after_nil (r : Run σ α) : r.after [] = r := rfl

theorem after_after (r : Run σ α) (first second : List RollEvent) :
    (r.after second).after first = r.after (first ++ second) := by
  simp [after]

@[simp] theorem bind_ok (a : α) (rolls : List RollEvent) (seen : Nat) (tray : Tray σ)
    (next : α → Tray σ → Run σ β) :
    Run.bind ⟨.ok a, rolls, seen, tray⟩ next = (next a tray).after rolls := rfl

@[simp] theorem bind_error (e : EvalError) (rolls : List RollEvent) (seen : Nat) (tray : Tray σ)
    (next : α → Tray σ → Run σ β) :
    Run.bind ⟨.error e, rolls, seen, tray⟩ next = ⟨.error e, rolls, seen, tray⟩ := rfl

theorem after_bind (r : Run σ α) (rolls : List RollEvent) (next : α → Tray σ → Run σ β) :
    (r.after rolls).bind next = (r.bind next).after rolls := by
  obtain ⟨result, rolls', seen, tray⟩ := r
  cases result with
  | error e => rfl
  | ok a => exact (after_after (next a tray) rolls rolls').symm

theorem bind_bind (r : Run σ α) (f : α → Tray σ → Run σ β) (g : β → Tray σ → Run σ γ) :
    (r.bind f).bind g = r.bind fun a tray => (f a tray).bind g := by
  obtain ⟨result, rolls, seen, tray⟩ := r
  cases result with
  | error e => rfl
  | ok a => exact after_bind (f a tray) rolls g

theorem map_bind (r : Run σ α) (f : α → β) (g : β → Tray σ → Run σ γ) :
    (r.map f).bind g = r.bind fun a tray => g (f a) tray := by
  obtain ⟨result, rolls, seen, tray⟩ := r
  cases result <;> rfl

theorem bind_congr (r : Run σ α) {f g : α → Tray σ → Run σ β} (h : ∀ a tray, f a tray = g a tray) :
    r.bind f = r.bind g :=
  congrArg _ (funext fun a => funext fun tray => h a tray)

/-- Where a run ends if it does not fail. -/
def EndsAt (seen : Nat) (r : Run σ α) : Prop := ∀ a, r.result = .ok a → r.seen = seen

theorem endsAt_bind {r : Run σ α} {next : α → Tray σ → Run σ β} {seen : Nat}
    (h : ∀ a tray, (next a tray).EndsAt seen) : (r.bind next).EndsAt seen := by
  intro b hb
  obtain ⟨result, rolls, seen', tray⟩ := r
  cases result with
  | error e => simp at hb
  | ok a => exact h a tray b hb

end Run

namespace Program

/-- Steps are taken one after the other. -/
theorem runSteps_cons_eq_bind [Roller σ] (seen : Nat) (step : Step) (steps : List Step)
    (stack : List Number) (tray : Tray σ) :
    runSteps seen (step :: steps) stack tray =
      (step.perform stack tray).bind fun stack tray => runSteps seen steps stack tray := by
  rw [runSteps_cons, Run.bind]
  cases (step.perform stack tray).result <;> rfl

/-- A step that leaves a number hands it on. -/
theorem runSteps_of_perform [Roller σ] {step : Step} {stack rest : List Number} {tray : Tray σ}
    {r : Run σ Number} (h : step.perform stack tray = r.map (· :: rest)) (seen : Nat)
    (steps : List Step) :
    runSteps seen (step :: steps) stack tray =
      r.bind fun x tray => runSteps seen steps (x :: rest) tray := by
  rw [runSteps_cons_eq_bind, h, Run.map_bind]

theorem runSteps_singleton_result [Roller σ] (seen : Nat) (step : Step) (stack : List Number)
    (tray : Tray σ) :
    (runSteps seen [step] stack tray).result = (step.perform stack tray).result := by
  rw [runSteps_cons]
  cases (step.perform stack tray).result <;> rfl

/-- Steps after others are taken after them. -/
theorem runSteps_append [Roller σ] (seen : Nat) (first second : List Step) (stack : List Number)
    (tray : Tray σ) :
    runSteps seen (first ++ second) stack tray =
      (runSteps seen first stack tray).bind fun stack tray => runSteps seen second stack tray := by
  induction first generalizing stack tray with
  | nil => rfl
  | cons step first ih =>
    rw [List.cons_append, runSteps_cons_eq_bind, runSteps_cons_eq_bind, Run.bind_bind]
    exact Run.bind_congr _ ih

/-- A step before a program hands its stack on to it. -/
theorem runOn_after_cons [Roller σ] (p : Program) (step : Step) (steps : List Step)
    (stack : List Number) (tray : Tray σ) :
    (p.after (step :: steps)).runOn stack tray =
      (step.perform stack tray).bind (p.after steps).runOn := by
  simp only [runOn, after_steps, after_seen, after_verdict, List.cons_append,
    runSteps_cons_eq_bind]
  obtain ⟨result, rolls, seen, tray'⟩ := step.perform stack tray
  cases result <;> rfl

/-- Steps before a program are taken before it. -/
theorem runOn_after [Roller σ] (p : Program) (steps : List Step) (seen : Nat) (stack : List Number)
    (tray : Tray σ) :
    (p.after steps).runOn stack tray = (runSteps seen steps stack tray).bind p.runOn := by
  induction steps generalizing stack tray with
  | nil => rfl
  | cons step steps ih =>
    rw [runOn_after_cons, runSteps_cons_eq_bind, Run.bind_bind]
    exact Run.bind_congr _ ih

/-- The result of a program, from that of its steps. -/
theorem run_result [Roller σ] (p : Program) (tray : Tray σ) :
    (p.run tray).result = (runSteps p.seen p.steps [] tray).result.bind (conclude p.verdict) := rfl

/-- The steps of a run that succeeds leave a stack. -/
theorem runSteps_of_run_ok [Roller σ] {p : Program} {tray : Tray σ} {x : Number}
    (h : (p.run tray).result = .ok x) :
    ∃ stack, (runSteps p.seen p.steps [] tray).result = .ok stack := by
  rw [run_result] at h
  cases hsteps : (runSteps p.seen p.steps [] tray).result with
  | error e =>
    rw [hsteps] at h
    cases h
  | ok stack => exact ⟨stack, rfl⟩

end Program

/-! ## One step -/

/-- The roll of the dice operator at `index`, the token at `stop` being looked at. -/
def Tray.rollAt [Roller σ] (tray : Tray σ) (index stop : Nat) (quantity sides : Number) :
    Run σ Number :=
  match tray.roll quantity sides with
  | (.error e, tray) => ⟨.error (.roll index e), [], stop, tray⟩
  | (.ok faces, tray) =>
    ⟨finite (RollRecord.sum ⟨sides, faces⟩), [⟨index, stop - 1, ⟨sides, faces⟩⟩], stop, tray⟩

theorem Tray.rollAt_of_ok [Roller σ] {tray tray' : Tray σ} {quantity sides : Number}
    {faces : List Int64} (h : tray.roll quantity sides = (.ok faces, tray')) (index stop : Nat) :
    tray.rollAt index stop quantity sides =
      ⟨finite (RollRecord.sum ⟨sides, faces⟩), [⟨index, stop - 1, ⟨sides, faces⟩⟩], stop,
        tray'⟩ := by
  rw [Tray.rollAt, h]

theorem Tray.rollAt_of_error [Roller σ] {tray tray' : Tray σ} {quantity sides : Number}
    {e : RollError} (h : tray.roll quantity sides = (.error e, tray')) (index stop : Nat) :
    tray.rollAt index stop quantity sides = ⟨.error (.roll index e), [], stop, tray'⟩ := by
  rw [Tray.rollAt, h]

theorem Tray.rollAt_endsAt [Roller σ] (tray : Tray σ) (index stop : Nat)
    (quantity sides : Number) : (tray.rollAt index stop quantity sides).EndsAt stop := by
  intro sum _
  rcases h : tray.roll quantity sides with ⟨result, tray'⟩
  cases result with
  | error e => rw [Tray.rollAt_of_error h]
  | ok faces => rw [Tray.rollAt_of_ok h]

theorem Step.perform_roll [Roller σ] (index seen : Nat) (sides quantity : Number)
    (stack : List Number) (tray : Tray σ) :
    Step.perform ⟨.roll index, seen⟩ (sides :: quantity :: stack) tray =
      (tray.rollAt index seen quantity sides).map (· :: stack) := by
  rcases h : tray.roll quantity sides with ⟨result, tray'⟩
  cases result with
  | error e => rw [Tray.rollAt_of_error h]; simp only [Step.perform, h]; rfl
  | ok faces => rw [Tray.rollAt_of_ok h]; simp only [Step.perform, h]; rfl

/-- The height of the stack after an action, nothing if the action lacks an operand. -/
def Action.height? : Action → Nat → Option Nat
  | .push _, n => some (n + 1)
  | .negate, n + 1 => some (n + 1)
  | .apply .., n + 2 => some (n + 1)
  | .roll _, n + 2 => some (n + 1)
  | _, _ => none

/-- What an action that calculates can come to on a stack. -/
inductive Action.Calculation : Action → List Number → Except EvalError (List Number) → Prop
  | lacking {action stack} : action.height? stack.length = none →
      Calculation action stack (.error .missingOperand)
  | zeroDivision {index stack} :
      Calculation (.apply .div index) stack (.error (.zeroDivision index))
  | value {action stack} (x : Number) (rest : List Number) :
      action.height? stack.length = some (rest.length + 1) →
      Calculation action stack ((finite x).map (· :: rest))

/-- **What a step can do**: calculate, which neither needs nor changes the tray, or roll. -/
theorem Step.perform_cases (step : Step) (stack : List Number) :
    (∃ result, step.action.Calculation stack result ∧
      ∀ {σ : Type} [Roller σ] (tray : Tray σ),
        step.perform stack tray = ⟨result, [], step.seen, tray⟩) ∨
    (∃ index quantity sides rest, step.action = .roll index ∧
      stack = sides :: quantity :: rest ∧
      ∀ {σ : Type} [Roller σ] (tray : Tray σ),
        step.perform stack tray =
          (tray.rollAt index step.seen quantity sides).map (· :: rest)) := by
  obtain ⟨action, seen⟩ := step
  cases action with
  | push x => exact .inl ⟨_, .value x stack rfl, fun _ => rfl⟩
  | negate =>
    rcases stack with _ | ⟨x, rest⟩
    · exact .inl ⟨_, .lacking rfl, fun _ => rfl⟩
    · exact .inl ⟨_, .value (-x) rest rfl, fun _ => rfl⟩
  | apply op index =>
    rcases stack with _ | ⟨right, _ | ⟨left, rest⟩⟩
    · exact .inl ⟨_, .lacking rfl, fun _ => rfl⟩
    · exact .inl ⟨_, .lacking rfl, fun _ => rfl⟩
    · cases op with
      | add => exact .inl ⟨_, .value (left + right) rest rfl, fun _ => rfl⟩
      | sub => exact .inl ⟨_, .value (left - right) rest rfl, fun _ => rfl⟩
      | mul => exact .inl ⟨_, .value (left * right) rest rfl, fun _ => rfl⟩
      | pow => exact .inl ⟨_, .value (left ^ right) rest rfl, fun _ => rfl⟩
      | div =>
        by_cases hzero : right.isZero = true
        · exact .inl ⟨_, .zeroDivision, fun _ => by
            simp [Step.perform, BinaryOp.apply, hzero, Except.bind, Except.map]⟩
        · exact .inl ⟨_, .value (left / right) rest rfl, fun _ => by
            simp [Step.perform, BinaryOp.apply, hzero, Except.bind]⟩
  | roll index =>
    rcases stack with _ | ⟨sides, _ | ⟨quantity, rest⟩⟩
    · exact .inl ⟨_, .lacking rfl, fun _ => rfl⟩
    · exact .inl ⟨_, .lacking rfl, fun _ => rfl⟩
    · exact .inr ⟨index, quantity, sides, rest, rfl, rfl,
        fun tray => Step.perform_roll index seen sides quantity rest tray⟩

/-! ## Whole runs -/

namespace Program

/-- What holds of a tray and the records made on it, and is kept by every
request for dice, is kept by a run. -/
theorem runSteps_invariant [Roller σ] {I : Tray σ → List RollRecord → Prop}
    (herror : ∀ {tray tray' : Tray σ} {records quantity sides e},
      I tray records → tray.roll quantity sides = (.error e, tray') → I tray' records)
    (hok : ∀ {tray tray' : Tray σ} {records quantity sides faces},
      I tray records → tray.roll quantity sides = (.ok faces, tray') →
        I tray' (records ++ [⟨sides, faces⟩]))
    (seen : Nat) (steps : List Step) (stack : List Number) (tray : Tray σ)
    (records : List RollRecord) (h : I tray records) :
    I (runSteps seen steps stack tray).tray
      (records ++ (runSteps seen steps stack tray).rolls.map RollEvent.record) := by
  induction steps generalizing stack tray records with
  | nil => simpa using h
  | cons step steps ih =>
    rw [runSteps_cons_eq_bind]
    rcases step.perform_cases stack with ⟨result, -, hcalc⟩ |
      ⟨index, quantity, sides, rest, -, rfl, hroll⟩
    · rw [hcalc tray]
      cases result with
      | error e => simpa using h
      | ok stack' => exact ih stack' tray records h
    · rw [hroll tray]
      rcases hr : tray.roll quantity sides with ⟨result, tray'⟩
      cases result with
      | error e =>
        rw [Tray.rollAt_of_error hr]
        simpa [Run.map, Except.map] using herror h hr
      | ok faces =>
        -- The roll counts whether or not its sum can be put on the stack.
        have h' := hok h hr
        rw [Tray.rollAt_of_ok hr, Run.map_bind]
        cases finite (RollRecord.sum ⟨sides, faces⟩) with
        | error e => simpa using h'
        | ok sum => simpa using ih (sum :: rest) tray' _ h'

end Program

/-- Two runs that differ in nothing but their trays, which are related. -/
structure Run.Related (R : Tray σ → Tray τ → Prop) (r : Run σ α) (r' : Run τ α) : Prop where
  result : r.result = r'.result
  rolls : r.rolls = r'.rolls
  seen : r.seen = r'.seen
  tray : R r.tray r'.tray

theorem Run.Related.after {R : Tray σ → Tray τ → Prop} {r : Run σ α} {r' : Run τ α}
    (h : Run.Related R r r') (rolls : List RollEvent) :
    Run.Related R (r.after rolls) (r'.after rolls) :=
  ⟨h.result, congrArg (rolls ++ ·) h.rolls, h.seen, h.tray⟩

namespace Program

/-- What a request for dice does not bring about was there before the run. -/
theorem runSteps_back [Roller σ] {G : Tray σ → Prop}
    (hback : ∀ {tray : Tray σ} {quantity sides}, G (tray.roll quantity sides).2 → G tray)
    {seen : Nat} {steps : List Step} {stack : List Number} {tray : Tray σ}
    (h : G (runSteps seen steps stack tray).tray) : G tray :=
  runSteps_invariant (I := fun tray' _ => G tray' → G tray)
    (fun hI hroll h => hI (hback (by rw [hroll]; exact h)))
    (fun hI hroll h => hI (hback (by rw [hroll]; exact h))) seen steps stack tray [] id h

/-- Related trays run alike if they give the same answer to every request for dice, and are related
after it, as long as the first is good. It is good all the time if it is in the end. -/
theorem runSteps_related_while [Roller σ] [Roller τ] {R : Tray σ → Tray τ → Prop}
    {G : Tray σ → Prop}
    (hback : ∀ {tray : Tray σ} {quantity sides}, G (tray.roll quantity sides).2 → G tray)
    (hroll : ∀ {tray : Tray σ} {tray' : Tray τ}, R tray tray' → ∀ quantity sides,
      G (tray.roll quantity sides).2 →
      (tray.roll quantity sides).1 = (tray'.roll quantity sides).1 ∧
        R (tray.roll quantity sides).2 (tray'.roll quantity sides).2)
    (seen : Nat) (steps : List Step) (stack : List Number) (tray : Tray σ) (tray' : Tray τ)
    (h : R tray tray') (hend : G (runSteps seen steps stack tray).tray) :
    Run.Related R (runSteps seen steps stack tray) (runSteps seen steps stack tray') := by
  induction steps generalizing stack tray tray' with
  | nil => exact ⟨rfl, rfl, rfl, h⟩
  | cons step steps ih =>
    rw [runSteps_cons_eq_bind] at hend ⊢
    rw [runSteps_cons_eq_bind]
    rcases step.perform_cases stack with ⟨result, -, hcalc⟩ |
      ⟨index, quantity, sides, rest, -, rfl, hperform⟩
    · rw [hcalc tray] at hend ⊢
      rw [hcalc tray']
      cases result with
      | error e => exact ⟨rfl, rfl, rfl, h⟩
      | ok stack' => exact ih stack' tray tray' h hend
    · rw [hperform tray] at hend ⊢
      rw [hperform tray']
      have hsame := hroll h quantity sides
      rcases hr : tray.roll quantity sides with ⟨result, after⟩
      rcases hr' : tray'.roll quantity sides with ⟨result', after'⟩
      rw [hr, hr'] at hsame
      cases result with
      | error e =>
        rw [Tray.rollAt_of_error hr] at hend ⊢
        obtain ⟨rfl, hrel⟩ := hsame hend
        rw [Tray.rollAt_of_error hr']
        exact ⟨rfl, rfl, rfl, hrel⟩
      | ok faces =>
        rw [Tray.rollAt_of_ok hr, Run.map_bind] at hend ⊢
        cases hsum : finite (RollRecord.sum ⟨sides, faces⟩) with
        | error e =>
          rw [hsum] at hend
          obtain ⟨rfl, hrel⟩ := hsame hend
          rw [Tray.rollAt_of_ok hr', Run.map_bind, hsum]
          exact ⟨rfl, rfl, rfl, hrel⟩
        | ok sum =>
          rw [hsum] at hend
          obtain ⟨rfl, hrel⟩ := hsame (runSteps_back hback hend)
          rw [Tray.rollAt_of_ok hr', Run.map_bind, hsum]
          exact (ih (sum :: rest) after after' hrel hend).after _

/-- Related trays that give the same answer to every request for dice, and are related after it, run
alike. -/
theorem runSteps_related [Roller σ] [Roller τ] {R : Tray σ → Tray τ → Prop}
    (hroll : ∀ {tray : Tray σ} {tray' : Tray τ}, R tray tray' → ∀ quantity sides,
      (tray.roll quantity sides).1 = (tray'.roll quantity sides).1 ∧
        R (tray.roll quantity sides).2 (tray'.roll quantity sides).2)
    (seen : Nat) (steps : List Step) (stack : List Number) (tray : Tray σ) (tray' : Tray τ)
    (h : R tray tray') :
    Run.Related R (runSteps seen steps stack tray) (runSteps seen steps stack tray') :=
  runSteps_related_while (G := fun _ => True) (fun _ => trivial)
    (fun h quantity sides _ => hroll h quantity sides) seen steps stack tray tray' h trivial

end Program

end DiceNotation
