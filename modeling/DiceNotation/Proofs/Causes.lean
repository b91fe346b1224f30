import DiceNotation.Proofs.Nesting
import DiceNotation.Proofs.Throwing
import DiceNotation.Roller.Stepping

/-!
# DiceNotation.Proofs.Causes

What the general message stands for. Several causes share it, and a text can bring about two of
them: expressions that are nested too deeply, and a literal or the value of an operator that is
infinite or not a number. The others do not occur:

* what is asked to begin an operand is a token, and what is asked to go on with
  one is an operator that can (`Descent.Event.Expected`);
* a token that has no meaning carries an error (`Token.symbol_of_scan`);
* a roller that answers is never found to have given no faces (`Tray.roll_of_leads`);
* a step finds its operands (`Program.runSteps_failure`).

`Roller.Answers` is what is expected of the roller, and `Step.Brings` is the
value a step comes to, before it is looked at.
-/

namespace DiceNotation

/-! ## Rollers that answer -/

namespace Roller

variable {σ : Type} [Roller σ]

/-- Where throws lead a roller. -/
inductive Leads (roller : σ) : σ → Prop
  | start : Leads roller roller
  | throw {state : σ} (quantity sides : Number) :
      Leads roller state → Leads roller (Roller.throw state quantity sides).2

/-- A roller that gives at least one face whenever it is asked, now and later. -/
def Answers (roller : σ) : Prop :=
  ∀ state, Leads roller state → ∀ quantity sides, Asks quantity sides →
    (Roller.throw state quantity sides).1 ≠ []

/-- A roller that gives as many faces as it is asked for gives one. -/
theorem answers_of_exact [Exact σ] (roller : σ) : Answers roller := by
  intro state _ quantity sides hasks hempty
  have hlength :=
    Exact.length_roll state (Tray.diceOf_pos quantity) (Int.pos_iff_toNat_pos.1 hasks.2)
  rw [← throw_of_asks hasks, hempty] at hlength
  exact Nat.ne_of_lt (Tray.diceOf_pos quantity) hlength

theorem Answers.throw_ne_nil {roller state : σ} (h : Answers roller) (hleads : Leads roller state)
    (quantity sides : Number) : (Roller.throw state quantity sides).1 ≠ [] := by
  by_cases hasks : Asks quantity sides
  · exact h state hleads quantity sides hasks
  · -- The roller is not asked, and every die shows a zero.
    rw [throw_of_not_asks hasks]
    exact fun hempty =>
      Nat.ne_of_gt (Tray.diceOf_pos quantity) (List.replicate_eq_nil_iff 0 |>.1 hempty)

end Roller

variable {σ : Type} [Roller σ]

/-- A request leads the roller on, and gets faces or is refused for their number. -/
theorem Tray.roll_of_leads {roller : σ} (h : Roller.Answers roller) {tray : Tray σ}
    (hleads : Roller.Leads roller tray.roller) (quantity sides : Number) :
    (tray.roll quantity sides).1 ≠ .error .noFaces ∧
      Roller.Leads roller (tray.roll quantity sides).2.roller := by
  have hfaces := h.throw_ne_nil hleads quantity sides
  have hnext := Roller.Leads.throw quantity sides hleads
  rw [Tray.roll_eq]
  split
  · exact ⟨nofun, hleads⟩
  · rcases hthrow : Roller.throw tray.roller quantity sides with ⟨_ | ⟨face, faces⟩, roller'⟩
    · rw [hthrow] at hfaces
      exact absurd rfl hfaces
    · rw [hthrow] at hnext
      exact ⟨nofun, hnext⟩

/-- The roller of a run is one that throws have led to. -/
theorem Program.runSteps_leads {roller : σ} (h : Roller.Answers roller) {tray : Tray σ}
    (hleads : Roller.Leads roller tray.roller) (seen : Nat) (steps : List Step)
    (stack : List Number) :
    Roller.Leads roller (runSteps seen steps stack tray).tray.roller := by
  have hkept : ∀ {tray tray' : Tray σ} {quantity sides result},
      Roller.Leads roller tray.roller → tray.roll quantity sides = (result, tray') →
      Roller.Leads roller tray'.roller := by
    intro tray tray' quantity sides result hleads hroll
    have hnext := (Tray.roll_of_leads h hleads quantity sides).2
    rw [hroll] at hnext
    exact hnext
  exact runSteps_invariant (I := fun tray _ => Roller.Leads roller tray.roller) hkept hkept
    seen steps stack tray [] hleads

/-! ## Steps that fail -/

/-- The value that a step comes to on a stack, before it is looked at. -/
inductive Step.Brings (tray : Tray σ) : Action → List Number → Number → Prop
  | literal {stack} (x : Number) : Brings tray (.push x) stack x
  | negation {stack} (x : Number) : Brings tray .negate (x :: stack) (-x)
  | operator {op index left right x stack} : op.apply index left right = .ok x →
      Brings tray (.apply op index) (right :: left :: stack) x
  | dice {index quantity sides faces stack} : (tray.roll quantity sides).1 = .ok faces →
      Brings tray (.roll index) (sides :: quantity :: stack) (RollRecord.sum ⟨sides, faces⟩)

theorem isFinite_of_notFinite {x : Number} (h : finite x = .error .notFinite) :
    x.isFinite = false := by
  unfold finite at h
  split at h
  · cases h
  · simpa using ‹¬ x.isFinite = true›

/-- A step that fails for a value has come to that value. -/
theorem Step.exists_brings {step : Step} {stack : List Number} {tray : Tray σ}
    (h : (step.perform stack tray).result = .error .notFinite) :
    ∃ x, Step.Brings tray step.action stack x ∧ x.isFinite = false := by
  have hvalue : ∀ {x : Number} {rest : List Number},
      (finite x).map (· :: rest) = .error .notFinite → x.isFinite = false := by
    intro x rest h
    cases hx : finite x with
    | ok y =>
      rw [hx] at h
      cases h
    | error e =>
      rw [hx] at h
      cases h
      exact isFinite_of_notFinite hx
  obtain ⟨action, seen⟩ := step
  cases action with
  | push x => exact ⟨x, .literal x, hvalue h⟩
  | negate =>
    rcases stack with _ | ⟨x, rest⟩
    · cases h
    · exact ⟨-x, .negation x, hvalue h⟩
  | apply op index =>
    rcases stack with _ | ⟨right, _ | ⟨left, rest⟩⟩
    · cases h
    · cases h
    · replace h : ((op.apply index left right).bind finite).map (· :: rest) = .error .notFinite := h
      cases happly : op.apply index left right with
      | ok x =>
        rw [happly] at h
        exact ⟨x, .operator happly, hvalue h⟩
      | error e =>
        -- Only a division can fail, and for another reason.
        rw [happly] at h
        unfold BinaryOp.apply at happly
        split at happly
        case h_4 => split at happly <;> cases happly; cases h
        all_goals cases happly
  | roll index =>
    rcases stack with _ | ⟨sides, _ | ⟨quantity, rest⟩⟩
    · cases h
    · cases h
    · rw [Step.perform_roll] at h
      rcases hroll : tray.roll quantity sides with ⟨result, tray'⟩
      cases result with
      | error e =>
        rw [Tray.rollAt_of_error hroll] at h
        cases h
      | ok faces =>
        rw [Tray.rollAt_of_ok hroll] at h
        exact ⟨_, .dice (congrArg Prod.fst hroll), hvalue h⟩

theorem Step.noFaces_of_perform {step : Step} {stack : List Number} {tray : Tray σ} {index : Nat}
    (h : (step.perform stack tray).result = .error (.roll index .noFaces)) :
    ∃ quantity sides, (tray.roll quantity sides).1 = .error .noFaces := by
  have hvalue : ∀ {x : Number} {rest : List Number},
      (finite x).map (· :: rest) ≠ .error (.roll index .noFaces) := by
    intro x rest h
    unfold finite at h
    split at h <;> cases h
  rcases step.perform_cases stack with ⟨result, hcalculation, hcalc⟩ |
    ⟨at', quantity, sides, rest, -, -, hroll⟩
  · rw [hcalc tray] at h
    generalize step.action = action at hcalculation
    cases hcalculation with
    | lacking _ | zeroDivision => cases h
    | value x rest _ => exact absurd h hvalue
  · rw [hroll tray] at h
    refine ⟨quantity, sides, ?_⟩
    rcases hanswer : tray.roll quantity sides with ⟨result, tray'⟩
    cases result with
    | error e =>
      rw [Tray.rollAt_of_error hanswer] at h
      cases h
      rfl
    | ok faces =>
      rw [Tray.rollAt_of_ok hanswer] at h
      exact absurd h hvalue

namespace Program

/-- A run of steps fails at one of them, after those before it. -/
theorem exists_failing {seen : Nat} {steps : List Step} {stack : List Number} {tray : Tray σ}
    {why : EvalError} (h : (runSteps seen steps stack tray).result = .error why) :
    ∃ taken step stack', taken ++ [step] <+: steps ∧
      (runSteps seen taken stack tray).result = .ok stack' ∧
      (step.perform stack' (runSteps seen taken stack tray).tray).result = .error why := by
  induction steps generalizing stack tray with
  | nil => cases h
  | cons step steps ih =>
    rw [runSteps_cons_eq_bind] at h
    cases hstep : (step.perform stack tray).result with
    | error e =>
      rw [Run.bind, hstep] at h
      cases h
      exact ⟨[], step, stack, List.prefix_append [step] steps, rfl, hstep⟩
    | ok next =>
      rw [Run.bind, hstep] at h
      obtain ⟨taken, last, stack', hprefix, htaken, hlast⟩ := ih h
      refine ⟨step :: taken, last, stack', (List.prefix_cons_inj step).2 hprefix, ?_⟩
      rw [runSteps_cons_eq_bind, Run.bind, hstep]
      exact ⟨htaken, hlast⟩

end Program

/-! ## Texts -/

/-- **A token of a text that has no meaning carries an error**, which has a message of its own. -/
theorem Token.symbol_of_scan {text : String} {token : Token}
    (h : token ∈ (Expression.scan text).tokens) {e : EvalError} (herror : token.symbol = .error e) :
    e ≠ .unreadable ∧ e.message ≠ generalMessage := by
  obtain ⟨⟨span, run⟩, -, hrun⟩ := List.mem_filterMap.1 h
  replace hrun : Token.ofRun? span run = some token := hrun
  unfold Token.ofRun? at hrun
  split at hrun
  · cases hrun
  · split at hrun
    · cases hrun
    · cases hrun
      cases herror
    · cases hrun
      unfold Token.ofNumeric at herror
      split at herror <;> cases herror
      exact ⟨nofun, by decide⟩
    · cases hrun
      cases herror
      exact ⟨nofun, by decide⟩

/-- Reading a text fails with a message of its own, but for the nesting. -/
theorem Descent.Findable.message_ne {text : String} {e : EvalError}
    (h : Findable (Expression.scan text).tokens e) : e.message ≠ generalMessage := by
  cases e with
  | unexpectedValue _ | unexpectedEnd | unclosedGroup _ => simp [EvalError.message, generalMessage]
  | lexical _ | unreadable =>
    obtain ⟨token, hmem, hsymbol⟩ := h
    exact (Token.symbol_of_scan hmem hsymbol).2
  | zeroDivision _ | roll _ _ | tooDeep | notFinite | missingOperand => exact h.elim

/-! ## Evaluating -/

open Descent

/-- **The general message has two causes.** Evaluate any text with a roller that gives a face
whenever it is asked. Then nothing is asked to begin an operand or to go on with one that cannot be,
every token without a meaning carries an error, and no request is answered without a face. So an
evaluation that fails with the general message has come to an expression beyond the limit of levels,
or to a step whose value is infinite or not a number. -/
theorem Tray.evaluateText_causes (tray : Tray σ) (text : String)
    (hanswers : Roller.Answers tray.roller) :
    let tokens := (Expression.scan text).tokens
    let program := Program.ofTokens tokens
    let run := fun taken => Program.runSteps program.seen taken [] tray.reset
    ∃ a, (∀ calls, 2 * tokens.length < calls → Descent.read calls tokens = some a) ∧
      a.program = program ∧
      Event.opening none ∉ a.events ∧
      (∀ symbol, Event.continuing symbol ∈ a.events →
        ∃ op, symbol = some (.operator op) ∧ op ≠ .rightParen) ∧
      (∀ token ∈ tokens, token.symbol ≠ .error .unreadable) ∧
      (∀ taken quantity sides, ((run taken).tray.roll quantity sides).1 ≠ .error .noFaces) ∧
      ∀ why, (tray.evaluateText text).1.outcome = .error why → why.message = generalMessage →
        (why = .tooDeep ∧ ∃ taken index, a.Reaches tray.reset taken ∧
          taken ++ [.enter index (levelLimit + 1)] <+: a.events) ∨
        (why = .notFinite ∧ ∃ taken step stack x, program.Reaches tray.reset taken stack ∧
          taken ++ [step] <+: program.steps ∧
          Step.Brings (run taken).tray step.action stack x ∧ x.isFinite = false) := by
  intro tokens program run
  obtain ⟨a, hread, h⟩ := exists_read tokens
  have hstart : Roller.Leads tray.roller tray.reset.roller := .start
  have hfaces : ∀ taken quantity sides,
      ((run taken).tray.roll quantity sides).1 ≠ .error .noFaces :=
    fun taken quantity sides => (Tray.roll_of_leads hanswers
      (Program.runSteps_leads hanswers hstart program.seen taken []) quantity sides).1
  refine ⟨a, hread, h.program, fun hmem => h.expected _ hmem rfl,
    fun symbol hmem => h.expected _ hmem,
    fun token hmem herror => (Token.symbol_of_scan hmem herror).1 rfl, hfaces, ?_⟩
  intro why houtcome hmessage
  have hrun := (tray.evaluate_outcome_eq_error (.scan text) why).1 houtcome
  rcases Program.run_error hrun with hsteps | ⟨hverdict, -⟩
  · obtain ⟨taken, step, stack, hprefix, htaken, hfailed⟩ := Program.exists_failing hsteps
    rcases Program.runSteps_failure hsteps with rfl | ⟨index, rfl⟩ | ⟨index, cause, rfl⟩
    · obtain ⟨x, hbrings, hx⟩ := Step.exists_brings hfailed
      exact .inr ⟨rfl, taken, step, stack, x, ⟨(List.prefix_append _ _).trans hprefix, htaken⟩,
        hprefix, hbrings, hx⟩
    · simp [EvalError.message, generalMessage] at hmessage
    · cases cause with
      | tooManyRolls => simp [EvalError.message, RollError.message, generalMessage] at hmessage
      | noFaces =>
        obtain ⟨quantity, sides, hnone⟩ := Step.noFaces_of_perform hfailed
        exact absurd hnone (hfaces taken quantity sides)
  · by_cases hdeep : why = .tooDeep
    · subst hdeep
      exact .inl ⟨rfl, h.reaches_of_tooDeep hrun⟩
    · exact absurd hmessage (h.findable_of_verdict hverdict hdeep).message_ne

/-- Eighteen factors that are too large together. -/
theorem Tray.evaluateText_causes_large :
    let tray : Tray Roller.Stepping := ⟨some 20, 0, ⟨1, 1⟩⟩
    let text := "10^18*10^18*10^18*10^18*10^18*10^18*10^18*10^18*10^18*" ++
      "10^18*10^18*10^18*10^18*10^18*10^18*10^18*10^18*10^18"
    let program := Program.ofTokens (Expression.scan text).tokens
    let run := fun taken => Program.runSteps program.seen taken [] tray.reset
    Roller.Answers tray.roller ∧ (tray.evaluateText text).1.outcome = .error .notFinite ∧
      ∃ taken step stack x, program.Reaches tray.reset taken stack ∧
        taken ++ [step] <+: program.steps ∧
        Step.Brings (run taken).tray step.action stack x ∧ x.isFinite = false := by
  intro tray text program run
  have hanswers : Roller.Answers tray.roller := Roller.answers_of_exact tray.roller
  have houtcome : (tray.evaluateText text).1.outcome = .error .notFinite := by decide +kernel
  obtain ⟨a, -, -, -, -, -, -, hcauses⟩ := tray.evaluateText_causes text hanswers
  rcases hcauses _ houtcome rfl with ⟨hdeep, -⟩ | ⟨-, hstep⟩
  · cases hdeep
  · exact ⟨hanswers, houtcome, hstep⟩

end DiceNotation
