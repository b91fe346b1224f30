import DiceNotation.Proofs.Operands
import DiceNotation.Proofs.Placement

/-!
# DiceNotation.Proofs.Grammar

Which expressions there are. Binding powers group an expression but neither accept nor reject it: a
token fits or not by the mode it is met in and the parentheses that are open, and by nothing else.

* `Grammar.react`: what is to be done with a symbol, given the mode and the open parentheses;
* `Grammar.check`: the verdict on an expression, and the token at which it falls;
* `Program.follows_check`: the reader, which has powers, frames and a limit on levels, comes to the
  same verdict at the same token, unless it meets the limit on the way;
* `Tray.evaluate_grammar`: and so does an evaluation, unless a calculation fails on the way.

The reader simulates the grammar: its frames hold the open parentheses among other things
(`Frame.openings`), and an operator that takes operands from waiting frames never passes one.
-/

namespace DiceNotation

/-! ## The grammar -/

namespace Grammar

/-- What is to be done with a symbol. -/
inductive Reaction where
  /-- To consume it, and then to go on in a mode with these parentheses open, or to fail. -/
  | consume (next : Except EvalError (Mode × List Nat))
  /-- To leave it, and all that follows, unread. -/
  | leave (verdict : Except EvalError Unit)

/-- The reaction to the symbol at `index`, the innermost open parenthesis coming first. -/
def react (openings : List Nat) (index : Nat) : Mode → Symbol → Reaction
  | .operand, .number _ => .consume (.ok (.operator, openings))
  | .operand, .operator op =>
    match op with
    | .sub | .dice _ => .consume (.ok (.operand, openings))
    | .leftParen => .consume (.ok (.operand, index :: openings))
    | .add | .mul | .div | .pow | .rightParen => .consume (.error (.unexpectedValue index))
  | .operator, .number _ => .leave (.error (.unexpectedValue (index - 1)))
  | .operator, .operator op =>
    match op, openings with
    | .leftParen, _ => .consume (.ok (.operand, index :: openings))
    | .rightParen, _ :: outer => .consume (.ok (.operator, outer))
    | .rightParen, [] => .leave (.ok ())
    | _, _ => .consume (.ok (.operand, openings))

/-- The verdict at the end of the tokens. -/
def ending : Mode → List Nat → Except EvalError Unit
  | .operand, _ => .error .unexpectedEnd
  | .operator, [] => .ok ()
  | .operator, opening :: _ => .error (.unclosedGroup opening)

/-- A verdict, and the index of the last token that it took to reach it. -/
structure Report where
  verdict : Except EvalError Unit
  seen : Nat

/-- Checks the tokens from `index` on. The token after one that is consumed is looked at first. -/
def checkFrom (mode : Mode) (openings : List Nat) (index : Nat) : List Token → Report
  | [] => ⟨ending mode openings, index⟩
  | token :: rest =>
    match token.symbol with
    | .error e => ⟨.error e, index⟩
    | .ok symbol =>
      match react openings index mode symbol with
      | .leave verdict => ⟨verdict, index⟩
      | .consume next =>
        match obstacle? rest, next with
        | some e, _ => ⟨.error e, index + 1⟩
        | none, .error e => ⟨.error e, index + 1⟩
        | none, .ok (mode, openings) => checkFrom mode openings (index + 1) rest

/-- Checks an expression. -/
def check (tokens : List Token) : Report := checkFrom .operand [] 0 tokens

/-! ### Equations -/

variable {mode mode' : Mode} {openings openings' : List Nat} {index : Nat} {token : Token}
  {rest : List Token} {symbol : Symbol}

theorem checkFrom_leave (hsymbol : token.symbol = .ok symbol) {verdict : Except EvalError Unit}
    (hreact : react openings index mode symbol = .leave verdict) :
    checkFrom mode openings index (token :: rest) = ⟨verdict, index⟩ := by
  simp only [checkFrom, hsymbol, hreact]

theorem checkFrom_blocked (hsymbol : token.symbol = .ok symbol)
    {next : Except EvalError (Mode × List Nat)}
    (hreact : react openings index mode symbol = .consume next) {e : EvalError}
    (hrest : obstacle? rest = some e) :
    checkFrom mode openings index (token :: rest) = ⟨.error e, index + 1⟩ := by
  simp only [checkFrom, hsymbol, hreact, hrest]

theorem checkFrom_consume (hsymbol : token.symbol = .ok symbol)
    (hreact : react openings index mode symbol = .consume (.ok (mode', openings')))
    (hrest : obstacle? rest = none) :
    checkFrom mode openings index (token :: rest) = checkFrom mode' openings' (index + 1) rest := by
  simp only [checkFrom, hsymbol, hreact, hrest]

theorem le_checkFrom_seen (mode : Mode) (openings : List Nat) (index : Nat) (tokens : List Token) :
    index ≤ (checkFrom mode openings index tokens).seen := by
  induction tokens generalizing mode openings index with
  | nil => exact Nat.le_refl index
  | cons token rest ih =>
    unfold checkFrom
    split
    · exact Nat.le_refl index
    · split
      · exact Nat.le_refl index
      · split
        · exact Nat.le_succ index
        · exact Nat.le_succ index
        · exact Nat.le_of_succ_le (ih ..)

end Grammar

/-! ## Frames -/

namespace Frame

/-- Where a frame was opened that has to be closed. -/
def opening? : Frame → Option Nat
  | .group index | .product index => some index
  | .factor _ | .negation | .dice _ | .binary .. => none

/-- The open parentheses, the innermost first. -/
def openings (frames : List Frame) : List Nat := frames.filterMap opening?

theorem openings_cons (frame : Frame) (frames : List Frame) :
    openings (frame :: frames) = frame.opening?.toList ++ openings frames := by
  cases h : frame.opening? <;> simp [openings, h]

/-- No open parenthesis is passed when operands are taken over. -/
theorem openings_held (power : Nat) (frames : List Frame) :
    openings (held power frames) = openings frames := by
  induction frames with
  | nil => rfl
  | cons frame frames ih =>
    by_cases hyields : frame.yields power = true
    · have hopening : frame.opening? = none := by
        cases frame with
        | group index => simp [yields] at hyields
        | product index => simp [yields] at hyields
        | factor index => rfl
        | negation => rfl
        | dice index => rfl
        | binary op index => rfl
      rw [openings_cons, hopening, ← ih]
      simp [held, hyields]
    · simp [held, hyields]

/-- Frames that hold their operands against the end begin with an open parenthesis. -/
theorem held_zero_cases (frames : List Frame) :
    (held 0 frames = [] ∧ openings frames = []) ∨
      ∃ index outer, openings frames = index :: openings outer ∧
        (held 0 frames = .group index :: outer ∨ held 0 frames = .product index :: outer) := by
  induction frames with
  | nil => exact .inl ⟨rfl, rfl⟩
  | cons frame frames ih =>
    cases frame with
    | group index => exact .inr ⟨index, frames, rfl, .inl rfl⟩
    | product index => exact .inr ⟨index, frames, rfl, .inr rfl⟩
    | factor index => exact ih
    | negation => exact ih
    | dice index => exact ih
    | binary op index => exact ih

theorem unclosed?_held_zero (frames : List Frame) :
    unclosed? (held 0 frames) = (openings frames).head? := by
  rcases held_zero_cases frames with ⟨hheld, hopen⟩ | ⟨index, outer, hopen, hheld | hheld⟩ <;>
    simp [hheld, hopen, unclosed?]

theorem openings_of_close?_none {frames : List Frame} (h : close? (held 0 frames) = none) :
    openings frames = [] := by
  rcases held_zero_cases frames with ⟨_, hopen⟩ | ⟨index, outer, _, hheld | hheld⟩
  · exact hopen
  · simp [hheld, close?] at h
  · simp [hheld, close?] at h

theorem openings_of_close? {frames outer : List Frame} (h : close? (held 0 frames) = some outer) :
    ∃ index, openings frames = index :: openings outer := by
  rcases held_zero_cases frames with ⟨hheld, _⟩ | ⟨index, outer', hopen, hheld | hheld⟩
  · simp [hheld, close?] at h
  · rw [hheld] at h
    cases h
    exact ⟨index, hopen⟩
  · rw [hheld] at h
    cases h
    exact ⟨index, hopen⟩

theorem levels_held_le (power : Nat) (frames : List Frame) :
    levels (held power frames) ≤ levels frames :=
  ((List.dropWhile_suffix _).sublist).countP_le

theorem levels_cons_le (frame : Frame) (frames : List Frame) :
    levels (frame :: frames) ≤ levels frames + 1 := by
  rw [levels_cons]
  split
  · exact Nat.le_refl _
  · exact Nat.le_succ _

theorem levels_close?_le {frames outer : List Frame} (h : close? frames = some outer) :
    levels outer ≤ levels frames := by
  unfold close? at h
  split at h <;> cases h <;> simp [levels_cons, deepens]

end Frame

/-! ## The reader follows the grammar -/

namespace Program

/-- What is read agrees with a report, unless it stops before at the limit on levels. -/
def Follows (p : Program) (report : Grammar.Report) : Prop :=
  (p.verdict = .error .tooDeep ∧ levelLimit ≤ p.seen ∧ p.seen ≤ report.seen) ∨
    (p.verdict = report.verdict ∧ p.seen = report.seen)

theorem Halt.follows {frames : List Frame} {index : Nat} {mode : Mode} {tokens : List Token}
    {program : Program} (h : Halt .whole frames index mode tokens program)
    (hlevels : Frame.levels frames ≤ index) :
    program.Follows (Grammar.checkFrom mode (Frame.openings frames) index tokens) := by
  cases h with
  | tooDeep hadmits =>
    refine .inl ⟨rfl, ?_, Grammar.le_checkFrom_seen ..⟩
    have : levelLimit ≤ Frame.levels frames := by simpa [Scope.admits, Scope.whole] using hadmits
    exact Nat.le_trans this hlevels
  | lacking _ => exact .inr ⟨rfl, rfl⟩
  | unreadable _ hsymbol =>
    right
    simp only [Grammar.checkFrom, hsymbol]
    exact ⟨rfl, rfl⟩
  | @blocked token rest symbol e _ hsymbol hrest =>
    right
    -- Every symbol is consumed where an operand is expected, and the next token is looked at first.
    obtain ⟨next, hreact⟩ : ∃ next,
        Grammar.react (Frame.openings frames) index .operand symbol = .consume next := by
      rcases symbol with x | op
      · exact ⟨_, rfl⟩
      · cases op <;> exact ⟨_, rfl⟩
    rw [Grammar.checkFrom_blocked hsymbol hreact hrest]
    exact ⟨rfl, rfl⟩
  | @misplacedOperator token rest op _ hsymbol hop hrest =>
    right
    have hreact : Grammar.react (Frame.openings frames) index .operand (.operator op) =
        .consume (.error (.unexpectedValue index)) := by
      cases op <;> first | rfl | cases hop
    simp only [Grammar.checkFrom, hsymbol, hreact, hrest]
    exact ⟨rfl, rfl⟩
  | misplacedNumber hsymbol =>
    right
    rw [Grammar.checkFrom_leave hsymbol rfl]
    exact ⟨rfl, rfl⟩
  | unclosed hopening =>
    right
    rw [Frame.unclosed?_held_zero] at hopening
    obtain ⟨outer, houter⟩ := List.head?_eq_some_iff.1 hopening
    simp [Grammar.checkFrom, Grammar.ending, houter, stop]
  | complete hopening =>
    right
    rw [Frame.unclosed?_held_zero, List.head?_eq_none_iff] at hopening
    simp [Grammar.checkFrom, Grammar.ending, hopening, finish]
  | outside _ hop _ hpower =>
    -- Every operator binds more tightly than a whole expression.
    unfold Operator.continuing? at hop
    split at hop <;> cases hop <;> cases hpower
  | @blockedOperator token rest op power frame e hsymbol hop _ hrest =>
    right
    obtain ⟨next, hreact⟩ : ∃ next,
        Grammar.react (Frame.openings frames) index .operator (.operator op) = .consume next := by
      cases op <;> first | exact ⟨_, rfl⟩ | cases hop
    rw [Grammar.checkFrom_blocked hsymbol hreact hrest]
    exact ⟨rfl, rfl⟩
  | @closed token rest op hsymbol hop hclose =>
    right
    have hreact : Grammar.react (Frame.openings frames) index .operator (.operator op) =
        .leave (.ok ()) := by
      rw [Frame.openings_of_close?_none hclose]
      cases op <;> first | rfl | cases hop
    rw [Grammar.checkFrom_leave hsymbol hreact]
    exact ⟨rfl, rfl⟩
  | @blockedClosing token rest op outer e hsymbol hop hclose hrest =>
    right
    obtain ⟨opening, hopen⟩ := Frame.openings_of_close? hclose
    have hreact : Grammar.react (Frame.openings frames) index .operator (.operator op) =
        .consume (.ok (.operator, Frame.openings outer)) := by
      rw [hopen]
      cases op <;> first | rfl | cases hop
    rw [Grammar.checkFrom_blocked hsymbol hreact hrest]
    exact ⟨rfl, rfl⟩

theorem Move.follows {frames frames' : List Frame} {index : Nat} {token : Token}
    {mode mode' : Mode} {steps : List Step}
    (h : Move .whole frames index token mode steps mode' frames') :
    ∃ symbol, token.symbol = .ok symbol ∧
      Grammar.react (Frame.openings frames) index mode symbol =
        .consume (.ok (mode', Frame.openings frames')) := by
  cases h with
  | number _ hsymbol => exact ⟨_, hsymbol, rfl⟩
  | @opening op _ _ _ hsymbol hop =>
    refine ⟨_, hsymbol, ?_⟩
    cases op <;> cases hop <;> rfl
  | @continuing op power frame hsymbol hop _ =>
    refine ⟨_, hsymbol, ?_⟩
    -- The frames that get their operands hold no parenthesis open.
    have hheld := Frame.openings_held power frames
    cases op <;> cases hop <;> simp [Grammar.react, Frame.openings_cons, Frame.opening?, hheld]
  | @closing op outer hsymbol hop hclose =>
    obtain ⟨opening, hopen⟩ := Frame.openings_of_close? hclose
    refine ⟨_, hsymbol, ?_⟩
    rw [hopen]
    cases op <;> first | rfl | cases hop

/-- A token opens at most one level. -/
theorem Move.levels_le {scope : Scope} {frames frames' : List Frame} {index : Nat} {token : Token}
    {mode mode' : Mode} {steps : List Step}
    (h : Move scope frames index token mode steps mode' frames') :
    Frame.levels frames' ≤ Frame.levels frames + 1 := by
  cases h with
  | number _ _ => exact Nat.le_succ _
  | opening _ _ _ => exact Frame.levels_cons_le ..
  | continuing _ _ _ =>
    exact Nat.le_trans (Frame.levels_cons_le ..) (Nat.succ_le_succ (Frame.levels_held_le ..))
  | closing _ _ hclose =>
    exact Nat.le_succ_of_le
      (Nat.le_trans (Frame.levels_close?_le hclose) (Frame.levels_held_le ..))

/-- The reader comes to the verdict of the grammar at the same token, unless it stops before because
expressions are nested too deeply. -/
theorem follows_check (tokens : List Token) : (ofTokens tokens).Follows (Grammar.check tokens) := by
  refine read_induct .whole
    (P := fun mode frames index rest program => Frame.levels frames ≤ index →
      program.Follows (Grammar.checkFrom mode (Frame.openings frames) index rest))
    (fun h hlevels => h.follows hlevels) ?_ tokens .operand [] 0 (Nat.zero_le 0)
  intro _ _ _ _ _ _ _ _ _ hmove hrest ih hlevels
  obtain ⟨symbol, hsymbol, hreact⟩ := hmove.follows
  rw [Grammar.checkFrom_consume hsymbol hreact hrest]
  exact ih (Nat.le_trans hmove.levels_le (Nat.succ_le_succ hlevels))

end Program

/-! ## Evaluating -/

variable {σ : Type} [Roller σ]

namespace Program

/-- Where the steps of an expression fail they fail for a value, and not for want of an operand. -/
theorem runSteps_failure {tokens : List Token} {tray : Tray σ} {why : EvalError}
    (h : (runSteps (ofTokens tokens).seen (ofTokens tokens).steps [] tray).result = .error why) :
    why = .notFinite ∨ (∃ index, why = .zeroDivision index) ∨
      ∃ index cause, why = .roll index cause := by
  obtain ⟨step, _, hfailure, _⟩ := runSteps_error h
  generalize step.action = action at hfailure
  cases hfailure with
  | notFinite => exact .inl rfl
  | missingOperand =>
    obtain ⟨height, hheight, _⟩ := supplied_ofTokens tokens
    exact absurd h (runSteps_height hheight rfl _ tray).1
  | zeroDivision => exact .inr (.inl ⟨_, rfl⟩)
  | roll => exact .inr (.inr ⟨_, _, rfl⟩)

theorem runSteps_ne_tooDeep {tokens : List Token} {tray : Tray σ} :
    (runSteps (ofTokens tokens).seen (ofTokens tokens).steps [] tray).result ≠ .error .tooDeep := by
  intro h
  rcases runSteps_failure h with hwhy | ⟨_, hwhy⟩ | ⟨_, _, hwhy⟩ <;> cases hwhy

/-- **Why a run fails**: one of its steps does, or they are all taken and the
verdict is an error. -/
theorem run_error {tokens : List Token} {tray : Tray σ} {why : EvalError}
    (h : ((ofTokens tokens).run tray).result = .error why) :
    (runSteps (ofTokens tokens).seen (ofTokens tokens).steps [] tray).result = .error why ∨
      (ofTokens tokens).verdict = .error why ∧
        ((ofTokens tokens).run tray).seen = (ofTokens tokens).seen := by
  rw [run_result] at h
  cases hsteps : (runSteps (ofTokens tokens).seen (ofTokens tokens).steps [] tray).result with
  | error e =>
    rw [hsteps] at h
    cases h
    exact .inl rfl
  | ok stack =>
    rw [hsteps] at h
    have hverdict : verdictOf (conclude (ofTokens tokens).verdict stack) = .error why :=
      verdictOf_eq_error.2 h
    rw [verdictOf_conclude (supplied_ofTokens tokens) hsteps] at hverdict
    exact .inr ⟨hverdict, runSteps_endsAt _ _ _ _ stack hsteps⟩

/-- The errors of a run point at the tokens they are named for. -/
theorem run_placed (tokens : List Token) (tray : Tray σ) :
    ∀ why, ((ofTokens tokens).run tray).result = .error why →
      why.Placed tokens ((ofTokens tokens).run tray).seen := by
  intro why h
  have hplaced := placed_ofTokens tokens
  rcases run_error h with hstep | ⟨hverdict, hseen⟩
  · obtain ⟨step, hmem, hfailure, -⟩ := runSteps_error hstep
    exact hfailure.placed (hplaced.steps step hmem) _
  · rw [hseen]
    exact hplaced.verdict why hverdict

end Program

namespace Tray

/-- An evaluation fails as its run does. -/
theorem evaluate_outcome_eq_error (tray : Tray σ) (e : Expression) (why : EvalError) :
    (tray.evaluate e).1.outcome = .error why ↔
      ((Program.ofTokens e.tokens).run tray.reset).result = .error why := by
  rw [← verdictOf_eq_error, evaluate, verdictOf_map, verdictOf_eq_error]

/-- The errors at the tokens after an evaluation: those from before, and the
blame for the outcome. -/
theorem evaluate_errors (tray : Tray σ) (e : Expression) :
    (tray.evaluate e).1.tokens.map Token.error =
      blame (tray.evaluate e).1.outcome (e.tokens.map Token.error) := by
  have hblame : (tray.evaluate e).1.tokens.map Token.error = _ :=
    errors_annotate (Program.run_placed e.tokens tray.reset)
  rw [hblame, evaluate]
  cases ((Program.ofTokens e.tokens).run tray.reset).result <;> rfl

end Tray

/-- **An expression is accepted or rejected as the grammar says.** An evaluation comes to the
verdict of the grammar, at the token where the grammar comes to it, and leaves it there: no error at
a token changes but at the one to blame, which carried none. Only two things can come before the
verdict: a calculation that fails, or a limit on levels that takes as many tokens to reach. -/
theorem Tray.evaluate_grammar (tray : Tray σ) (e : Expression) :
    let program := Program.ofTokens e.tokens
    let calculation := Program.runSteps program.seen program.steps [] tray.reset
    let report := Grammar.check e.tokens
    let result := (tray.evaluate e).1
    ((∃ why, calculation.result = .error why ∧ result.outcome = .error why ∧
        (why = .notFinite ∨ (∃ index, why = .zeroDivision index) ∨
          ∃ index cause, why = .roll index cause) ∧
        calculation.seen ≤ report.seen) ∨
      (result.outcome = .error .tooDeep ∧
        levelLimit ≤ calculation.seen ∧ calculation.seen ≤ report.seen) ∨
      (verdictOf result.outcome = report.verdict ∧ calculation.seen = report.seen)) ∧
    result.tokens.map Token.error = blame result.outcome (e.tokens.map Token.error) ∧
    ∀ why, result.outcome = .error why → why.Placed e.tokens calculation.seen ∧
      ∀ index mark, why.mark? = some (index, mark) →
        e.tokens[index]?.map Token.error = some none := by
  intro program calculation report result
  have hfollows : program.Follows report := Program.follows_check e.tokens
  have hrun : (program.run tray.reset).result =
      calculation.result.bind (Program.conclude program.verdict) := Program.run_result ..
  have herror := tray.evaluate_outcome_eq_error e
  refine ⟨?_, tray.evaluate_errors e, fun why h => ?_⟩
  · cases hcalculation : calculation.result with
    | error why =>
      -- A calculation has failed; its steps do not reach further than the program.
      have hfailed : result.outcome = .error why := (herror why).2 (by rw [hrun, hcalculation]; rfl)
      refine .inl ⟨why, rfl, hfailed, Program.runSteps_failure hcalculation, ?_⟩
      refine Nat.le_trans (Program.runSteps_seen_le e.tokens tray.reset) ?_
      rcases hfollows with ⟨_, _, hseen⟩ | ⟨_, hseen⟩
      · exact hseen
      · exact Nat.le_of_eq hseen
    | ok stack =>
      -- All that is left is the verdict on the syntax.
      have hseen : calculation.seen = program.seen :=
        Program.runSteps_endsAt _ _ _ _ stack hcalculation
      have hverdict : verdictOf result.outcome = program.verdict := by
        have houtcome : verdictOf result.outcome = verdictOf (program.run tray.reset).result :=
          verdictOf_map ..
        rw [houtcome, hrun, hcalculation]
        exact Program.verdictOf_conclude (Program.supplied_ofTokens e.tokens) hcalculation
      rcases hfollows with ⟨hdeep, hlevels, hle⟩ | ⟨hsame, hat⟩
      · have hfailed := verdictOf_eq_error.1 (hverdict.trans hdeep)
        exact .inr (.inl ⟨hfailed, hseen ▸ hlevels, hseen ▸ hle⟩)
      · exact .inr (.inr ⟨hverdict.trans hsame, hseen.trans hat⟩)
  · have hwhy := Program.run_placed e.tokens tray.reset why ((herror why).1 h)
    exact ⟨hwhy, fun index mark hmark => hwhy.error_eq_none hmark⟩

end DiceNotation
