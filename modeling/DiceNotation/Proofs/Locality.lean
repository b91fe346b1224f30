import DiceNotation.Proofs.Structure
import DiceNotation.Roller.Stepping

/-!
# DiceNotation.Proofs.Locality

A run depends on the tokens that it has looked at, and on no others.

Two expressions that begin with the same tokens are compared. Their programs agree until a token is
looked at in which they differ (`Program.AgreeBelow`), and what a program does from there on it does
with a later token in view (`Program.Beyond`). So a run that ends before that is a run of both.

* `Program.head`: what a token makes of a program, as far as it does not depend on what follows it;
* `Program.read_agree`: programs of expressions with a common beginning;
* `Program.AgreeBelow.runOn_eq`: runs of programs that agree;
* `Program.read_closing`: an expression that ends at the end may as well end at
  a closing parenthesis;
* `Tray.evaluate_local`: evaluations of expressions with a common beginning.
-/

namespace DiceNotation

variable {σ : Type} [Roller σ]

/-! ## The head of an expression -/

namespace Program

/-- Looks at the token after the one at `index`, and goes on if that is possible. -/
def lookPast (index : Nat) (rest : List Token) (next : List Token → Program) : Program :=
  match obstacle? rest with
  | some e => stop e (index + 1)
  | none => next rest

/-- What a token makes of the program that is read from it on, whatever follows it. -/
inductive Head (scope : Scope) (frames : List Frame) (index : Nat) (token : Token) (mode : Mode) :
    Prop where
  /-- Reading ends at the token. -/
  | settled (program : Program) :
      (∀ rest, read scope mode frames index (token :: rest) = program) →
      Head scope frames index token mode
  /-- The token does not fit, which is found once the next one has been looked at. -/
  | refused (e : EvalError) : (∀ rest, read scope mode frames index (token :: rest) =
        lookPast index rest fun _ => stop e (index + 1)) →
      Head scope frames index token mode
  /-- The token is consumed. Some steps are taken in view of the token, and some
  in view of the next. -/
  | consumed (before behind : List Step) (mode' : Mode) (frames' : List Frame) :
      (∀ step ∈ behind, step.seen = index + 1) →
      (∀ rest, read scope mode frames index (token :: rest) =
        (lookPast index rest fun rest =>
          (read scope mode' frames' (index + 1) rest).after behind).after before) →
      Head scope frames index token mode

/-- **What follows a token counts by whether it can be looked at**, and after
that only if the token is consumed. -/
theorem head (scope : Scope) (mode : Mode) (frames : List Frame) (index : Nat) (token : Token) :
    Head scope frames index token mode := by
  cases mode with
  | operand =>
    cases hadmits : scope.admits frames with
    | false =>
      refine .settled (stop .tooDeep index) fun rest => ?_
      simp [read, readOperand, hadmits]
    | true =>
      cases hsymbol : token.symbol with
      | error e =>
        refine .settled (stop e index) fun rest => ?_
        simp only [read, readOperand, hadmits, if_true, hsymbol]
      | ok symbol =>
        cases symbol with
        | number x =>
          refine .consumed [] [⟨.push x, index + 1⟩] .operator frames (by simp) fun rest => ?_
          simp only [read, readOperand, hadmits, if_true, hsymbol, lookPast]
          cases obstacle? rest <;> rfl
        | operator op =>
          cases hop : op.opening? index with
          | none =>
            refine .refused (.unexpectedValue index) fun rest => ?_
            simp only [read, readOperand, hadmits, if_true, hsymbol, lookPast]
            cases obstacle? rest with
            | some e => rfl
            | none => simp only [hop]
          | some opening =>
            refine .consumed [] (opening.1.map (⟨·, index + 1⟩)) .operand (opening.2 :: frames) ?_
              fun rest => ?_
            · simp +contextual [eq_comm]
            · simp only [read, readOperand, hadmits, if_true, hsymbol, lookPast]
              cases obstacle? rest with
              | some e => rfl
              | none =>
                simp only [hop]
                rfl
  | operator =>
    cases hsymbol : token.symbol with
    | error e =>
      refine .settled (stop e index) fun rest => ?_
      simp only [read, readOperator, hsymbol]
    | ok symbol =>
      cases symbol with
      | number x =>
        refine .settled (stop (.unexpectedValue (index - 1)) index) fun rest => ?_
        simp only [read, readOperator, hsymbol]
      | operator op =>
        cases hop : op.continuing? index with
        | none =>
          cases hclose : Frame.close? (Frame.held 0 frames) with
          | none =>
            refine .settled
              ((finish index).after (Frame.steps index (Frame.released 0 frames))) fun rest => ?_
            simp only [read, readOperator, hsymbol, hop, hclose]
          | some outer =>
            refine .consumed (Frame.steps index (Frame.released 0 frames)) [] .operator outer
              (List.forall_mem_nil _) fun rest => ?_
            simp only [read, readOperator, hsymbol, hop, hclose, lookPast]
            cases obstacle? rest <;> rfl
        | some next =>
          obtain ⟨power, frame⟩ := next
          cases hend : (Frame.held power frames).isEmpty && decide (power ≤ scope.power) with
          | true =>
            refine .settled
              ((finish index).after (Frame.steps index (Frame.released power frames)))
              fun rest => ?_
            simp only [read, readOperator, hsymbol, hop, hend, if_true]
          | false =>
            refine .consumed (Frame.steps index (Frame.released power frames)) [] .operand
              (frame :: Frame.held power frames) (List.forall_mem_nil _) fun rest => ?_
            simp only [read, readOperator, hsymbol, hop, hend, Bool.false_eq_true,
              if_false, lookPast]
            cases obstacle? rest <;> rfl

/-! ## Programs with a common beginning -/

/-- Whatever a program does it does with the token at `limit`, or a later one, in view. -/
structure Beyond (limit : Nat) (p : Program) : Prop where
  seen : limit ≤ p.seen
  steps : ∀ step ∈ p.steps, limit ≤ step.seen

theorem beyond_stop {limit seen : Nat} (h : limit ≤ seen) (e : EvalError) :
    (stop e seen).Beyond limit :=
  ⟨h, nofun⟩

theorem Beyond.after {limit : Nat} {p : Program} (h : p.Beyond limit) {steps : List Step}
    (hsteps : ∀ step ∈ steps, limit ≤ step.seen) : (p.after steps).Beyond limit :=
  ⟨h.seen, List.forall_mem_append.2 ⟨hsteps, h.steps⟩⟩

theorem Beyond.of_le {limit limit' : Nat} {p : Program} (h : p.Beyond limit')
    (hle : limit ≤ limit') : p.Beyond limit :=
  ⟨Nat.le_trans hle h.seen, fun step hstep => Nat.le_trans hle (h.steps step hstep)⟩

/-- The steps of frames are taken in view of the token that ends their operands. -/
theorem le_seen_of_mem_steps {index : Nat} {frames : List Frame} :
    ∀ step ∈ Frame.steps index frames, index ≤ step.seen :=
  fun _ hstep => Nat.le_of_eq (Frame.seen_of_mem_steps hstep).symm

theorem Halt.beyond {scope : Scope} {frames : List Frame} {index : Nat} {mode : Mode}
    {tokens : List Token} {program : Program} (h : Halt scope frames index mode tokens program) :
    program.Beyond index := by
  refine ⟨h.seen.1, ?_⟩
  cases h <;> simp [stop, finish] <;> exact le_seen_of_mem_steps

theorem Move.le_seen {scope : Scope} {frames frames' : List Frame} {index : Nat} {token : Token}
    {mode mode' : Mode} {steps : List Step}
    (h : Move scope frames index token mode steps mode' frames') :
    ∀ step ∈ steps, index ≤ step.seen := by
  cases h with
  | number _ _ => simp
  | opening _ _ _ => simp +contextual [eq_comm]
  | continuing _ _ _ => exact le_seen_of_mem_steps
  | closing _ _ _ => exact le_seen_of_mem_steps

/-- A program has the token in view at which reading begins. -/
theorem read_beyond (scope : Scope) (mode : Mode) (frames : List Frame) (index : Nat)
    (tokens : List Token) : (read scope mode frames index tokens).Beyond index := by
  refine read_induct scope (P := fun _ _ index _ program => program.Beyond index)
    (fun hhalt => hhalt.beyond) ?_ tokens mode frames index
  intro _ _ index _ _ _ _ _ _ hmove _ ih
  exact (ih.of_le (Nat.le_succ index)).after hmove.le_seen

/-- Two programs agree until the token at `limit` is looked at. -/
inductive AgreeBelow (limit : Nat) : Program → Program → Prop
  | refl (p : Program) : AgreeBelow limit p p
  | beyond {p p' : Program} : p.Beyond limit → p'.Beyond limit → AgreeBelow limit p p'
  | after {p p' : Program} (steps : List Step) : AgreeBelow limit p p' →
      AgreeBelow limit (p.after steps) (p'.after steps)

/-- Past a token of a common beginning the same token is looked at, unless it
was the last of them. -/
theorem lookPast_agree {index : Nat} {common rest rest' : List Token}
    {next : List Token → Program} (hbeyond : ∀ rest, (next rest).Beyond (index + 1))
    (hnext : AgreeBelow (index + 1 + common.length) (next (common ++ rest))
      (next (common ++ rest'))) :
    AgreeBelow (index + 1 + common.length) (lookPast index (common ++ rest) next)
      (lookPast index (common ++ rest') next) := by
  rcases common with _ | ⟨token, common⟩
  · have hlook : ∀ rest, (lookPast index rest next).Beyond (index + 1) := by
      intro rest
      unfold lookPast
      split
      · exact beyond_stop (Nat.le_refl _) _
      · exact hbeyond rest
    exact .beyond (hlook rest) (hlook rest')
  · have hsame : obstacle? (token :: common ++ rest) = obstacle? (token :: common ++ rest') := rfl
    unfold lookPast
    rw [hsame]
    split
    · exact .refl _
    · exact hnext

/-- **Expressions with a common beginning** have programs that agree until a
token after it is looked at. -/
theorem read_agree (scope : Scope) (common : List Token) (rest rest' : List Token) (mode : Mode)
    (frames : List Frame) (index : Nat) :
    AgreeBelow (index + common.length) (read scope mode frames index (common ++ rest))
      (read scope mode frames index (common ++ rest')) := by
  induction common generalizing mode frames index with
  | nil => exact .beyond (read_beyond ..) (read_beyond ..)
  | cons token common ih =>
    have hlimit : index + (token :: common).length = index + 1 + common.length := by
      simp only [List.length_cons]
      omega
    rw [hlimit, List.cons_append, List.cons_append]
    cases head scope mode frames index token with
    | settled program hread =>
      rw [hread, hread]
      exact .refl _
    | refused e hread =>
      rw [hread, hread]
      exact lookPast_agree (fun _ => beyond_stop (Nat.le_refl _) _) (.refl _)
    | consumed before behind mode' frames' hbehind hread =>
      rw [hread, hread]
      refine .after before (lookPast_agree (fun rest => ?_) ?_)
      · exact (read_beyond ..).after fun step hstep => Nat.le_of_eq (hbehind step hstep).symm
      · exact .after behind (ih mode' frames' (index + 1))

/-! ## Running programs that agree -/

/-- A run of a program gets as far as the program does. -/
theorem Beyond.le_runOn_seen {limit : Nat} {p : Program} (h : p.Beyond limit)
    (stack : List Number) (tray : Tray σ) : limit ≤ (p.runOn stack tray).seen := by
  show limit ≤ (runSteps p.seen p.steps stack tray).seen
  cases hresult : (runSteps p.seen p.steps stack tray).result with
  | error e =>
    obtain ⟨step, hstep, -, hseen⟩ := runSteps_error hresult
    rw [hseen]
    exact h.steps step hstep
  | ok stack' =>
    rw [runSteps_endsAt p.seen p.steps stack tray stack' hresult]
    exact h.seen

/-- **A run that ends while programs agree** is a run of both. -/
theorem AgreeBelow.runOn_eq {limit : Nat} {p p' : Program} (h : AgreeBelow limit p p')
    {stack : List Number} {tray : Tray σ} (hseen : (p.runOn stack tray).seen < limit) :
    p'.runOn stack tray = p.runOn stack tray := by
  induction h generalizing stack tray with
  | refl p => rfl
  | beyond hbeyond _ => exact absurd hseen (Nat.not_lt.2 (hbeyond.le_runOn_seen stack tray))
  | @after p p' steps _ ih =>
    rw [runOn_after p steps 0] at hseen ⊢
    rw [runOn_after p' steps 0]
    generalize runSteps 0 steps stack tray = first at hseen ⊢
    obtain ⟨result, rolls, seen, tray'⟩ := first
    cases result with
    | error e => rfl
    | ok stack' => exact congrArg (Run.after · rolls) (ih hseen)

/-- A run that ends within a common beginning is a run of both expressions. -/
theorem run_eq_of_common {common rest : List Token} {tray : Tray σ}
    (hseen : ((ofTokens (common ++ rest)).run tray).seen < common.length) (rest' : List Token) :
    (ofTokens (common ++ rest')).run tray = (ofTokens (common ++ rest)).run tray := by
  have hagree := read_agree .whole common rest rest' .operand [] 0
  rw [Nat.zero_add] at hagree
  exact hagree.runOn_eq hseen

/-! ## A closing parenthesis in place of the end -/

/-- What has no group to close at the end has none for a closing parenthesis. -/
theorem close?_eq_none {frames : List Frame} (h : Frame.unclosed? frames = none) :
    Frame.close? frames = none := by
  unfold Frame.close?
  split
  · cases h
  · cases h
  · rfl

theorem obstacle?_append_of_none {tokens rest : List Token} (h : obstacle? tokens = none)
    (hrest : obstacle? rest = none) : obstacle? (tokens ++ rest) = none := by
  rcases tokens with _ | ⟨token, tokens⟩
  · exact hrest
  · exact h

/-- **An expression that is read to the end** and is complete there would also have been at a
closing parenthesis, whatever follows that. -/
theorem read_closing {scope : Scope} {paren : Token}
    (hparen : paren.symbol = .ok (.operator .rightParen)) (more tokens : List Token) (mode : Mode)
    (frames : List Frame) (index : Nat) :
    let program := read scope mode frames index tokens
    program.verdict = .ok () → program.seen = index + tokens.length →
      read scope mode frames index (tokens ++ paren :: more) = program := by
  refine read_induct scope (P := fun mode frames index tokens program =>
    program.verdict = .ok () → program.seen = index + tokens.length →
      read scope mode frames index (tokens ++ paren :: more) = program) ?_ ?_
    tokens mode frames index
  · intro mode frames index tokens program hhalt hverdict hseen
    cases hhalt with
    | complete hunclosed =>
      have hclose := close?_eq_none hunclosed
      simp only [List.nil_append, read, readOperator, hparen, Operator.continuing?, hclose]
    | outside _ _ _ _ =>
      -- The token that ends the expression has not been consumed.
      simp [finish] at hseen
    | closed _ _ _ => simp [finish] at hseen
    | _ => cases hverdict
  · intro mode frames index token rest steps mode' frames' program hmove hrest ih hverdict hseen
    have hnext : obstacle? (rest ++ paren :: more) = none :=
      obstacle?_append_of_none hrest (by simp only [obstacle?, hparen])
    have hprogram := ih hverdict (by
      rw [after_seen, List.length_cons] at hseen
      omega)
    rw [List.cons_append, read_of_move hmove hnext, hprogram]

end Program

/-! ## Evaluating -/

theorem modify_append_of_lt {α : Type} {first : List α} {index : Nat} (h : index < first.length)
    (f : α → α) (rest : List α) :
    (first ++ rest).modify index f = first.modify index f ++ rest := by
  induction first generalizing index with
  | nil => exact absurd h (Nat.not_lt_zero _)
  | cons a first ih =>
    cases index with
    | zero => rfl
    | succ index => exact congrArg (a :: ·) (ih (Nat.lt_of_succ_lt_succ h))

theorem annotateRolls_append {tokens : List Token} {rolls : List RollEvent}
    (h : ∀ event ∈ rolls, event.operator < tokens.length ∧ event.operandEnd < tokens.length)
    (rest : List Token) :
    rolls.foldl annotateRoll (tokens ++ rest) = rolls.foldl annotateRoll tokens ++ rest := by
  induction rolls generalizing tokens with
  | nil => rfl
  | cons event rolls ih =>
    obtain ⟨⟨hoperator, hend⟩, hrolls⟩ := List.forall_mem_cons.1 h
    have hfirst : annotateRoll (tokens ++ rest) event = annotateRoll tokens event ++ rest := by
      unfold annotateRoll
      rw [modify_append_of_lt hoperator, modify_append_of_lt (by simpa using hend)]
    rw [List.foldl_cons, List.foldl_cons, hfirst]
    exact ih (by simpa using hrolls)

theorem length_annotateRolls (tokens : List Token) (rolls : List RollEvent) :
    (rolls.foldl annotateRoll tokens).length = tokens.length := by
  simpa using congrArg List.length (errors_annotateRolls tokens rolls)

theorem length_annotate (tokens : List Token) (rolls : List RollEvent)
    (result : Except EvalError Number) : (annotate tokens rolls result).length = tokens.length := by
  unfold annotate
  cases result with
  | ok x => exact length_annotateRolls tokens rolls
  | error e => exact (length_annotateError _ e).trans (length_annotateRolls tokens rolls)

/-- **What a run leaves it leaves at tokens that were there**: any more tokens stay as they are. -/
theorem annotate_append (tokens rest : List Token) (tray : Tray σ) :
    let run := (Program.ofTokens tokens).run tray
    annotate (tokens ++ rest) run.rolls run.result =
      annotate tokens run.rolls run.result ++ rest := by
  intro run
  have hrolls : ∀ event ∈ run.rolls,
      event.operator < tokens.length ∧ event.operandEnd < tokens.length := by
    intro event hevent
    have hplaced := (Program.run_ordered tokens tray).2 event hevent
    obtain ⟨upper, hdice⟩ := hplaced.dice
    obtain ⟨symbol, hlast⟩ := hplaced.last
    exact ⟨hdice.lt_length, hlast.lt_length⟩
  unfold annotate
  rw [annotateRolls_append hrolls]
  cases hresult : run.result with
  | ok x => rfl
  | error why =>
    show annotateError _ why = annotateError _ why ++ rest
    unfold annotateError
    cases hmark : why.mark? with
    | none => rfl
    | some place =>
      obtain ⟨index, mark⟩ := place
      have hnone := (Program.run_placed tokens tray why hresult).error_eq_none hmark
      obtain ⟨t, ht, -⟩ := Option.map_eq_some_iff.1 hnone
      apply modify_append_of_lt
      rw [length_annotateRolls]
      exact (List.getElem?_eq_some_iff.1 ht).1

namespace Tray

/-- An expression whose run does not need its last tokens is evaluated as if they were not there. -/
theorem evaluate_append (tray : Tray σ) (tokens rest : List Token)
    (h : (Program.ofTokens (tokens ++ rest)).run tray.reset =
      (Program.ofTokens tokens).run tray.reset) (text text' : String) :
    tray.evaluate ⟨text', tokens ++ rest⟩ =
      ({ (tray.evaluate ⟨text, tokens⟩).1 with
          text := text'
          tokens := (tray.evaluate ⟨text, tokens⟩).1.tokens ++ rest },
        (tray.evaluate ⟨text, tokens⟩).2) := by
  simp only [evaluate, h, annotate_append]

/-- **An evaluation depends on the tokens that it looks at.** If it ends at a token,
successfully or not, then every expression that agrees with this one up to that token
has the same outcome, the same rolls, the same tray afterwards and the same annotations
at those tokens, and all other tokens stay as they are. If it succeeds at the end, it
succeeds in the same way with a closing parenthesis there and any tokens after it. -/
theorem evaluate_local (tray : Tray σ) (e : Expression) :
    let run := (Program.ofTokens e.tokens).run tray.reset
    let result := (tray.evaluate e).1
    (run.seen < e.tokens.length → ∀ e' : Expression,
      e'.tokens.take (run.seen + 1) = e.tokens.take (run.seen + 1) →
        let run' := (Program.ofTokens e'.tokens).run tray.reset
        let result' := (tray.evaluate e').1
        run'.seen = run.seen ∧ result'.outcome = result.outcome ∧ result'.rolls = result.rolls ∧
        (tray.evaluate e').2 = (tray.evaluate e).2 ∧
        result'.tokens.take (run.seen + 1) = result.tokens.take (run.seen + 1) ∧
        result'.tokens.drop (run.seen + 1) = e'.tokens.drop (run.seen + 1)) ∧
    (result.failed = false → run.seen = e.tokens.length → ∀ text paren more,
      paren.symbol = .ok (.operator .rightParen) →
        tray.evaluate ⟨text, e.tokens ++ paren :: more⟩ =
          ({ result with text, tokens := result.tokens ++ paren :: more },
            (tray.evaluate e).2)) := by
  intro run result
  constructor
  · intro hinside e' hsame run' result'
    -- Both expressions are compared with what they have in common.
    let common := e.tokens.take (run.seen + 1)
    have hlength : common.length = run.seen + 1 := List.length_take_of_le hinside
    have hsplit : e.tokens = common ++ e.tokens.drop (run.seen + 1) :=
      (List.take_append_drop ..).symm
    have hsplit' : e'.tokens = common ++ e'.tokens.drop (run.seen + 1) := by
      show e'.tokens = e.tokens.take (run.seen + 1) ++ _
      rw [← hsame, List.take_append_drop]
    have hseen : ((Program.ofTokens (common ++ e.tokens.drop (run.seen + 1))).run tray.reset).seen <
        common.length := by
      rw [← hsplit, hlength]
      exact Nat.lt_succ_self run.seen
    have hruns := fun rest => Program.run_eq_of_common hseen rest
    rw [← hsplit] at hruns
    have hcommon : (Program.ofTokens common).run tray.reset = run := by
      simpa using hruns []
    have hrun' : run' = run := by
      have hrun' := hruns (e'.tokens.drop (run.seen + 1))
      rwa [← hsplit'] at hrun'
    have heval := evaluate_append tray common (e.tokens.drop (run.seen + 1))
      ((hruns _).trans hcommon.symm) "" e.text
    have heval' := evaluate_append tray common (e'.tokens.drop (run.seen + 1))
      ((hruns _).trans hcommon.symm) "" e'.text
    rw [← hsplit] at heval
    rw [← hsplit'] at heval'
    have htokens : (tray.evaluate ⟨"", common⟩).1.tokens.length = run.seen + 1 := by
      rw [← hlength]
      exact length_annotate ..
    simp only [result, result', heval, heval', hrun']
    refine ⟨trivial, trivial, trivial, trivial, ?_, ?_⟩
    · rw [List.take_left' htokens, List.take_left' htokens]
    · rw [List.drop_left' htokens]
  · intro hok hend text paren more hparen
    obtain ⟨x, hx⟩ := run_ok_of_evaluate hok
    have hprogram : Program.ofTokens (e.tokens ++ paren :: more) = Program.ofTokens e.tokens := by
      apply Program.read_closing hparen more e.tokens .operand [] 0
      · show (Program.ofTokens e.tokens).verdict = .ok ()
        cases hverdict : (Program.ofTokens e.tokens).verdict with
        | ok u => rfl
        | error why =>
          obtain ⟨why', hfailed, -⟩ := Program.run_of_verdict hverdict tray.reset
          rw [hx] at hfailed
          cases hfailed
      · rw [Nat.zero_add, ← hend]
        exact (Program.run_endsAt _ tray.reset x hx).symm
    exact evaluate_append tray e.tokens (paren :: more) (by rw [hprogram]) e.text text

/-- A roll before a stray parenthesis, with what cannot be read after it, and
with the end in place of both. -/
theorem evaluate_local_stray :
    let tray : Tray Roller.Stepping := ⟨some 9, 0, ⟨3, 1⟩⟩
    let e := Expression.scan "2d6)x"
    let e' := Expression.scan "2d6)(+"
    let run := (Program.ofTokens e.tokens).run tray.reset
    run.seen = 3 ∧ e'.tokens.take 4 = e.tokens.take 4 ∧
      (tray.evaluate e').1.outcome = (tray.evaluate e).1.outcome ∧
      (tray.evaluate e').1.tokens.drop 4 = e'.tokens.drop 4 ∧
      (tray.evaluate (.scan "2d6")).1.outcome = .ok (.int 7) ∧
      (tray.evaluate e).1.outcome = .ok (.int 7) := by
  intro tray e e' run
  have hseen : run.seen = 3 := by decide +kernel
  have hsame : e'.tokens.take 4 = e.tokens.take 4 := by decide +kernel
  have hinside : run.seen < e.tokens.length := by decide +kernel
  obtain ⟨-, houtcome, -, -, -, hrest⟩ :=
    (tray.evaluate_local e).1 hinside e' (by rw [hseen]; exact hsame)
  rw [hseen] at hrest
  have hfirst : (tray.evaluate (.scan "2d6")).1.outcome = .ok (.int 7) := by decide +kernel
  have hclosed := (tray.evaluate_local (.scan "2d6")).2 (by decide +kernel) (by decide +kernel)
    "2d6)x" ⟨.operator .rightParen, ⟨3, 4⟩, .operator, none, none, none⟩
    [⟨.text "x", ⟨4, 5⟩, .number, some .unrecognized, none, none⟩] rfl
  have hsplit : e = ⟨"2d6)x", (Expression.scan "2d6").tokens ++
      [⟨.operator .rightParen, ⟨3, 4⟩, .operator, none, none, none⟩,
        ⟨.text "x", ⟨4, 5⟩, .number, some .unrecognized, none, none⟩]⟩ := by decide +kernel
  refine ⟨hseen, hsame, houtcome, hrest, hfirst, ?_⟩
  rw [hsplit, hclosed]
  exact hfirst

end Tray

end DiceNotation
