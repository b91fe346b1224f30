import DiceNotation.Proofs.Descent.Reading
import DiceNotation.Proofs.Finiteness

/-!
# DiceNotation.Proofs.Nesting

How deeply expressions are nested, and what the limit on it does. The levels are those of recursive
descent, which has no limit: an expression that stands by itself is at level one, and the content of
a group, the operand of a minus sign or of dice without a quantity, and the right operand of an
operator are one level below the expression they are in. The members of a row of operators that
group to the left, or of groups after each other, are operands in one expression.

* `Descent.program_of_within`: what is nested no deeper than the limit is read whatever the limit;
* `Descent.exists_beyond`: what is nested deeper gets there by way of the first
  level beyond the limit;
* `Descent.Account.Reaches`: how far a run gets;
* `Tray.evaluate_nesting`: reading comes to an end, and the limit is exact.
-/

namespace DiceNotation

namespace Descent

/-! ## Levels -/

/-- Whether events begin no expression beyond the limit. -/
def Within (events : List Event) : Prop :=
  ∀ index level, Event.enter index level ∈ events → level ≤ levelLimit

theorem within_cons {event : Event} {events : List Event} :
    Within (event :: events) ↔
      (∀ index level, event = .enter index level → level ≤ levelLimit) ∧ Within events := by
  simp [Within, or_imp, forall_and, eq_comm]

/-- What is nested no deeper than the limit is read whatever the limit. -/
theorem program_of_within {events : List Event} (h : Within events) (rest : Program) :
    program rest events = rest.after (steps events) := by
  induction events with
  | nil => rfl
  | cons event events ih =>
    obtain ⟨hevent, hevents⟩ := within_cons.1 h
    cases event with
    | enter index level =>
      rw [program, if_pos (hevent index level rfl)]
      exact ih hevents
    | take step =>
      rw [program, ih hevents, Program.after_after]
      rfl
    | leave | advance _ | opening _ | continuing _ => exact ih hevents

/-- Expressions in progress are nested in each other. -/
theorem foldl_depth_le {events : List Event} {depth : Nat} (hlevelled : Levelled depth events)
    (hwithin : Within events) (hdepth : depth ≤ levelLimit) :
    events.foldl Event.depth depth ≤ levelLimit := by
  induction events generalizing depth with
  | nil => exact hdepth
  | cons event events ih =>
    obtain ⟨hevent, hevents⟩ := within_cons.1 hwithin
    refine ih hlevelled.2 hevents ?_
    cases event with
    | enter index level =>
      obtain rfl : level = depth + 1 := hlevelled.1 index level rfl
      exact hevent index _ rfl
    | leave => exact Nat.le_trans (Nat.sub_le depth 1) hdepth
    | advance _ | opening _ | continuing _ | take _ => exact hdepth

/-- What is nested deeper than the limit begins an expression beyond it. -/
theorem exists_beyond {events : List Event} (h : ¬ Within events) :
    ∃ taken index level, Within taken ∧ taken ++ [.enter index level] <+: events ∧
      levelLimit < level := by
  induction events with
  | nil => exact absurd (fun _ _ hmem => absurd hmem List.not_mem_nil) h
  | cons event events ih =>
    by_cases hevent : ∀ index level, event = .enter index level → level ≤ levelLimit
    · obtain ⟨taken, index, level, hwithin, hfirst, hbeyond⟩ :=
        ih fun hevents => h (within_cons.2 ⟨hevent, hevents⟩)
      exact ⟨event :: taken, index, level, within_cons.2 ⟨hevent, hwithin⟩,
        List.prefix_cons_inj event |>.2 hfirst, hbeyond⟩
    · push Not at hevent
      obtain ⟨index, level, rfl, hbeyond⟩ := hevent
      exact ⟨[], index, level, fun _ _ hmem => absurd hmem List.not_mem_nil, ⟨events, rfl⟩, hbeyond⟩

theorem Levelled.level_eq {events taken : List Event} {index level : Nat} (h : Levelled 0 events)
    (hfirst : taken ++ [.enter index level] <+: events) : level = depth taken + 1 := by
  obtain ⟨rest, rfl⟩ := hfirst
  exact (levelled_append.1 (levelled_append.1 h).1).2.1 index level rfl

theorem Levelled.of_prefix {events taken : List Event} (h : Levelled 0 events)
    (hfirst : taken <+: events) : Levelled 0 taken := by
  obtain ⟨rest, rfl⟩ := hfirst
  exact (levelled_append.1 h).1

/-- The first expression beyond the limit is just beyond it. -/
theorem Levelled.level_beyond {events taken : List Event} {index level : Nat}
    (h : Levelled 0 events) (hwithin : Within taken)
    (hfirst : taken ++ [.enter index level] <+: events) (hbeyond : levelLimit < level) :
    level = levelLimit + 1 := by
  have hdepth : depth taken ≤ levelLimit :=
    foldl_depth_le (h.of_prefix ((List.prefix_append taken _).trans hfirst)) hwithin (Nat.zero_le _)
  have hlevel := h.level_eq hfirst
  omega

/-! ## Runs -/

namespace Account

variable {σ : Type} [Roller σ]

/-- A run gets as far as what is logged: no expression beyond the limit is
begun, and no step fails. -/
structure Reaches (a : Account) (tray : Tray σ) (taken : List Event) : Prop where
  first : taken <+: a.events
  within : Within taken
  steps : ∃ stack, a.program.Reaches tray (Descent.steps taken) stack

theorem program_of_beyond {a : Account} {taken : List Event} {index level : Nat}
    (hwithin : Within taken) (hfirst : taken ++ [.enter index level] <+: a.events)
    (hbeyond : levelLimit < level) :
    a.program = (Program.stop .tooDeep index).after (Descent.steps taken) := by
  obtain ⟨rest, hevents⟩ := hfirst
  rw [program, ← hevents, List.append_assoc, program_append]
  show Descent.program (Descent.program _ (.enter index level :: rest)) taken = _
  rw [Descent.program, if_neg (Nat.not_le_of_lt hbeyond), program_of_within hwithin]

/-- **A run that comes to an expression beyond the limit** fails there, having
done what was logged. -/
theorem Reaches.run {a : Account} {tray : Tray σ} {taken : List Event} {index level : Nat}
    (h : a.Reaches tray taken) (hfirst : taken ++ [.enter index level] <+: a.events)
    (hbeyond : levelLimit < level) :
    let done := Program.runSteps index (Descent.steps taken) [] tray
    a.program.run tray = ⟨.error .tooDeep, done.rolls, index, done.tray⟩ := by
  intro done
  obtain ⟨stack, hreaches⟩ := h.steps
  have hprogram := program_of_beyond h.within hfirst hbeyond
  have hseen : a.program.seen = index := by rw [hprogram]; rfl
  have hdone : done.result = .ok stack := by rw [← hreaches.result, hseen]
  have hrun : a.program.run tray = done.bind (Program.stop .tooDeep index).runOn := by
    rw [hprogram]
    exact Program.runOn_after _ _ index [] tray
  rw [hrun, Run.bind, hdone]
  show Run.mk _ (done.rolls ++ []) _ _ = _
  rw [List.append_nil]
  rfl

/-- Reading fails as descent does, but for the nesting. -/
theorem Of.findable_of_verdict {a : Account} {tokens : List Token} (h : a.Of tokens)
    {why : EvalError}
    (hverdict : (Program.ofTokens tokens).verdict = .error why) (hwhy : why ≠ .tooDeep) :
    Findable tokens why := by
  rw [← h.program] at hverdict
  by_cases hwithin : Within a.events
  · have hprogram : a.program = _ := program_of_within hwithin _
    rw [hprogram] at hverdict
    exact h.findable why hverdict
  · obtain ⟨taken, index, level, hwithin, hfirst, hbeyond⟩ := exists_beyond hwithin
    rw [program_of_beyond hwithin hfirst hbeyond] at hverdict
    cases hverdict
    exact absurd rfl hwhy

/-- A run that fails for the nesting has come to an expression beyond the limit. -/
theorem Of.reaches_of_tooDeep {a : Account} {tokens : List Token} (h : a.Of tokens) {tray : Tray σ}
    (hrun : ((Program.ofTokens tokens).run tray).result = .error .tooDeep) :
    ∃ taken index, a.Reaches tray taken ∧
      taken ++ [.enter index (levelLimit + 1)] <+: a.events := by
  rcases Program.run_error hrun with hsteps | ⟨hverdict, -⟩
  · exact (Program.runSteps_ne_tooDeep hsteps).elim
  · by_cases hwithin : Within a.events
    · have hprogram : a.program = _ := program_of_within hwithin _
      rw [← h.program, hprogram] at hverdict
      exact (h.findable _ hverdict).elim
    · obtain ⟨taken, index, level, hwithin, hfirst, hbeyond⟩ := exists_beyond hwithin
      obtain rfl := h.levelled.level_beyond hwithin hfirst hbeyond
      have hprogram := program_of_beyond hwithin hfirst hbeyond
      have hsteps : a.program.steps = Descent.steps taken := by
        rw [hprogram]
        exact List.append_nil _
      refine ⟨taken, index, ⟨(List.prefix_append taken _).trans hfirst, hwithin, ?_⟩, hfirst⟩
      cases hresult : (Program.runSteps a.program.seen (Descent.steps taken) [] tray).result with
      | ok stack => exact ⟨stack, ⟨hsteps ▸ List.prefix_rfl, hresult⟩⟩
      | error e =>
        -- It would have been the failure of the run.
        rw [← hsteps, h.program] at hresult
        rw [Program.run_result, hresult] at hrun
        obtain rfl : e = .tooDeep := by cases hrun; rfl
        exact (Program.runSteps_ne_tooDeep hresult).elim

end Account

end Descent

/-! ## Evaluating -/

open Descent

/-- **Reading comes to an end, and the limit on nesting is exact.** Recursive descent without a
limit on nesting reads any tokens; twice as many calls in progress as there are tokens, and one, are
enough. It moves the cursor at most twice more than there are tokens, and never back, and the level
of every expression that it begins is the number of expressions in progress. An evaluation does what
is logged, step by step, and has no more expressions in progress than the limit. Where it comes to
the first one beyond, it fails with the general message, having read and rolled what was logged
until then and nothing else; and it fails for the nesting nowhere else. -/
theorem Tray.evaluate_nesting {σ : Type} [Roller σ] (tray : Tray σ) (e : Expression) :
    ∃ a, (∀ calls, 2 * e.tokens.length < calls → Descent.read calls e.tokens = some a) ∧
      a.program = Program.ofTokens e.tokens ∧
      (positions a.events).length ≤ e.tokens.length + 2 ∧
      (positions a.events).Pairwise (· ≤ ·) ∧
      (∀ taken index level, taken ++ [.enter index level] <+: a.events → level = depth taken + 1) ∧
      (a.verdict = .ok () → depth a.events = 0) ∧
      (∀ taken, a.Reaches tray.reset taken → depth taken ≤ levelLimit) ∧
      (∀ taken index level, a.Reaches tray.reset taken →
        taken ++ [.enter index level] <+: a.events → levelLimit < level →
          level = levelLimit + 1 ∧
          (tray.evaluate e).1.outcome = .error .tooDeep ∧
          (tray.evaluate e).1.errorText = generalMessage ∧
          let done := Program.runSteps index (steps taken) [] tray.reset
          (Program.ofTokens e.tokens).run tray.reset =
            ⟨.error .tooDeep, done.rolls, index, done.tray⟩) ∧
      ((tray.evaluate e).1.outcome = .error .tooDeep →
        ∃ taken index, a.Reaches tray.reset taken ∧
          taken ++ [.enter index (levelLimit + 1)] <+: a.events) := by
  obtain ⟨a, hread, h⟩ := exists_read e.tokens
  have hseen := h.seen_le
  refine ⟨a, hread, h.program, ?_, ?_, fun _ _ _ => h.levelled.level_eq, h.balanced, ?_, ?_, ?_⟩
  · rcases h.positions with hpositions | hpositions <;> rw [hpositions] <;> simp <;> omega
  · have hrange : (List.range (a.seen + 1)).Pairwise (· ≤ ·) :=
      List.pairwise_lt_range.imp Nat.le_of_lt
    rcases h.positions with hpositions | hpositions
    · rw [hpositions]
      exact hrange
    · rw [hpositions, List.pairwise_append]
      refine ⟨hrange, List.pairwise_singleton _ _, ?_⟩
      intro i hi j hj
      rw [List.mem_singleton.1 hj]
      exact Nat.le_of_lt_succ (List.mem_range.1 hi)
  · intro taken hreaches
    exact foldl_depth_le (h.levelled.of_prefix hreaches.first) hreaches.within (Nat.zero_le _)
  · intro taken index level hreaches hfirst hbeyond
    have hrun := hreaches.run hfirst hbeyond
    rw [h.program] at hrun
    have houtcome : (tray.evaluate e).1.outcome = .error .tooDeep :=
      (tray.evaluate_outcome_eq_error e _).2 (congrArg Run.result hrun)
    refine ⟨h.levelled.level_beyond hreaches.within hfirst hbeyond, houtcome, ?_, hrun⟩
    rw [Evaluation.errorText, houtcome]
    rfl
  · intro houtcome
    exact h.reaches_of_tooDeep ((tray.evaluate_outcome_eq_error e _).1 houtcome)

end DiceNotation
