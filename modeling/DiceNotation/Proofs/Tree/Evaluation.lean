import DiceNotation.Evaluation
import DiceNotation.Proofs.Tree.Reading
import DiceNotation.Roller.Stepping

/-!
# DiceNotation.Proofs.Tree.Evaluation

Evaluating a written tree is evaluating the tree.

Reading gives the steps of the tree (`Tree.ofTokens_eq`), and taking them puts its
value on the stack (`Tree.runSteps_steps`), with the same rolls, the same failure
at the same token, and the same tray after it. Both hold for every roller and every
ceiling, so together they say that an evaluation *is* the recursive evaluation of
the tree (`Tray.evaluate_tree`), and not only that it has the same value.
-/

namespace DiceNotation

variable {σ : Type} [Roller σ]

namespace Tree

/-- The program of a written tree. -/
theorem ofTokens_eq {t : Tree} (hgrouped : t.grouped = true) (hlevels : t.levels < levelLimit)
    {tokens : List Token} (htokens : tokens.map Token.symbol = t.symbols.map .ok) :
    Program.ofTokens tokens = ⟨t.steps 0, .ok (), t.width⟩ := by
  have hread : t.ReadAt .whole [] :=
    t.readAt hgrouped .whole [] (within_zero t) (by simpa [Scope.whole, Frame.levels] using hlevels)
  have hend := hread 0 tokens [] 0 htokens rfl (yields_zero t)
  rw [List.append_nil] at hend
  rw [Program.ofTokens, hend]
  simp [Program.readOperator, Frame.held, Frame.released, Frame.steps, Frame.unclosed?,
    Program.finish, Program.after]

/-- The steps of a tree put its value on the stack, whatever is there and whatever comes next. -/
theorem runSteps_steps (t : Tree) (seen start : Nat) (more : List Step) (stack : List Number)
    (tray : Tray σ) :
    Program.runSteps seen (t.steps start ++ more) stack tray =
      (t.run start tray).bind fun x tray => Program.runSteps seen more (x :: stack) tray := by
  induction t generalizing start more stack tray with
  | literal x =>
    rw [steps, List.singleton_append]
    exact Program.runSteps_of_perform rfl seen more
  | negation t ih =>
    rw [steps, List.append_assoc, ih, run, Run.bind_bind]
    refine Run.bind_congr _ fun x tray => ?_
    exact Program.runSteps_of_perform rfl seen more
  | binary op l r ihl ihr =>
    rw [steps, List.append_assoc, ihl, run, Run.bind_bind]
    refine Run.bind_congr _ fun x tray => ?_
    rw [List.append_assoc, ihr, Run.bind_bind]
    refine Run.bind_congr _ fun y tray => ?_
    exact Program.runSteps_of_perform rfl seen more
  | die upper t ih =>
    -- the quantity is a literal that is never infinite
    rw [steps, List.cons_append, List.append_assoc, Program.runSteps_cons_eq_bind]
    rw [show (Step.perform ⟨.push (.int 1), start + 1⟩ stack tray) =
      ⟨.ok (.int 1 :: stack), [], start + 1, tray⟩ from rfl, Run.bind_ok, Run.after_nil, ih, run,
      Run.bind_bind]
    refine Run.bind_congr _ fun sides tray => ?_
    exact Program.runSteps_of_perform (Step.perform_roll _ _ _ _ _ _) seen more
  | dice upper l r ihl ihr =>
    rw [steps, List.append_assoc, ihl, run, Run.bind_bind]
    refine Run.bind_congr _ fun quantity tray => ?_
    rw [List.append_assoc, ihr, Run.bind_bind]
    refine Run.bind_congr _ fun sides tray => ?_
    exact Program.runSteps_of_perform (Step.perform_roll _ _ _ _ _ _) seen more
  | group t ih =>
    rw [steps, ih, run, Run.bind_bind]
    rfl
  | product l r ihl ihr =>
    rw [steps, List.append_assoc, ihl, run, Run.bind_bind]
    refine Run.bind_congr _ fun x tray => ?_
    rw [List.append_assoc, ihr, Run.bind_bind]
    refine Run.bind_congr _ fun y tray => ?_
    exact Program.runSteps_of_perform rfl seen more

/-- When a tree has a value, the token after it is being looked at. -/
theorem run_endsAt (t : Tree) (start : Nat) (tray : Tray σ) :
    (t.run start tray).EndsAt (start + t.width) := by
  cases t with
  | literal x => exact fun _ _ => rfl
  | negation t =>
    rw [width, ← Nat.add_assoc]
    exact Run.endsAt_bind fun x tray _ _ => rfl
  | binary op l r =>
    rw [width, ← Nat.add_assoc, ← Nat.add_assoc]
    exact Run.endsAt_bind fun x tray => Run.endsAt_bind fun y tray _ _ => rfl
  | die upper t =>
    rw [width, ← Nat.add_assoc]
    exact Run.endsAt_bind fun sides tray => Tray.rollAt_endsAt tray start _ _ sides
  | dice upper l r =>
    rw [width, ← Nat.add_assoc, ← Nat.add_assoc]
    exact Run.endsAt_bind fun quantity tray => Run.endsAt_bind fun sides tray =>
      Tray.rollAt_endsAt tray _ _ quantity sides
  | group t =>
    rw [width, ← Nat.add_assoc, ← Nat.add_assoc]
    exact Run.endsAt_bind fun x tray _ _ => rfl
  | product l r =>
    rw [width, ← Nat.add_assoc]
    exact Run.endsAt_bind fun x tray => Run.endsAt_bind fun y tray _ _ => rfl

/-- **The run of a written tree is the run of the tree.** -/
theorem run_ofTokens {t : Tree} (hgrouped : t.grouped = true) (hlevels : t.levels < levelLimit)
    {tokens : List Token} (htokens : tokens.map Token.symbol = t.symbols.map .ok) (tray : Tray σ) :
    (Program.ofTokens tokens).run tray = t.run 0 tray := by
  have hsteps := runSteps_steps t t.width 0 [] [] tray
  have hseen := t.run_endsAt 0 tray
  rw [List.append_nil] at hsteps
  rw [ofTokens_eq hgrouped hlevels htokens, Program.run, Program.runOn, hsteps]
  generalize t.run 0 tray = run at hseen
  obtain ⟨result, rolls, seen, tray'⟩ := run
  cases result with
  | error e => rfl
  | ok x =>
    obtain rfl : seen = t.width := by simpa using hseen x rfl
    simp [Program.conclude, Run.after, Except.bind]

end Tree

/-- An expression written as a tree evaluates to what the tree evaluates to: the outcome in its
normal form, the records in the order of the rolls, the tokens with what the rolls and the failure
leave at them, and the tray after all that was rolled. -/
theorem Tray.evaluate_tree {t : Tree} (hgrouped : t.grouped = true)
    (hlevels : t.levels < levelLimit) {e : Expression}
    (htokens : e.tokens.map Token.symbol = t.symbols.map .ok) (tray : Tray σ) :
    tray.evaluate e =
      let run := t.run 0 tray.reset
      ({ outcome := run.result.map Number.normalize
         text := e.text
         rolls := run.rolls.map RollEvent.record
         tokens := annotate e.tokens run.rolls run.result },
       run.tray) := by
  rw [Tray.evaluate, Tree.run_ofTokens hgrouped hlevels htokens]

/-- The tree of `6 - 2(d4)^2 * -3d6`: the power belongs to the group, the dice to the minus sign. -/
def Tree.mixed : Tree :=
  .binary .sub (.literal (.int 6))
    (.binary .mul
      (.product (.literal (.int 2))
        (.binary .pow (.group (.die false (.literal (.int 4)))) (.literal (.int 2))))
      (.negation (.dice false (.literal (.int 3)) (.literal (.int 6)))))

/-- The tree above with the faces 3, and 4, 5 and 6: `6 - 2 * 9 * -15`. -/
theorem Tray.evaluate_tree_mixed :
    Tree.mixed.grouped = true ∧ Tree.mixed.levels < levelLimit ∧
      (Expression.scan "6 - 2(d4)^2 * -3d6").tokens.map Token.symbol = Tree.mixed.symbols.map .ok ∧
      (Tray.evaluate ⟨some 4, 0, (⟨3, 1⟩ : Roller.Stepping)⟩
        (Expression.scan "6 - 2(d4)^2 * -3d6")).1.outcome = .ok (.int 276) := by
  have htokens : (Expression.scan "6 - 2(d4)^2 * -3d6").tokens.map Token.symbol =
      Tree.mixed.symbols.map .ok := by rfl
  refine ⟨by decide, by decide, htokens, ?_⟩
  rw [Tray.evaluate_tree (t := Tree.mixed) (by decide) (by decide) htokens]
  rfl

end DiceNotation
