import DiceNotation.Proofs.Evaluator.Calls
import Mathlib.Control.Monad.Basic
import DiceNotation.Roller.Stepping

/-!
# DiceNotation.Proofs.Evaluator.Folding

Going on after an operand composes over binding powers.

* `Evaluator.Resembles`: a routine comes to what another does, its trace apart;
* `Evaluator.fold_resembles`: the loop over operators comes to what two loops do, the first of which
  stops at a higher power, by induction on the calls;
* `Evaluator.continueExpression_composes`: so does the watched loop, in every state.

The rounds of the first loop are those of the single one, for an operator that binds more tightly
than the higher power binds more tightly than the lower one too. At the first other operator the
second loop takes over, in the state that the single loop is in then. A round that fails ends both.

So a group after an operand takes what binds more tightly than a product and
leaves the rest to the loop that it was met in.
-/

namespace DiceNotation.Evaluator

variable {σ α β γ : Type}

/-! ## Routines that differ in their traces -/

/-- Where a routine has an answer, another has the same with a trace of its own. -/
def Resembles (m m' : Routine σ α) : Prop :=
  ∀ s a, m s = some a → ∃ trace, m' s = some { a with trace }

variable {m m' : Routine σ α}

theorem Extends.resembles (h : Extends m m') : Resembles m m' := fun s a ha => ⟨a.trace, h s a ha⟩

theorem Resembles.refl (m : Routine σ α) : Resembles m m := (Extends.refl m).resembles

theorem Resembles.trans {m'' : Routine σ α} (h : Resembles m m') (h' : Resembles m' m'') :
    Resembles m m'' := by
  intro s a ha
  obtain ⟨_, hm'⟩ := h s a ha
  obtain ⟨trace, hm''⟩ := h' s _ hm'
  exact ⟨trace, hm''⟩

theorem Resembles.bind {next next' : α → Routine σ β} (h : Resembles m m')
    (hnext : ∀ x, Resembles (next x) (next' x)) : Resembles (m >>= next) (m' >>= next') := by
  intro s b hb
  rcases bind_cases hb with ⟨s', _, x, c, hm, hc, rfl⟩ | ⟨s', _, e, hm, rfl⟩
  · obtain ⟨first, hm'⟩ := h s _ hm
    obtain ⟨second, hc'⟩ := hnext x s' c hc
    exact ⟨first ++ second, by rw [bind_of_ok hm', hc']; rfl⟩
  · obtain ⟨first, hm'⟩ := h s _ hm
    exact ⟨first, bind_of_error hm'⟩

theorem resembles_watched (call : Call) (m : Routine σ α) : Resembles m (watched call m) := by
  intro s a ha
  obtain ⟨result, s', trace⟩ := a
  unfold watched
  rw [ha]
  cases result <;> exact ⟨_, rfl⟩

theorem watched_resembles (call : Call) (m : Routine σ α) : Resembles (watched call m) m := by
  intro s a ha
  obtain ⟨⟨result, s', trace⟩, hm, rfl⟩ := Option.map_eq_some_iff.1 ha
  cases result <;> exact ⟨trace, hm⟩

/-! ## One routine after another -/

/-- What comes of a routine and another after it depends on the answer of the first. -/
theorem bind_congr_at {s : State σ} (h : m s = m' s) (next : α → Routine σ β) :
    (m >>= next) s = (m' >>= next) s := by
  show Routine.bind m next s = Routine.bind m' next s
  rw [Routine.bind, Routine.bind, h]

/-- It does not matter which two of three routines are taken together. -/
theorem extends_assoc (m : Routine σ α) (next : α → Routine σ β) (last : β → Routine σ γ) :
    Extends (m >>= fun x => next x >>= last) ((m >>= next) >>= last) := by
  intro s b hb
  rcases bind_cases hb with ⟨s₁, first, x, c, hm, hc, rfl⟩ | ⟨s₁, first, e, hm, rfl⟩
  · rcases bind_cases hc with ⟨s₂, second, y, d, hnext, hd, rfl⟩ | ⟨s₂, second, e, hnext, rfl⟩
    · have hboth : (m >>= next) s = some ⟨.ok y, s₂, first ++ second⟩ := by
        rw [bind_of_ok hm, hnext]
        rfl
      rw [bind_of_ok hboth, hd, Option.map_some, Answer.after, List.append_assoc]
      rfl
    · have hboth : (m >>= next) s = some ⟨.error e, s₂, first ++ second⟩ := by
        rw [bind_of_ok hm, hnext]
        rfl
      exact bind_of_error hboth
  · exact bind_of_error (bind_of_error hm)

theorem unexpected_fails (s : State σ) :
    ∃ e s', (unexpected : Routine σ α) s = some ⟨.error e, s', []⟩ := by
  unfold unexpected
  rw [state_bind]
  cases s.last with
  | none => exact ⟨_, _, rfl⟩
  | some last => exact ⟨_, _, rfl⟩

/-! ## Rounds of the loop -/

variable [Roller σ] {s : State σ} {next power low high : Nat}

theorem fold_of_none (h : leftPower? s.current = none) (calls : Nat) (left : Number) (power : Nat) :
    fold (calls + 1) left power s = unexpected s := by
  rw [fold.eq_def]
  refine (state_bind _ s).trans ?_
  rw [h]

theorem fold_of_le (h : leftPower? s.current = some next) (hends : next ≤ power) (calls : Nat)
    (left : Number) : fold (calls + 1) left power s = some { result := .ok left, state := s } := by
  rw [fold.eq_def]
  refine (state_bind _ s).trans ?_
  rw [h]
  simp only [if_pos hends]
  rfl

theorem fold_of_lt (h : leftPower? s.current = some next) (hgoes : power < next) (calls : Nat)
    (left : Number) :
    fold (calls + 1) left power s =
      (advance >>= fun _ =>
        asInfix calls s.current s.index left >>= fun x => fold calls x power) s := by
  rw [fold.eq_def]
  refine (state_bind _ s).trans ?_
  rw [h]
  simp only [if_neg (Nat.not_le_of_lt hgoes)]

/-- **The loop comes to what two loops do**, the first of which stops earlier. -/
theorem fold_resembles (h : low ≤ high) (calls : Nat) (left : Number) :
    Resembles (fold (σ := σ) calls left low)
      (fold calls left high >>= fun x => fold calls x low) := by
  induction calls generalizing left with
  | zero =>
    rw [fold_zero]
    exact (extends_endless _).resembles
  | succ calls ih =>
    intro s a ha
    cases hnext : leftPower? s.current with
    | none =>
      obtain ⟨e, s', hfails⟩ := unexpected_fails (α := Number) s
      have hfold := fun power => (fold_of_none hnext calls left power).trans hfails
      obtain rfl := Option.some.inj ((hfold low).symm.trans ha)
      exact ⟨[], bind_of_error (hfold high)⟩
    | some next =>
      rcases Nat.lt_or_ge high next with hgoes | hends
      · rw [fold_of_lt hnext (Nat.lt_of_le_of_lt h hgoes)] at ha
        rw [bind_congr_at (fold_of_lt hnext hgoes calls left)]
        -- The rest of the loops is taken apart by the induction hypothesis, with one call less.
        have hrest : ∀ x, Resembles (fold (σ := σ) calls x low)
            (fold calls x high >>= fun x => fold (calls + 1) x low) := fun x =>
          (ih x).trans (Extends.next _ fun x => (extends_succ calls).2.2.1 x low).resembles
        have hround : ∀ symbol index, Resembles
            (asInfix (σ := σ) calls symbol index left >>= fun x => fold calls x low)
            ((asInfix calls symbol index left >>= fun x => fold calls x high) >>=
              fun x => fold (calls + 1) x low) := fun symbol index =>
          ((Resembles.refl _).bind hrest).trans (extends_assoc _ _ _).resembles
        exact (((Resembles.refl _).bind fun _ => hround _ _).trans (extends_assoc _ _ _).resembles)
          s a ha
      · -- The first loop stops at once, and the second is the single one.
        refine ⟨a.trace, (bind_of_ok (fold_of_le hnext hends calls left)).trans ?_⟩
        rw [map_after_nil, ha]

/-- **Going on composes over binding powers.** In every state, what follows an
operand is evaluated at a power with the same result, and leaves the same state,
as if it were evaluated at a higher power first and then, from that value on, at
the given one. The state is also the same where either fails. -/
theorem continueExpression_composes (h : low ≤ high) (s : State σ) (left : Number) :
    ∃ whole parts : Answer σ Number,
      (∀ calls, 2 * s.remaining < calls → continueExpression calls left low s = some whole) ∧
      (∀ calls, 2 * s.remaining < calls →
        (do let x ← continueExpression calls left high; continueExpression calls x low) s =
          some parts) ∧
      parts.result = whole.result ∧ parts.state = whole.state := by
  obtain ⟨whole, hwhole, -⟩ := (((settles (2 * s.remaining + 1)).2.2.1 s.remaining left low
    (Nat.lt_succ_self _)).watched (.continueExpression left low)) s (Nat.le_refl _)
  have hsplit : Resembles (continueExpression (σ := σ) (2 * s.remaining + 1) left low)
      (continueExpression (2 * s.remaining + 1) left high >>= fun x =>
        continueExpression (2 * s.remaining + 1) x low) :=
    (watched_resembles _ _).trans <| (fold_resembles h _ left).trans <|
      (resembles_watched _ _).bind fun x => resembles_watched _ _
  obtain ⟨trace, hparts⟩ := hsplit s whole hwhole
  have hmore : ∀ {calls}, 2 * s.remaining < calls → ∀ left power,
      Extends (continueExpression (σ := σ) (2 * s.remaining + 1) left power)
        (continueExpression calls left power) := fun hcalls left power =>
    (fold_extends hcalls left power).watched _
  exact ⟨whole, { whole with trace }, fun calls hcalls => hmore hcalls left low s _ hwhole,
    fun calls hcalls =>
      ((hmore hcalls left high).bind fun x => hmore hcalls x low) s _ hparts, rfl, rfl⟩

/-- After the group of `2(3)d4^2-1/0`: what belongs to the factor, then the
rest, which fails with a roll made in the first of the two. -/
theorem continueExpression_composes_factor :
    let s : State Roller.Stepping :=
      { tokens := (Expression.scan "2(3)d4^2-1/0").tokens, position := some 4,
        current := some (.operator (.dice false)), last := some 3, depth := 1,
        tray := ⟨none, 0, ⟨3, 1⟩⟩ }
    0 ≤ productPower ∧ ∃ whole parts : Answer Roller.Stepping Number,
      continueExpression 17 (.int 3) 0 s = some whole ∧
      (do let x ← continueExpression 17 (.int 3) productPower; continueExpression 17 x 0) s =
        some parts ∧
      parts.result = whole.result ∧ parts.state = whole.state ∧
      whole.result = .error (.zeroDivision 10) ∧ whole.state.rolls = [⟨.int 4, [3, 4, 1]⟩] := by
  intro s
  have hpower : 0 ≤ productPower := Nat.zero_le _
  have hcalls : 2 * s.remaining < 17 := by decide +kernel
  obtain ⟨whole, parts, hwhole, hparts, hresult, hstate⟩ :=
    continueExpression_composes hpower s (.int 3)
  have hcomes : (continueExpression 17 (.int 3) 0 s).map (fun a => (a.result, a.state.rolls)) =
      some (.error (.zeroDivision 10), [⟨.int 4, [3, 4, 1]⟩]) := by decide +kernel
  rw [hwhole 17 hcalls] at hcomes
  obtain ⟨hfails, hrolls⟩ := Prod.mk.inj (Option.some.inj hcomes)
  exact ⟨hpower, whole, parts, hwhole 17 hcalls, hparts 17 hcalls, hresult, hstate, hfails, hrolls⟩

end DiceNotation.Evaluator
