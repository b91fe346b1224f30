import DiceNotation.Proofs.Descent.Reading

/-!
# DiceNotation.Proofs.Descent.Log

Recursive descent only adds to its log (`Descent.Grows`), whether it succeeds or
fails, and also where it is not told enough calls. So what a part of an
expression has logged stays at its place in the log of the whole.
-/

namespace DiceNotation.Descent

variable {α β : Type}

/-- A reader only adds to the log. -/
def Grows (reader : Reader α) : Prop :=
  ∀ s result s', reader.run.run s = some (result, s') → s.events <+: s'.events

theorem Grows.bind {reader : Reader α} {next : α → Reader β} (h : Grows reader)
    (hnext : ∀ a, Grows (next a)) : Grows (reader >>= next) := by
  intro s result s' hrun
  rw [run_bind] at hrun
  obtain ⟨⟨first, s₁⟩, hfirst, hrest⟩ := Option.bind_eq_some_iff.1 hrun
  have hprefix := h s first s₁ hfirst
  cases first with
  | ok a => exact hprefix.trans (hnext a s₁ result s' hrest)
  | error e =>
    cases hrest
    exact hprefix

/-- A reader that leaves the state as it is. -/
theorem grows_still {reader : Reader α}
    (h : ∀ s, ∃ result, reader.run.run s = some (result, s)) : Grows reader := by
  intro s result s' hrun
  obtain ⟨result', hstill⟩ := h s
  rw [hstill] at hrun
  cases hrun
  exact List.prefix_rfl

theorem grows_record (event : Event) : Grows (record event) := by
  intro s result s' hrun
  cases hrun
  exact List.prefix_append _ _

theorem grows_throw (e : EvalError) : Grows (throw e : Reader α) := grows_still fun _ => ⟨_, rfl⟩

theorem grows_get : Grows (get : Reader State) := grows_still fun _ => ⟨_, rfl⟩

theorem grows_take (action : Action) : Grows (take action) := grows_get.bind fun _ => grows_record _

theorem grows_unexpected : Grows unexpected := grows_get.bind fun _ => grows_throw _

theorem grows_endless : Grows endless := fun _ _ _ h => by cases h

theorem grows_advance : Grows advance := by
  rintro ⟨index, tokens, log⟩ result s' hrun
  rcases tokens with _ | ⟨token, rest⟩
  · cases (advance_run_nil index log).symm.trans hrun
    exact List.prefix_append _ _
  · cases (advance_run_cons index token rest log).symm.trans hrun
    exact List.prefix_append _ _

theorem grows_close (opening : Nat) : Grows (close opening) := by
  refine grows_get.bind fun s => ?_
  split
  · exact grows_advance
  · exact grows_throw _

/-- **All functions only add to the log.** -/
theorem grows (calls : Nat) :
    (∀ power level, Grows (expression calls power level)) ∧
    (∀ symbol index level, Grows (openOperand calls symbol index level)) ∧
    (∀ power level, Grows (continueOperand calls power level)) ∧
    ∀ symbol index level, Grows (joinOperand calls symbol index level) := by
  induction calls with
  | zero =>
    simp only [expression_zero, openOperand_zero, continueOperand_zero, joinOperand_zero,
      grows_endless, implies_true, and_self]
  | succ calls ih =>
    obtain ⟨hexpression, hopen, hcontinue, hjoin⟩ := ih
    refine ⟨fun power level => ?_, fun symbol index level => ?_, fun power level => ?_,
      fun symbol index level => ?_⟩
    · rw [expression]
      refine grows_get.bind fun s => (grows_record _).bind fun _ => grows_advance.bind fun _ => ?_
      exact (hopen _ _ _).bind fun _ => (hcontinue _ _).bind fun _ => grows_record _
    · rw [openOperand.eq_def]
      refine (grows_record _).bind fun _ => ?_
      rcases symbol with _ | _ | op
      · exact grows_unexpected
      · exact grows_take _
      · cases op with
        | sub => exact (hexpression _ _).bind fun _ => grows_take _
        | leftParen => exact (hexpression _ _).bind fun _ => grows_close _
        | dice upper =>
          exact (grows_take _).bind fun _ => (hexpression _ _).bind fun _ => grows_take _
        | add | mul | div | pow | rightParen => exact grows_unexpected
    · rw [continueOperand.eq_def]
      refine grows_get.bind fun s => ?_
      cases nextPower? s.tokens with
      | none => exact grows_unexpected
      | some next =>
        by_cases hends : next ≤ power
        · simp only [if_pos hends]
          exact grows_still fun _ => ⟨_, rfl⟩
        · simp only [if_neg hends]
          exact grows_advance.bind fun _ => (hjoin _ _ _).bind fun _ => hcontinue _ _
    · rw [joinOperand.eq_def]
      refine (grows_record _).bind fun _ => ?_
      rcases symbol with _ | _ | op
      · exact grows_throw _
      · exact grows_throw _
      · cases op with
        | leftParen =>
          refine (hexpression _ _).bind fun _ => (grows_close _).bind fun _ => ?_
          exact (hcontinue _ _).bind fun _ => grows_take _
        | rightParen => exact grows_throw _
        | add | sub | mul | div | pow | dice _ =>
          exact (hexpression _ _).bind fun _ => grows_take _

end DiceNotation.Descent
