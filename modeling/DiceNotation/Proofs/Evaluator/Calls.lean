import DiceNotation.Proofs.Evaluator

/-!
# DiceNotation.Proofs.Evaluator.Calls

How many calls may be in progress does not matter, as long as they are enough.

* `Evaluator.expression_extends`, `Evaluator.fold_extends`, `Evaluator.run_extends`: where the
  evaluator has an answer, it has the same if more calls may be in progress;
* `Evaluator.State.remaining`, `Evaluator.Settles`: how often the cursor can still be moved, and
  that a routine has an answer wherever that is not too often;
* `Evaluator.settles`: every routine does, if the calls are twice as many.

Nothing is asked of the state. A cursor that does not fit the tokens makes for other answers, but
every round of the loop and every expression moves it on or fails.
-/

namespace DiceNotation.Evaluator

variable {σ α β : Type}

/-- Where a routine has an answer, another has the same. -/
def Extends (m m' : Routine σ α) : Prop := ∀ s a, m s = some a → m' s = some a

variable {m m' : Routine σ α}

theorem Extends.refl (m : Routine σ α) : Extends m m := fun _ _ h => h

theorem Extends.trans {m'' : Routine σ α} (h : Extends m m') (h' : Extends m' m'') :
    Extends m m'' :=
  fun s a ha => h' s a (h s a ha)

theorem extends_endless (m : Routine σ α) : Extends endless m := fun _ _ h => by cases h

theorem Extends.bind {next next' : α → Routine σ β} (h : Extends m m')
    (hnext : ∀ x, Extends (next x) (next' x)) : Extends (m >>= next) (m' >>= next') := by
  intro s b hb
  rcases bind_cases hb with ⟨s', trace, x, c, hm, hc, rfl⟩ | ⟨s', trace, e, hm, rfl⟩
  · rw [bind_of_ok (h s _ hm), hnext x s' c hc]
    rfl
  · exact bind_of_error (h s _ hm)

theorem Extends.next (m : Routine σ α) {next next' : α → Routine σ β}
    (h : ∀ x, Extends (next x) (next' x)) : Extends (m >>= next) (m >>= next') :=
  (Extends.refl m).bind h

theorem Extends.watched (h : Extends m m') (call : Call) :
    Extends (watched call m) (watched call m') := by
  intro s a ha
  obtain ⟨b, hb, rfl⟩ := Option.map_eq_some_iff.1 ha
  exact congrArg (Option.map _) (h s b hb)

theorem Extends.nested (h : Extends m m') : Extends (nested m) (nested m') := by
  intro s a ha
  unfold Evaluator.nested at ha ⊢
  split at ha
  next hdepth =>
    obtain ⟨b, hb, rfl⟩ := Option.map_eq_some_iff.1 ha
    rw [if_pos hdepth, h _ b hb]
    rfl
  next hdepth => rwa [if_neg hdepth]

variable [Roller σ]

/-- **More calls change no answer.** -/
theorem extends_succ (calls : Nat) :
    (∀ power, Extends (expression (σ := σ) calls power) (expression (calls + 1) power)) ∧
    (∀ symbol index,
      Extends (asPrefix (σ := σ) calls symbol index) (asPrefix (calls + 1) symbol index)) ∧
    (∀ left power, Extends (fold (σ := σ) calls left power) (fold (calls + 1) left power)) ∧
    ∀ symbol index left,
      Extends (asInfix (σ := σ) calls symbol index left)
        (asInfix (calls + 1) symbol index left) := by
  induction calls with
  | zero =>
    simp only [expression_zero, fold_zero, asPrefix_zero, asInfix_zero, extends_endless,
      implies_true, and_self]
  | succ calls ih =>
    obtain ⟨hexpression, hopen, hfold, hjoin⟩ := ih
    refine ⟨fun power => ?_, fun symbol index => ?_, fun left power => ?_,
      fun symbol index left => ?_⟩
    · rw [expression.eq_def (calls + 1), expression.eq_def (calls + 1 + 1)]
      refine Extends.watched (.nested (.next _ fun s => .next _ fun _ => ?_)) _
      exact (hopen _ _).bind fun left => (hfold left power).watched _
    · rw [asPrefix.eq_def (calls + 1), asPrefix.eq_def (calls + 1 + 1)]
      refine Extends.watched ?_ _
      rcases symbol with _ | _ | op
      · exact .refl _
      · exact .refl _
      · cases op with
        | sub | leftParen | dice _ => exact (hexpression _).bind fun _ => .refl _
        | add | mul | div | pow | rightParen => exact .refl _
    · rw [fold.eq_def (calls + 1), fold.eq_def (calls + 1 + 1)]
      refine .next _ fun s => ?_
      cases leftPower? s.current with
      | none => exact .refl _
      | some next =>
        by_cases hends : next ≤ power
        · simp only [if_pos hends]
          exact .refl _
        · simp only [if_neg hends]
          exact .next _ fun _ => (hjoin _ _ _).bind fun x => hfold x power
    · rw [asInfix.eq_def (calls + 1), asInfix.eq_def (calls + 1 + 1)]
      refine Extends.watched ?_ _
      rcases symbol with _ | _ | op
      · exact .refl _
      · exact .refl _
      · cases op with
        | leftParen =>
          refine (hexpression _).bind fun inner => .next _ fun _ => ?_
          exact ((hfold inner _).watched _).bind fun _ => .refl _
        | rightParen => exact .refl _
        | add | sub | mul | div | pow | dice _ => exact (hexpression _).bind fun _ => .refl _

theorem expression_extends {calls more : Nat} (h : calls ≤ more) (power : Nat) :
    Extends (expression (σ := σ) calls power) (expression more power) := by
  induction h with
  | refl => exact .refl _
  | step _ ih => exact ih.trans ((extends_succ _).1 power)

theorem fold_extends {calls more : Nat} (h : calls ≤ more) (left : Number) (power : Nat) :
    Extends (fold (σ := σ) calls left power) (fold more left power) := by
  induction h with
  | refl => exact .refl _
  | step _ ih => exact ih.trans ((extends_succ _).2.2.1 left power)

theorem run_extends {calls more : Nat} (h : calls ≤ more) :
    Extends (run (σ := σ) calls) (run more) :=
  .next _ fun _ => (expression_extends h 0).bind fun _ => .refl _

/-! ## Enough calls -/

section

omit [Roller σ]

/-- How often the cursor can still be moved. -/
def State.remaining (s : State σ) : Nat :=
  s.position.elim (s.tokens.length + 1) (s.tokens.length - ·)

theorem State.remaining_blame (s : State σ) (e : EvalError) :
    (s.blame e).remaining = s.remaining := by
  simp only [State.remaining, State.blame, length_annotateError]

theorem State.remaining_attach (s : State σ) (index : Nat) (record : RollRecord) :
    (s.attach index record).remaining = s.remaining := by
  have hlength : (s.attach index record).tokens.length = s.tokens.length := by
    cases hlast : s.last <;> simp [State.attach, hlast]
  rw [State.remaining, hlength]
  rfl

/-- Where the cursor can be moved `n` times at most, a routine has an answer,
and it cannot be moved more often after that. -/
def Settles (n : Nat) (m : Routine σ α) : Prop :=
  ∀ s : State σ, s.remaining ≤ n → ∃ a, m s = some a ∧ a.state.remaining ≤ n

variable {n : Nat}

theorem settles_fail (e : EvalError) : Settles n (fail e : Routine σ α) :=
  fun s hs => ⟨_, rfl, le_of_eq_of_le (s.remaining_blame e) hs⟩

theorem settles_pure (x : α) : Settles n (pure x : Routine σ α) := fun _ hs => ⟨_, rfl, hs⟩

theorem settles_value (r : Except EvalError α) : Settles n (value r : Routine σ α) := by
  cases r with
  | ok x => exact settles_pure x
  | error e => exact settles_fail e

theorem Settles.bind {next : α → Routine σ β} (h : Settles n m) (hnext : ∀ x, Settles n (next x)) :
    Settles n (m >>= next) := by
  intro s hs
  obtain ⟨⟨result, s', trace⟩, hm, hs'⟩ := h s hs
  cases result with
  | error e => exact ⟨_, bind_of_error hm, hs'⟩
  | ok x =>
    obtain ⟨a, ha, hleft⟩ := hnext x s' hs'
    exact ⟨a.after trace, by rw [bind_of_ok hm, ha]; rfl, hleft⟩

theorem settles_state {next : State σ → Routine σ α} (h : ∀ s, Settles n (next s)) :
    Settles n (state >>= next) :=
  Settles.bind (fun _ hs => ⟨_, rfl, hs⟩) h

theorem Settles.watched (h : Settles n m) (call : Call) : Settles n (watched call m) := by
  intro s hs
  obtain ⟨⟨result, s', trace⟩, hm, hs'⟩ := h s hs
  unfold Evaluator.watched
  rw [hm]
  cases result <;> exact ⟨_, rfl, hs'⟩

theorem Settles.nested (h : Settles n m) : Settles n (nested m) := by
  intro s hs
  unfold Evaluator.nested
  split
  · obtain ⟨a, ha, hs'⟩ := h { s with depth := s.depth + 1 } hs
    exact ⟨_, Option.map_eq_some_iff.2 ⟨a, ha, rfl⟩, hs'⟩
  · exact settles_fail _ s hs

theorem settles_unexpected : Settles n (unexpected : Routine σ α) := by
  refine settles_state fun s => ?_
  cases s.last with
  | none => exact fun _ hs => ⟨_, rfl, hs⟩
  | some last => exact settles_fail _

/-- The cursor is put where it is to be, whether or not the token there can be looked at. -/
theorem place_cases (index : Nat) (s : State σ) :
    ∃ a, place index s = some a ∧ a.state.position = some index ∧ a.state.tokens = s.tokens := by
  unfold place
  split <;> exact ⟨_, rfl, rfl, rfl⟩

/-- The cursor is moved, which cannot be done as often after that, or it cannot be moved. -/
theorem advance_cases (s : State σ) :
    ∃ a, advance s = some a ∧ (a.state.remaining < s.remaining ∨ a.result = .error .unexpectedEnd ∧
      a.state.remaining = s.remaining) := by
  have hplaced : ∀ {index : Nat} {s' : State σ}, s'.tokens = s.tokens →
      s.tokens.length - index < s.remaining →
      ∃ a, place index s' = some a ∧ (a.state.remaining < s.remaining ∨
        a.result = .error .unexpectedEnd ∧ a.state.remaining = s.remaining) := by
    intro index s' htokens hless
    obtain ⟨a, ha, hposition, htokens'⟩ := place_cases index s'
    have hremaining : a.state.remaining = s.tokens.length - index := by
      rw [State.remaining, hposition, htokens', htokens]
      rfl
    exact ⟨a, ha, .inl (hremaining ▸ hless)⟩
  unfold advance
  split
  next hposition =>
    refine hplaced rfl ?_
    rw [State.remaining, hposition]
    exact Nat.lt_succ_of_le (Nat.sub_le _ _)
  next index hposition =>
    have hremaining : s.remaining = s.tokens.length - index := by
      rw [State.remaining, hposition]
      rfl
    split
    next hlt => exact hplaced rfl (by omega)
    next => exact ⟨_, rfl, .inr ⟨rfl, s.remaining_blame _⟩⟩

theorem settles_advance : Settles n (advance : Routine σ Unit) := by
  intro s hs
  obtain ⟨a, ha, hless | ⟨-, heq⟩⟩ := advance_cases s
  · exact ⟨a, ha, by omega⟩
  · exact ⟨a, ha, by omega⟩

/-- What comes after the cursor is moved has one move less. -/
theorem settles_advance_bind {next : Unit → Routine σ α}
    (h : ∀ k, n = k + 1 → Settles k (next ())) : Settles n (advance >>= next) := by
  intro s hs
  obtain ⟨⟨result, s', trace⟩, hadvance, hcases⟩ := advance_cases s
  cases result with
  | error e => exact ⟨_, bind_of_error hadvance, by rcases hcases with h | ⟨-, h⟩ <;> omega⟩
  | ok =>
    have hless : s'.remaining < s.remaining := by
      rcases hcases with hless | ⟨hfailed, -⟩
      · exact hless
      · cases hfailed
    obtain ⟨k, rfl⟩ : ∃ k, n = k + 1 := ⟨n - 1, by omega⟩
    obtain ⟨a, ha, hleft⟩ := h k rfl s' (by omega)
    exact ⟨a.after trace, by rw [bind_of_ok hadvance, ha]; rfl, Nat.le_succ_of_le hleft⟩

theorem settles_closeGroup (opening : Nat) : Settles n (closeGroup opening : Routine σ Unit) := by
  refine Settles.watched (settles_state fun s => ?_) _
  split
  · exact settles_advance
  · exact settles_fail _

end

section

variable {n calls : Nat}

theorem settles_roll (index : Nat) (quantity sides : Number) :
    Settles n (roll (σ := σ) index quantity sides) := by
  refine Settles.watched (fun s hs => ?_) _
  dsimp only
  split
  next tray _ => exact ⟨_, rfl, le_of_eq_of_le (State.remaining_blame { s with tray } _) hs⟩
  next tray _ => exact ⟨_, rfl, le_of_eq_of_le (State.remaining_attach { s with tray } _ _) hs⟩

theorem settles_asPrefix (hexpression : ∀ power, Settles n (expression (σ := σ) calls power))
    (symbol : Option Symbol) (index : Nat) :
    Settles n (asPrefix (σ := σ) (calls + 1) symbol index) := by
  rw [asPrefix.eq_def]
  refine Settles.watched ?_ _
  rcases symbol with _ | x | op
  · exact settles_unexpected
  · exact settles_value _
  · cases op with
    | sub => exact (hexpression _).bind fun x => settles_value _
    | leftParen =>
      exact (hexpression _).bind fun x => (settles_closeGroup _).bind fun _ => settles_value _
    | dice _ =>
      exact (hexpression _).bind fun sides => (settles_roll _ _ _).bind fun x => settles_value _
    | add | mul | div | pow | rightParen => exact settles_unexpected

theorem settles_asInfix (hexpression : ∀ power, Settles n (expression (σ := σ) calls power))
    (hfold : ∀ left power, Settles n (fold (σ := σ) calls left power)) (symbol : Option Symbol)
    (index : Nat) (left : Number) : Settles n (asInfix (σ := σ) (calls + 1) symbol index left) := by
  rw [asInfix.eq_def]
  refine Settles.watched ?_ _
  rcases symbol with _ | x | op
  · exact settles_fail _
  · exact settles_fail _
  · cases op with
    | rightParen => exact settles_fail _
    | dice _ =>
      exact (hexpression _).bind fun sides => (settles_roll _ _ _).bind fun x => settles_value _
    | leftParen =>
      refine (hexpression _).bind fun inner => (settles_closeGroup _).bind fun _ => ?_
      exact ((hfold inner _).watched _).bind fun right => settles_value _
    | add | sub | mul | div | pow =>
      exact (hexpression _).bind fun right => (settles_value _).bind fun x => settles_value _

theorem settles_fold
    (hjoin : ∀ k, n = k + 1 → ∀ symbol index left,
      Settles k (asInfix (σ := σ) calls symbol index left))
    (hfold : ∀ k, n = k + 1 → ∀ left power, Settles k (fold (σ := σ) calls left power))
    (left : Number) (power : Nat) : Settles n (fold (σ := σ) (calls + 1) left power) := by
  rw [fold.eq_def]
  refine settles_state fun s => ?_
  cases leftPower? s.current with
  | none => exact settles_unexpected
  | some next =>
    by_cases hends : next ≤ power
    · simp only [if_pos hends]
      exact settles_pure left
    · simp only [if_neg hends]
      exact settles_advance_bind fun k hk => (hjoin k hk _ _ _).bind fun x => hfold k hk x power

theorem settles_expression
    (hopen : ∀ k, n = k + 1 → ∀ symbol index, Settles k (asPrefix (σ := σ) calls symbol index))
    (hfold : ∀ k, n = k + 1 → ∀ left power, Settles k (fold (σ := σ) calls left power))
    (power : Nat) : Settles n (expression (σ := σ) (calls + 1) power) := by
  rw [expression]
  refine Settles.watched (.nested (settles_state fun s => settles_advance_bind fun k hk => ?_)) _
  exact (hopen k hk _ _).bind fun left => (hfold k hk left power).watched _

end

/-- **Twice as many calls as moves are enough.** Every other call moves the cursor. -/
theorem settles (calls : Nat) :
    (∀ n power, 2 * n < calls → Settles n (expression (σ := σ) calls power)) ∧
    (∀ n symbol index, 2 * n + 1 < calls → Settles n (asPrefix (σ := σ) calls symbol index)) ∧
    (∀ n left power, 2 * n < calls → Settles n (fold (σ := σ) calls left power)) ∧
    ∀ n symbol index left, 2 * n + 1 < calls →
      Settles n (asInfix (σ := σ) calls symbol index left) := by
  induction calls with
  | zero => simp only [Nat.not_lt_zero, false_implies, implies_true, and_self]
  | succ calls ih =>
    obtain ⟨hexpression, hopen, hfold, hjoin⟩ := ih
    refine ⟨fun n power h => ?_, fun n symbol index h => ?_, fun n left power h => ?_,
      fun n symbol index left h => ?_⟩
    · exact settles_expression (fun k hk symbol index => hopen k symbol index (by omega))
        (fun k hk left power => hfold k left power (by omega)) power
    · exact settles_asPrefix (fun power => hexpression n power (by omega)) symbol index
    · exact settles_fold (fun k hk symbol index left => hjoin k symbol index left (by omega))
        (fun k hk left power => hfold k left power (by omega)) left power
    · exact settles_asInfix (fun power => hexpression n power (by omega))
        (fun left power => hfold n left power (by omega)) symbol index left

end DiceNotation.Evaluator
