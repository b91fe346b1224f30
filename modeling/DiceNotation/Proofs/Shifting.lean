import DiceNotation.Evaluation
import DiceNotation.Proofs.Placement
import DiceNotation.Proofs.Running

/-!
# DiceNotation.Proofs.Shifting

What becomes of indices when a token is put into an expression: those of the tokens from that place
on go up by one (`shiftIndex`), and all else that is said of tokens goes with them.

* `EvalError.shift`, `RollEvent.shift`, `Run.shift`: errors, rolls and runs by shifted indices;
* `Run.shift_bind`: a run that goes on with another, shifted;
* `annotate_insertIdx`: what a shifted run leaves is what the run leaves, with
  the new token among it;
* `Tray.evaluate_insertIdx`: and so is its evaluation.
-/

namespace DiceNotation

/-! ## Indices -/

/-- Where the token at `k` is found after another has been put in at `i`. -/
def shiftIndex (i k : Nat) : Nat := if k < i then k else k + 1

/-- How far an expression has been read, counted with another token at `i`. What was seen of the
token before which it is put in is now seen of the new token. -/
def shiftSeen (i seen : Nat) : Nat := if seen ≤ i then seen else seen + 1

theorem shiftIndex_of_lt {i k : Nat} (h : k < i) : shiftIndex i k = k := if_pos h

theorem shiftIndex_of_le {i k : Nat} (h : i ≤ k) : shiftIndex i k = k + 1 := if_neg (Nat.not_lt.2 h)

theorem shiftSeen_of_le {i seen : Nat} (h : seen ≤ i) : shiftSeen i seen = seen := if_pos h

theorem shiftSeen_of_lt {i seen : Nat} (h : i < seen) : shiftSeen i seen = seen + 1 :=
  if_neg (Nat.not_le.2 h)

@[simp] theorem shiftSeen_succ (i k : Nat) : shiftSeen i (k + 1) = shiftIndex i k + 1 := by
  unfold shiftSeen shiftIndex
  split <;> split <;> omega

theorem shiftSeen_of_ne {i k : Nat} (h : k ≠ i) : shiftSeen i k = shiftIndex i k := by
  unfold shiftSeen shiftIndex
  split <;> split <;> omega

theorem shiftIndex_succ (i k : Nat) : shiftIndex (i + 1) (k + 1) = shiftIndex i k + 1 := by
  unfold shiftIndex
  split <;> split <;> omega

/-- The token before the one that has been seen, if there is one. -/
theorem shiftSeen_sub_one {i seen : Nat} (h : 0 < i ∨ 0 < seen) :
    shiftSeen i seen - 1 = shiftIndex i (seen - 1) := by
  unfold shiftSeen shiftIndex
  split <;> split <;> omega

/-! ## Errors, rolls and runs -/

/-- An error by shifted indices. -/
def EvalError.shift (i : Nat) : EvalError → EvalError
  | .unexpectedValue index => .unexpectedValue (shiftIndex i index)
  | .unclosedGroup index => .unclosedGroup (shiftIndex i index)
  | .zeroDivision index => .zeroDivision (shiftIndex i index)
  | .roll index why => .roll (shiftIndex i index) why
  | .unexpectedEnd => .unexpectedEnd
  | .lexical message => .lexical message
  | .unreadable => .unreadable
  | .tooDeep => .tooDeep
  | .notFinite => .notFinite
  | .missingOperand => .missingOperand

/-- An error is worded without its indices. -/
@[simp] theorem EvalError.message_shift (i : Nat) (e : EvalError) :
    (e.shift i).message = e.message := by
  cases e <;> rfl

theorem EvalError.mark?_shift (i : Nat) (e : EvalError) :
    (e.shift i).mark? = e.mark?.map fun place => (shiftIndex i place.1, place.2) := by
  cases e with
  | roll index why => cases why <;> rfl
  | _ => rfl

/-- The error of a token does not depend on where it stands. -/
theorem Token.symbol_error_shift {t : Token} {e : EvalError} (h : t.symbol = .error e) (i : Nat) :
    e.shift i = e := by
  unfold Token.symbol at h
  split at h
  · cases h
    rfl
  · split at h <;> cases h
    rfl

theorem obstacle?_shift {rest : List Token} {e : EvalError} (h : obstacle? rest = some e)
    (i : Nat) : e.shift i = e := by
  unfold obstacle? at h
  split at h
  · cases h
  · split at h <;> cases h
    exact Token.symbol_error_shift (by assumption) i

/-- A roll by shifted indices. -/
def RollEvent.shift (i : Nat) (event : RollEvent) : RollEvent :=
  ⟨shiftIndex i event.operator, shiftIndex i event.operandEnd, event.record⟩

theorem map_record_shift (i : Nat) (rolls : List RollEvent) :
    (rolls.map (RollEvent.shift i)).map RollEvent.record = rolls.map RollEvent.record := by
  rw [List.map_map]
  rfl

namespace Run

variable {σ α β : Type}

/-- A run by shifted indices. -/
def shift (i : Nat) (r : Run σ α) : Run σ α :=
  ⟨r.result.mapError (EvalError.shift i), r.rolls.map (RollEvent.shift i), shiftSeen i r.seen,
    r.tray⟩

@[simp] theorem shift_after (i : Nat) (r : Run σ α) (rolls : List RollEvent) :
    (r.after rolls).shift i = (r.shift i).after (rolls.map (RollEvent.shift i)) := by
  simp [shift, after]

theorem shift_bind (i : Nat) (r : Run σ α) (next : α → Tray σ → Run σ β) :
    (r.bind next).shift i = (r.shift i).bind fun a tray => (next a tray).shift i := by
  obtain ⟨result, rolls, seen, tray⟩ := r
  cases result with
  | error e => rfl
  | ok a => exact shift_after i (next a tray) rolls

theorem shift_map (i : Nat) (r : Run σ α) (f : α → β) : (r.map f).shift i = (r.shift i).map f := by
  obtain ⟨result, rolls, seen, tray⟩ := r
  cases result <;> rfl

end Run

/-! ## Annotations -/

theorem insertIdx_eq_take_append_drop {α : Type} {l : List α} {i : Nat} (h : i ≤ l.length) (a : α) :
    l.insertIdx i a = l.take i ++ a :: l.drop i := by
  induction l generalizing i with
  | nil =>
    obtain rfl := Nat.le_zero.1 h
    rfl
  | cons b l ih =>
    cases i with
    | zero => rfl
    | succ i => exact congrArg (b :: ·) (ih (Nat.le_of_succ_le_succ h))

/-- A token put in among others does not take part in what is done at the others. -/
theorem modify_insertIdx {α : Type} (l : List α) (i : Nat) (a : α) (k : Nat) (f : α → α) :
    (l.insertIdx i a).modify (shiftIndex i k) f = (l.modify k f).insertIdx i a := by
  induction l generalizing i k with
  | nil =>
    cases i with
    | zero => rfl
    | succ i => simp
  | cons b l ih =>
    cases i with
    | zero => rfl
    | succ i =>
      cases k with
      | zero => rfl
      | succ k =>
        rw [shiftIndex_succ]
        exact congrArg (b :: ·) (ih i k)

theorem annotateRolls_insertIdx (tokens : List Token) (i : Nat) (t : Token)
    (rolls : List RollEvent) :
    (rolls.map (RollEvent.shift i)).foldl annotateRoll (tokens.insertIdx i t) =
      (rolls.foldl annotateRoll tokens).insertIdx i t := by
  induction rolls generalizing tokens with
  | nil => rfl
  | cons event rolls ih =>
    have hfirst : annotateRoll (tokens.insertIdx i t) (event.shift i) =
        (annotateRoll tokens event).insertIdx i t := by
      simp only [annotateRoll, RollEvent.shift, modify_insertIdx]
    rw [List.map_cons, List.foldl_cons, List.foldl_cons, hfirst]
    exact ih (annotateRoll tokens event)

/-- **A shifted run leaves the same at the same tokens**, and nothing at the new one. -/
theorem annotate_insertIdx (tokens : List Token) (i : Nat) (t : Token) (rolls : List RollEvent)
    (result : Except EvalError Number) :
    annotate (tokens.insertIdx i t) (rolls.map (RollEvent.shift i))
        (result.mapError (EvalError.shift i)) =
      (annotate tokens rolls result).insertIdx i t := by
  unfold annotate
  rw [annotateRolls_insertIdx]
  cases result with
  | ok x => rfl
  | error e =>
    show annotateError _ (e.shift i) = (annotateError _ e).insertIdx i t
    unfold annotateError
    rw [EvalError.mark?_shift]
    cases e.mark? with
    | none => rfl
    | some place => exact modify_insertIdx ..

/-- **Where a token put in shifts the run, it changes nothing in the evaluation but indices**: the
value or the reason of the failure, the rolls, the annotations at the other tokens and the tray are
the same, and the new token has no annotations. -/
theorem Tray.evaluate_insertIdx {σ : Type} [Roller σ] (tray : Tray σ) (text text' : String)
    (tokens : List Token) (i : Nat) (t : Token)
    (hrun : (Program.ofTokens (tokens.insertIdx i t)).run tray.reset =
      ((Program.ofTokens tokens).run tray.reset).shift i) :
    let result := tray.evaluate ⟨text, tokens⟩
    let result' := tray.evaluate ⟨text', tokens.insertIdx i t⟩
    result'.1.outcome = result.1.outcome.mapError (EvalError.shift i) ∧
    result'.1.errorText = result.1.errorText ∧
    result'.1.rolls = result.1.rolls ∧
    result'.1.tokens = result.1.tokens.insertIdx i t ∧
    result'.2 = result.2 := by
  intro result result'
  let run := (Program.ofTokens tokens).run tray.reset
  let run' := (Program.ofTokens (tokens.insertIdx i t)).run tray.reset
  replace hrun : run' = run.shift i := hrun
  have houtcome : result'.1.outcome = result.1.outcome.mapError (EvalError.shift i) := by
    show run'.result.map Number.normalize = (run.result.map Number.normalize).mapError _
    rw [hrun, Run.shift]
    cases run.result <;> rfl
  refine ⟨houtcome, ?_, ?_, ?_, ?_⟩
  · unfold Evaluation.errorText
    rw [houtcome]
    cases result.1.outcome with
    | ok x => rfl
    | error e => exact EvalError.message_shift i e
  · show run'.rolls.map RollEvent.record = run.rolls.map RollEvent.record
    rw [hrun]
    exact map_record_shift i run.rolls
  · show annotate _ run'.rolls run'.result = _
    rw [hrun]
    exact annotate_insertIdx tokens i t run.rolls run.result
  · show run'.tray = run.tray
    rw [hrun]
    rfl

end DiceNotation
