import DiceNotation.Evaluation
import DiceNotation.Proofs.Reading
import DiceNotation.Proofs.Running

/-!
# DiceNotation.Proofs.Placement

Where the indices in a program point. Frames, steps and errors name tokens by
index; every such index is that of a token which has been read, and which is
what it is named for (`Placed`): an opening parenthesis, a division, dice.

* `Program.placed_ofTokens`: so it is in the program of an expression;
* `Program.runSteps_error`: a run that fails does so at one of its steps, with
  an error of that step;
* `EvalError.Placed.error_eq_none`: a token that is blamed carried no error, so the blame is not
  swallowed;
* `errors_annotate`: annotating changes no error but at the token that is blamed.
-/

namespace DiceNotation

/-! ## Placed indices -/

/-- The token at an index has been read, as this symbol. -/
def Reads (tokens : List Token) (index : Nat) (symbol : Symbol) : Prop :=
  tokens[index]?.map Token.symbol = some (.ok symbol)

/-- The token at an index has been read as dice. -/
def ReadsDice (tokens : List Token) (index : Nat) : Prop :=
  ∃ upper, Reads tokens index (.operator (.dice upper))

def Frame.Placed (tokens : List Token) : Frame → Prop
  | .group index | .product index | .factor index => Reads tokens index (.operator .leftParen)
  | .negation => True
  | .dice index => ReadsDice tokens index
  | .binary op index => Reads tokens index (.operator op.operator)

/-- The parenthesis stands for the sign of a product that is not written out. -/
def Action.Placed (tokens : List Token) : Action → Prop
  | .push _ | .negate => True
  | .apply op index =>
    Reads tokens index (.operator op.operator) ∨
      op = .mul ∧ Reads tokens index (.operator .leftParen)
  | .roll index => ReadsDice tokens index

/-- An unexpected value is blamed on the token that was read last. -/
def EvalError.Placed (tokens : List Token) (seen : Nat) : EvalError → Prop
  | .unexpectedValue index => index + 1 = seen ∧ ∃ symbol, Reads tokens index symbol
  | .unclosedGroup index => Reads tokens index (.operator .leftParen)
  | .zeroDivision index => Reads tokens index (.operator .div)
  | .roll index _ => ReadsDice tokens index
  | .unexpectedEnd | .lexical _ | .unreadable | .tooDeep | .notFinite | .missingOperand => True

structure Program.Placed (tokens : List Token) (p : Program) : Prop where
  steps : ∀ step ∈ p.steps, step.action.Placed tokens
  verdict : ∀ e, p.verdict = .error e → e.Placed tokens p.seen

/-! ## Tokens -/

theorem Token.error_of_symbol {t : Token} {symbol : Symbol} (h : t.symbol = .ok symbol) :
    t.error = none := by
  unfold Token.symbol at h
  split at h
  · cases h
  · assumption

/-- A token that cannot be read is not blamed again. -/
theorem Token.mark?_of_symbol {t : Token} {e : EvalError} (h : t.symbol = .error e) :
    e.mark? = none := by
  unfold Token.symbol at h
  split at h
  · cases h
    rfl
  · split at h <;> cases h
    rfl

theorem mark?_of_obstacle? {tokens : List Token} {e : EvalError} (h : obstacle? tokens = some e) :
    e.mark? = none := by
  unfold obstacle? at h
  split at h
  · cases h
  · split at h <;> cases h
    exact Token.mark?_of_symbol (by assumption)

theorem Token.symbol_error_placed {t : Token} {e : EvalError} (h : t.symbol = .error e)
    (tokens : List Token) (seen : Nat) : e.Placed tokens seen := by
  unfold Token.symbol at h
  split at h
  · cases h
    trivial
  · split at h <;> cases h
    trivial

theorem obstacle?_placed {rest : List Token} {e : EvalError} (h : obstacle? rest = some e)
    (tokens : List Token) (seen : Nat) : e.Placed tokens seen := by
  unfold obstacle? at h
  split at h
  · cases h
  · split at h <;> cases h
    exact Token.symbol_error_placed (by assumption) tokens seen

theorem Reads.error_eq_none {tokens : List Token} {index : Nat} {symbol : Symbol}
    (h : Reads tokens index symbol) : tokens[index]?.map Token.error = some none := by
  obtain ⟨t, ht, hsymbol⟩ := Option.map_eq_some_iff.1 h
  rw [ht, Option.map_some, Token.error_of_symbol hsymbol]

theorem Reads.lt_length {tokens : List Token} {index : Nat} {symbol : Symbol}
    (h : Reads tokens index symbol) : index < tokens.length := by
  obtain ⟨t, ht, -⟩ := Option.map_eq_some_iff.1 h
  exact (List.getElem?_eq_some_iff.1 ht).1

/-- **A token that is blamed carried no error.** -/
theorem EvalError.Placed.error_eq_none {tokens : List Token} {seen : Nat} {e : EvalError}
    (h : e.Placed tokens seen) {index : Nat} {mark : TokenError}
    (hmark : e.mark? = some (index, mark)) : tokens[index]?.map Token.error = some none := by
  unfold EvalError.mark? at hmark
  split at hmark <;> cases hmark
  · obtain ⟨_, _, hreads⟩ := h
    exact hreads.error_eq_none
  · exact Reads.error_eq_none h
  · exact Reads.error_eq_none h
  · obtain ⟨_, hreads⟩ := h
    exact hreads.error_eq_none

/-! ## Reading -/

theorem Frame.steps_placed {tokens : List Token} {frames : List Frame}
    (h : ∀ frame ∈ frames, frame.Placed tokens) (seen : Nat) :
    ∀ step ∈ steps seen frames, step.action.Placed tokens := by
  intro step hstep
  obtain ⟨frame, hframe, haction⟩ := List.mem_filterMap.1 hstep
  have hplaced := h frame hframe
  cases frame with
  | group index => cases haction
  | product index => cases haction
  | factor index => cases haction; exact .inr ⟨rfl, hplaced⟩
  | negation => cases haction; trivial
  | dice index => cases haction; exact hplaced
  | binary op index => cases haction; exact .inl hplaced

theorem Frame.close?_placed {tokens : List Token} {frames outer : List Frame}
    (h : close? frames = some outer) (hframes : ∀ frame ∈ frames, frame.Placed tokens) :
    ∀ frame ∈ outer, frame.Placed tokens := by
  unfold close? at h
  split at h <;> cases h
  · exact (List.forall_mem_cons.1 hframes).2
  · -- The product with a group has the index of the group.
    obtain ⟨hgroup, houter⟩ := List.forall_mem_cons.1 hframes
    exact List.forall_mem_cons.2 ⟨hgroup, houter⟩

theorem Frame.unclosed?_placed {tokens : List Token} {frames : List Frame} {index : Nat}
    (h : unclosed? frames = some index) (hframes : ∀ frame ∈ frames, frame.Placed tokens) :
    Reads tokens index (.operator .leftParen) := by
  unfold unclosed? at h
  split at h <;> cases h
  all_goals exact hframes _ List.mem_cons_self

namespace Program

theorem placed_stop {tokens : List Token} {e : EvalError} {seen : Nat} (h : e.Placed tokens seen) :
    (stop e seen).Placed tokens :=
  ⟨nofun, fun _ he => by cases he; exact h⟩

theorem placed_finish (tokens : List Token) (seen : Nat) : (finish seen).Placed tokens :=
  ⟨nofun, nofun⟩

theorem Placed.after {tokens : List Token} {p : Program} (h : p.Placed tokens) {steps : List Step}
    (hsteps : ∀ step ∈ steps, step.action.Placed tokens) : (p.after steps).Placed tokens :=
  ⟨fun step hstep => (List.mem_append.1 hstep).elim (hsteps step) (h.steps step), h.verdict⟩

/-- Where a reader stands in an expression: what it has read before, and what waits. -/
structure At (all : List Token) (mode : Mode) (frames : List Frame) (index : Nat)
    (tokens : List Token) : Prop where
  rest : all.drop index = tokens
  frames : ∀ frame ∈ frames, frame.Placed all
  /-- An operand has a last token. -/
  last : mode = .operator → 0 < index ∧ ∃ symbol, Reads all (index - 1) symbol

theorem At.reads {all rest : List Token} {mode : Mode} {frames : List Frame} {index : Nat}
    {token : Token} (h : At all mode frames index (token :: rest)) {symbol : Symbol}
    (hsymbol : token.symbol = .ok symbol) : Reads all index symbol := by
  have htoken : all[index]? = some token := by
    have := congrArg (·[0]?) h.rest
    simpa using this
  rw [Reads, htoken, Option.map_some, hsymbol]

theorem At.steps_placed {all rest : List Token} {mode : Mode} {frames : List Frame} {index : Nat}
    (h : At all mode frames index rest) (power : Nat) :
    ∀ step ∈ Frame.steps index (Frame.released power frames), step.action.Placed all :=
  Frame.steps_placed (fun frame hframe => h.frames frame (List.takeWhile_subset _ hframe)) index

theorem At.held_placed {all rest : List Token} {mode : Mode} {frames : List Frame} {index : Nat}
    (h : At all mode frames index rest) (power : Nat) :
    ∀ frame ∈ Frame.held power frames, frame.Placed all :=
  fun frame hframe => h.frames frame ((List.dropWhile_suffix _).subset hframe)

theorem Halt.placed {all : List Token} {scope : Scope} {frames : List Frame} {index : Nat}
    {mode : Mode} {tokens : List Token} {program : Program}
    (h : Halt scope frames index mode tokens program) (hat : At all mode frames index tokens) :
    program.Placed all := by
  have hreleased := hat.steps_placed
  cases h with
  | tooDeep _ => exact placed_stop trivial
  | lacking _ => exact placed_stop trivial
  | unreadable _ hsymbol => exact placed_stop (Token.symbol_error_placed hsymbol _ _)
  | blocked _ _ hrest => exact placed_stop (obstacle?_placed hrest _ _)
  | misplacedOperator _ hsymbol _ _ => exact placed_stop ⟨rfl, _, hat.reads hsymbol⟩
  | misplacedNumber _ =>
    obtain ⟨hpos, hreads⟩ := hat.last rfl
    exact placed_stop ⟨Nat.sub_add_cancel hpos, hreads⟩
  | @unclosed opening hopening =>
    have hopened := Frame.unclosed?_placed hopening (hat.held_placed 0)
    exact (placed_stop (e := .unclosedGroup opening) hopened).after (hreleased 0)
  | complete _ => exact (placed_finish ..).after (hreleased 0)
  | outside _ _ _ _ => exact (placed_finish ..).after (hreleased _)
  | blockedOperator _ _ _ hrest =>
    exact (placed_stop (obstacle?_placed hrest _ _)).after (hreleased _)
  | closed _ _ _ => exact (placed_finish ..).after (hreleased 0)
  | blockedClosing _ _ _ hrest =>
    exact (placed_stop (obstacle?_placed hrest _ _)).after (hreleased 0)

theorem Move.placed {all : List Token} {scope : Scope} {frames frames' : List Frame} {index : Nat}
    {token : Token} {rest : List Token} {mode mode' : Mode} {steps : List Step}
    (h : Move scope frames index token mode steps mode' frames')
    (hat : At all mode frames index (token :: rest)) :
    (∀ step ∈ steps, step.action.Placed all) ∧ At all mode' frames' (index + 1) rest := by
  have hrest : all.drop (index + 1) = rest := by
    rw [← List.drop_drop, hat.rest, List.drop_one, List.tail_cons]
  have hlast : ∀ {symbol}, token.symbol = .ok symbol →
      0 < index + 1 ∧ ∃ symbol, Reads all (index + 1 - 1) symbol := fun hsymbol =>
    ⟨Nat.succ_pos index, _, hat.reads hsymbol⟩
  have hreleased := hat.steps_placed
  cases h with
  | number _ hsymbol =>
    exact ⟨by simp [Action.Placed], hrest, hat.frames, fun _ => hlast hsymbol⟩
  | @opening op actions frame _ hsymbol hop =>
    have hreads := hat.reads hsymbol
    have hframe : (∀ action ∈ actions, action.Placed all) ∧ frame.Placed all := by
      unfold Operator.opening? at hop
      split at hop <;> cases hop
      · exact ⟨nofun, trivial⟩
      · exact ⟨nofun, hreads⟩
      · exact ⟨by simp [Action.Placed], _, hreads⟩
    exact ⟨by simpa using hframe.1, hrest, List.forall_mem_cons.2 ⟨hframe.2, hat.frames⟩, nofun⟩
  | @continuing op power frame hsymbol hop _ =>
    have hreads := hat.reads hsymbol
    have hframe : frame.Placed all := by
      unfold Operator.continuing? at hop
      split at hop <;> cases hop
      case h_6 => exact ⟨_, hreads⟩
      all_goals exact hreads
    exact ⟨hreleased _, hrest, List.forall_mem_cons.2 ⟨hframe, hat.held_placed _⟩, nofun⟩
  | closing hsymbol _ hclose =>
    exact ⟨hreleased 0, hrest, Frame.close?_placed hclose (hat.held_placed 0),
      fun _ => hlast hsymbol⟩

/-- **Every index in the program of an expression points at the token it is named for.** -/
theorem placed_ofTokens (tokens : List Token) : (ofTokens tokens).Placed tokens := by
  refine read_induct .whole
    (P := fun mode frames index rest program =>
      At tokens mode frames index rest → program.Placed tokens)
    (fun h hat => h.placed hat) ?_ tokens .operand [] 0 ⟨rfl, nofun, nofun⟩
  intro _ _ _ _ _ _ _ _ _ hmove _ ih hat
  obtain ⟨hsteps, hat'⟩ := hmove.placed hat
  exact (ih hat').after hsteps

end Program

/-! ## Running -/

/-- The errors of an action. -/
inductive Action.Failure : Action → EvalError → Prop
  | notFinite {action} : Failure action .notFinite
  | missingOperand {action} : Failure action .missingOperand
  | zeroDivision {index} : Failure (.apply .div index) (.zeroDivision index)
  | roll {index why} : Failure (.roll index) (.roll index why)

theorem Action.Failure.placed {tokens : List Token} {action : Action} {e : EvalError}
    (h : action.Failure e) (haction : action.Placed tokens) (seen : Nat) :
    e.Placed tokens seen := by
  cases h with
  | notFinite => trivial
  | missingOperand => trivial
  | zeroDivision =>
    rcases haction with hreads | ⟨hop, _⟩
    · exact hreads
    · cases hop
  | roll => exact haction

variable {σ : Type} [Roller σ]

theorem Step.perform_error {step : Step} {stack : List Number} {tray : Tray σ} {e : EvalError}
    (h : (step.perform stack tray).result = .error e) :
    step.action.Failure e ∧ (step.perform stack tray).seen = step.seen := by
  have hfinite : ∀ (x : Number) (rest : List Number) (action : Action),
      (finite x).map (· :: rest) = .error e → action.Failure e := by
    intro x rest action h
    unfold finite at h
    split at h <;> cases h
    exact .notFinite
  rcases step.perform_cases stack with ⟨result, hcalculation, hcalc⟩ |
    ⟨index, quantity, sides, rest, haction, rfl, hroll⟩
  · rw [hcalc tray] at h ⊢
    refine ⟨?_, rfl⟩
    generalize step.action = action at hcalculation ⊢
    cases hcalculation with
    | lacking _ => cases h; exact .missingOperand
    | zeroDivision => cases h; exact .zeroDivision
    | value x rest _ => exact hfinite x rest action h
  · rw [haction]
    rw [hroll tray] at h ⊢
    rcases hfaces : tray.roll quantity sides with ⟨result, tray'⟩
    cases result with
    | error why =>
      rw [Tray.rollAt_of_error hfaces] at h ⊢
      cases h
      exact ⟨.roll, rfl⟩
    | ok faces =>
      rw [Tray.rollAt_of_ok hfaces] at h ⊢
      exact ⟨hfinite _ rest _ h, rfl⟩

namespace Program

/-- A run that fails does so at one of its steps. -/
theorem runSteps_error {steps : List Step} {stack : List Number} {tray : Tray σ} {seen : Nat}
    {e : EvalError} (h : (runSteps seen steps stack tray).result = .error e) :
    ∃ step ∈ steps, step.action.Failure e ∧
      (runSteps seen steps stack tray).seen = step.seen := by
  induction steps generalizing stack tray with
  | nil => cases h
  | cons step steps ih =>
    rw [runSteps_cons] at h ⊢
    cases hresult : (step.perform stack tray).result with
    | error why =>
      rw [hresult] at h
      cases h
      exact ⟨step, List.mem_cons_self, Step.perform_error hresult⟩
    | ok stack' =>
      rw [hresult] at h
      obtain ⟨later, hlater, hfailure⟩ := ih h
      exact ⟨later, List.mem_cons_of_mem _ hlater, hfailure⟩

/-- How far a run has read that takes every step. -/
theorem runSteps_endsAt (seen : Nat) (steps : List Step) (stack : List Number) (tray : Tray σ) :
    (runSteps seen steps stack tray).EndsAt seen := by
  induction steps generalizing stack tray with
  | nil => exact fun _ _ => rfl
  | cons step steps ih =>
    rw [runSteps_cons_eq_bind]
    exact Run.endsAt_bind ih

/-- No run reads further than its program. -/
theorem runSteps_seen_le (tokens : List Token) (tray : Tray σ) :
    (runSteps (ofTokens tokens).seen (ofTokens tokens).steps [] tray).seen ≤
      (ofTokens tokens).seen := by
  cases hresult : (runSteps (ofTokens tokens).seen (ofTokens tokens).steps [] tray).result with
  | error e =>
    obtain ⟨step, hstep, _, hseen⟩ := runSteps_error hresult
    rw [hseen]
    exact seen_le_ofTokens hstep
  | ok stack => exact Nat.le_of_eq (runSteps_endsAt _ _ _ _ stack hresult)

end Program

/-! ## Annotations -/

/-- The errors at the tokens after a result: as they were, but for the token that is blamed. -/
def blame {α : Type} (result : Except EvalError α) (errors : List (Option TokenError)) :
    List (Option TokenError) :=
  match result with
  | .ok _ => errors
  | .error e =>
    match e.mark? with
    | some (index, mark) => errors.set index (some mark)
    | none => errors

theorem map_modify_of_eq {α : Type} {f : Token → α} {g : Token → Token} (h : ∀ t, f (g t) = f t)
    (tokens : List Token) (index : Nat) : (tokens.modify index g).map f = tokens.map f := by
  apply List.ext_getElem?
  intro i
  simp only [List.getElem?_map, List.getElem?_modify]
  cases tokens[i]? with
  | none => rfl
  | some t => simp only [Option.map_some]; split <;> simp [h]

/-- What rolls do not change at any token, they leave. -/
theorem map_annotateRolls {α : Type} {f : Token → α} (hroll : ∀ t r, f (t.withRoll r) = f t)
    (hresult : ∀ t r, f (t.withRollResult r) = f t) (tokens : List Token) (rolls : List RollEvent) :
    (rolls.foldl annotateRoll tokens).map f = tokens.map f := by
  induction rolls generalizing tokens with
  | nil => rfl
  | cons event rolls ih =>
    rw [List.foldl_cons, ih, annotateRoll, map_modify_of_eq fun t => hresult t event.record,
      map_modify_of_eq fun t => hroll t event.record]

theorem errors_annotateRolls (tokens : List Token) (rolls : List RollEvent) :
    (rolls.foldl annotateRoll tokens).map Token.error = tokens.map Token.error :=
  map_annotateRolls (fun _ _ => rfl) (fun _ _ => rfl) tokens rolls

/-- A mark at a token without an error becomes its error. -/
theorem errors_modify_mark {tokens : List Token} {index : Nat}
    (h : tokens[index]?.map Token.error = some none) (mark : TokenError) :
    (tokens.modify index (Token.mark · mark)).map Token.error =
      (tokens.map Token.error).set index (some mark) := by
  obtain ⟨t, ht, hnone⟩ := Option.map_eq_some_iff.1 h
  apply List.ext_getElem?
  intro i
  by_cases hi : index = i
  · subst hi
    simp [ht, hnone, List.getElem?_set_self', Token.mark]
  · simp [List.getElem?_set_ne, hi]

/-- The errors at the tokens after a run. -/
theorem errors_annotate {tokens : List Token} {rolls : List RollEvent}
    {result : Except EvalError Number} {seen : Nat}
    (h : ∀ e, result = .error e → e.Placed tokens seen) :
    (annotate tokens rolls result).map Token.error = blame result (tokens.map Token.error) := by
  unfold annotate
  cases result with
  | ok x => exact errors_annotateRolls tokens rolls
  | error e =>
    have hplaced := h e rfl
    simp only [blame, annotateError]
    rw [← errors_annotateRolls tokens rolls]
    cases hmark : e.mark? with
    | none => rfl
    | some place =>
      obtain ⟨index, mark⟩ := place
      refine errors_modify_mark ?_ mark
      rw [← List.getElem?_map, errors_annotateRolls, List.getElem?_map]
      exact hplaced.error_eq_none hmark

end DiceNotation
