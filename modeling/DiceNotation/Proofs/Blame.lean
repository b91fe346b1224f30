import DiceNotation.Proofs.Locality

/-!
# DiceNotation.Proofs.Blame

An error is blamed on a token that has been consumed, and a token that carries an error cannot be.

* `Program.run_passed`: a run that fails has looked past the token it blames;
* `Program.read_unreadable`: reading that comes to a token which cannot be read stops there;
* `Program.run_unreadable`: so with an error at a token that a run has looked past, the run is cut
  off at that token. It has made the rolls whose operands ended before it, and no others.

The steps of a program are taken in view of one token after the other, so the cut is between two of
them: steps that are taken in view of the same token are all before it or all after.
-/

namespace DiceNotation

/-! ## Tokens that are passed -/

/-- The token that a frame is named for, if there is one. -/
def Frame.index? : Frame → Option Nat
  | .group index | .product index | .factor index | .dice index | .binary _ index => some index
  | .negation => none

/-- The token that an action is named for, if there is one. -/
def Action.index? : Action → Option Nat
  | .apply _ index | .roll index => some index
  | .push _ | .negate => none

/-- An action does what its frame is named for. -/
theorem Frame.index?_of_action? {frame : Frame} {action : Action} (h : frame.action? = some action)
    {index : Nat} (hindex : action.index? = some index) : frame.index? = some index := by
  unfold Frame.action? at h
  split at h <;> cases h <;> exact hindex

/-- The group that is not closed is named for its parenthesis. -/
theorem Frame.exists_of_unclosed? {frames : List Frame} {opening : Nat}
    (h : unclosed? frames = some opening) : ∃ frame ∈ frames, frame.index? = some opening := by
  unfold unclosed? at h
  split at h
  · cases h
    exact ⟨_, List.mem_cons_self, rfl⟩
  · cases h
    exact ⟨_, List.mem_cons_self, rfl⟩
  · cases h

/-- The product with a group has the name of the group. -/
theorem Frame.exists_of_close? {frames outer : List Frame} (h : close? frames = some outer)
    {frame : Frame} (hframe : frame ∈ outer) : ∃ old ∈ frames, old.index? = frame.index? := by
  unfold close? at h
  split at h
  · cases h
    exact ⟨frame, List.mem_cons_of_mem _ hframe, rfl⟩
  · cases h
    rcases List.mem_cons.1 hframe with rfl | hmem
    · exact ⟨_, List.mem_cons_self, rfl⟩
    · exact ⟨frame, List.mem_cons_of_mem _ hmem, rfl⟩
  · cases h

/-- What an operator before its operand leaves waiting is named for its token,
and nothing is done for it before. -/
theorem Operator.index?_of_opening? {op : Operator} {index : Nat} {actions : List Action}
    {frame : Frame} (h : op.opening? index = some (actions, frame)) :
    (∀ action ∈ actions, action.index? = none) ∧ ∀ i, frame.index? = some i → i = index := by
  unfold opening? at h
  split at h <;> cases h <;> simp [Frame.index?, Action.index?, eq_comm]

theorem Operator.index?_of_continuing? {op : Operator} {index power : Nat} {frame : Frame}
    (h : op.continuing? index = some (power, frame)) :
    ∀ i, frame.index? = some i → i = index := by
  unfold continuing? at h
  split at h <;> cases h <;> simp [Frame.index?, eq_comm]

/-- An action blames the token that it is named for. -/
theorem Action.Failure.index?_of_mark? {action : Action} {e : EvalError} (h : action.Failure e)
    {index : Nat} {mark : TokenError} (hmark : e.mark? = some (index, mark)) :
    action.index? = some index := by
  cases h with
  | notFinite => cases hmark
  | missingOperand => cases hmark
  | zeroDivision =>
    cases hmark
    rfl
  | @roll index' cause =>
    cases cause with
    | tooManyRolls =>
      cases hmark
      rfl
    | noFaces => cases hmark

namespace Program

/-- Whatever a program may blame has been passed when it does so. -/
structure LooksBack (p : Program) : Prop where
  steps : ∀ step ∈ p.steps, ∀ index, step.action.index? = some index → index < step.seen
  verdict : ∀ why, p.verdict = .error why → ∀ index mark, why.mark? = some (index, mark) →
    index < p.seen

theorem looksBack_finish (seen : Nat) : (finish seen).LooksBack :=
  ⟨List.forall_mem_nil _, fun _ h => by cases h⟩

theorem looksBack_stop {e : EvalError} {seen : Nat}
    (h : ∀ index mark, e.mark? = some (index, mark) → index < seen) : (stop e seen).LooksBack := by
  refine ⟨List.forall_mem_nil _, ?_⟩
  intro why hwhy
  cases hwhy
  exact h

theorem looksBack_stop_of_none {e : EvalError} (h : e.mark? = none) (seen : Nat) :
    (stop e seen).LooksBack := by
  apply looksBack_stop
  intro index mark hmark
  rw [h] at hmark
  cases hmark

theorem LooksBack.after {p : Program} (h : p.LooksBack) {steps : List Step}
    (hsteps : ∀ step ∈ steps, ∀ index, step.action.index? = some index → index < step.seen) :
    (p.after steps).LooksBack :=
  ⟨List.forall_mem_append.2 ⟨hsteps, h.steps⟩, h.verdict⟩

/-- Where a reader stands: what waits has been consumed, and so has the end of an operand. -/
structure Passed (mode : Mode) (frames : List Frame) (index : Nat) : Prop where
  frames : ∀ frame ∈ frames, ∀ i, frame.index? = some i → i < index
  last : mode = .operator → 0 < index

theorem Passed.steps {mode : Mode} {frames : List Frame} {index : Nat}
    (h : Passed mode frames index) (power : Nat) :
    ∀ step ∈ Frame.steps index (Frame.released power frames),
      ∀ i, step.action.index? = some i → i < step.seen := by
  intro step hstep i hi
  rw [Frame.seen_of_mem_steps hstep]
  obtain ⟨frame, hframe, hmade⟩ := List.mem_filterMap.1 hstep
  obtain ⟨action, haction, rfl⟩ := Option.map_eq_some_iff.1 hmade
  exact h.frames frame (List.takeWhile_subset _ hframe) i (Frame.index?_of_action? haction hi)

theorem Passed.held {mode : Mode} {frames : List Frame} {index : Nat} (h : Passed mode frames index)
    (power : Nat) : ∀ frame ∈ Frame.held power frames, ∀ i, frame.index? = some i → i < index :=
  fun frame hframe => h.frames frame ((List.dropWhile_suffix _).subset hframe)

theorem Halt.looksBack {scope : Scope} {frames : List Frame} {index : Nat} {mode : Mode}
    {tokens : List Token} {program : Program} (h : Halt scope frames index mode tokens program)
    (hpassed : Passed mode frames index) : program.LooksBack := by
  cases h with
  | tooDeep _ => exact looksBack_stop_of_none rfl _
  | lacking _ => exact looksBack_stop_of_none rfl _
  | unreadable _ hsymbol => exact looksBack_stop_of_none (Token.mark?_of_symbol hsymbol) _
  | blocked _ _ hrest => exact looksBack_stop_of_none (mark?_of_obstacle? hrest) _
  | misplacedOperator _ _ _ _ =>
    apply looksBack_stop
    rintro _ _ ⟨⟩
    exact Nat.lt_succ_self index
  | misplacedNumber _ =>
    apply looksBack_stop
    rintro _ _ ⟨⟩
    exact Nat.sub_lt (hpassed.last rfl) Nat.one_pos
  | @unclosed opening hunclosed =>
    refine (looksBack_stop ?_).after (hpassed.steps 0)
    rintro _ _ ⟨⟩
    obtain ⟨frame, hframe, hindex⟩ := Frame.exists_of_unclosed? hunclosed
    exact hpassed.held 0 frame hframe opening hindex
  | complete _ => exact (looksBack_finish _).after (hpassed.steps 0)
  | outside _ _ _ _ => exact (looksBack_finish _).after (hpassed.steps _)
  | blockedOperator _ _ _ hrest =>
    exact (looksBack_stop_of_none (mark?_of_obstacle? hrest) _).after (hpassed.steps _)
  | closed _ _ _ => exact (looksBack_finish _).after (hpassed.steps 0)
  | blockedClosing _ _ _ hrest =>
    exact (looksBack_stop_of_none (mark?_of_obstacle? hrest) _).after (hpassed.steps 0)

theorem Move.passed {scope : Scope} {frames frames' : List Frame} {index : Nat} {token : Token}
    {mode mode' : Mode} {steps : List Step}
    (h : Move scope frames index token mode steps mode' frames')
    (hpassed : Passed mode frames index) :
    (∀ step ∈ steps, ∀ i, step.action.index? = some i → i < step.seen) ∧
      Passed mode' frames' (index + 1) := by
  have hold : ∀ {row : List Frame}, (∀ frame ∈ row, ∀ i, frame.index? = some i → i < index) →
      ∀ frame ∈ row, ∀ i, frame.index? = some i → i < index + 1 :=
    fun hrow frame hframe i hi => Nat.lt_succ_of_lt (hrow frame hframe i hi)
  have hpos : mode' = .operator → 0 < index + 1 := fun _ => Nat.succ_pos index
  cases h with
  | number _ _ =>
    refine ⟨?_, hold hpassed.frames, hpos⟩
    simp [Action.index?]
  | @opening op actions frame _ _ hop =>
    obtain ⟨hactions, hnamed⟩ := Operator.index?_of_opening? hop
    refine ⟨?_, List.forall_mem_cons.2 ⟨?_, hold hpassed.frames⟩, hpos⟩
    · intro step hstep i hi
      obtain ⟨action, haction, rfl⟩ := List.mem_map.1 hstep
      rw [hactions action haction] at hi
      cases hi
    · intro i hi
      rw [hnamed i hi]
      exact Nat.lt_succ_self index
  | @continuing op power frame _ hop _ =>
    refine ⟨hpassed.steps power, List.forall_mem_cons.2 ⟨?_, hold (hpassed.held power)⟩, hpos⟩
    intro i hi
    rw [Operator.index?_of_continuing? hop i hi]
    exact Nat.lt_succ_self index
  | closing _ _ hclose =>
    refine ⟨hpassed.steps 0, hold ?_, hpos⟩
    intro frame hframe i hi
    obtain ⟨old, hmem, hsame⟩ := Frame.exists_of_close? hclose hframe
    exact hpassed.held 0 old hmem i (hsame.trans hi)

/-- **An expression blames what has been passed.** -/
theorem looksBack_ofTokens (tokens : List Token) : (ofTokens tokens).LooksBack := by
  refine read_induct .whole
    (P := fun mode frames index _ program => Passed mode frames index → program.LooksBack)
    (fun h hpassed => h.looksBack hpassed) ?_ tokens .operand [] 0 ⟨List.forall_mem_nil _, ?_⟩
  · intro _ _ _ _ _ _ _ _ _ hmove _ ih hpassed
    obtain ⟨hsteps, hpassed'⟩ := hmove.passed hpassed
    exact (ih hpassed').after hsteps
  · intro h
    cases h

variable {σ : Type} [Roller σ]

/-- **A run that fails has looked past the token it blames.** -/
theorem run_passed {tokens : List Token} {tray : Tray σ} {why : EvalError}
    (h : ((ofTokens tokens).run tray).result = .error why) {index : Nat} {mark : TokenError}
    (hmark : why.mark? = some (index, mark)) : index < ((ofTokens tokens).run tray).seen := by
  have hback := looksBack_ofTokens tokens
  rcases run_error h with hsteps | ⟨hverdict, hseen⟩
  · obtain ⟨step, hstep, hfailure, hseen⟩ := runSteps_error hsteps
    show index < (runSteps _ _ [] tray).seen
    rw [hseen]
    exact hback.steps step hstep index (hfailure.index?_of_mark? hmark)
  · rw [hseen]
    exact hback.verdict why hverdict index mark hmark

/-! ## A token that cannot be read -/

/-- How reading ends at a token: in view of it, or in view of the next one,
which can be looked at or not. -/
theorem Halt.stops {scope : Scope} {frames : List Frame} {index : Nat} {mode : Mode} {token : Token}
    {rest : List Token} {program : Program}
    (h : Halt scope frames index mode (token :: rest) program) :
    program.seen = index ∨ (program.seen = index + 1 ∧ obstacle? rest = none) ∨
      ∃ e steps, obstacle? rest = some e ∧ program = (stop e (index + 1)).after steps ∧
        ∀ step ∈ steps, step.seen = index := by
  have hsteps : ∀ row, ∀ step ∈ Frame.steps index row, step.seen = index :=
    fun _ _ => Frame.seen_of_mem_steps
  cases h with
  | tooDeep _ => exact .inl rfl
  | unreadable _ _ => exact .inl rfl
  | misplacedNumber _ => exact .inl rfl
  | outside _ _ _ _ => exact .inl rfl
  | closed _ _ _ => exact .inl rfl
  | misplacedOperator _ _ _ hrest => exact .inr (.inl ⟨rfl, hrest⟩)
  | blocked _ _ hrest => exact .inr (.inr ⟨_, [], hrest, rfl, List.forall_mem_nil _⟩)
  | blockedOperator _ _ _ hrest => exact .inr (.inr ⟨_, _, hrest, rfl, hsteps _⟩)
  | blockedClosing _ _ _ hrest => exact .inr (.inr ⟨_, _, hrest, rfl, hsteps _⟩)

/-- A program that ends before the token at `limit` is looked at, or else
because of an error there and with no step in view of it. -/
def StoppedBy (e : EvalError) (limit : Nat) (p : Program) : Prop :=
  p.seen < limit ∨ ∃ steps, p = (stop e limit).after steps ∧ ∀ step ∈ steps, step.seen < limit

theorem StoppedBy.after {e : EvalError} {limit : Nat} {p : Program} (h : p.StoppedBy e limit)
    {steps : List Step} (hsteps : ∀ step ∈ steps, step.seen < limit) :
    (p.after steps).StoppedBy e limit := by
  rcases h with hseen | ⟨steps', rfl, hsteps'⟩
  · exact .inl hseen
  · exact .inr ⟨steps ++ steps', after_after _ _ _, List.forall_mem_append.2 ⟨hsteps, hsteps'⟩⟩

theorem Halt.stoppedBy {scope : Scope} {frames : List Frame} {index : Nat} {mode : Mode}
    {first token : Token} {common rest : List Token} {program : Program} {e : EvalError}
    (h : Halt scope frames index mode (first :: (common ++ token :: rest)) program)
    (hsymbol : token.symbol = .error e) : program.StoppedBy e (index + 1 + common.length) := by
  cases common with
  | nil =>
    have hobstacle : obstacle? ([] ++ token :: rest) = some e := by
      simp only [List.nil_append, obstacle?, hsymbol]
    rcases h.stops with hseen | ⟨-, hrest⟩ | ⟨e', steps, hrest, hprogram, hsteps⟩
    · exact .inl (hseen ▸ Nat.lt_succ_self index)
    · rw [hobstacle] at hrest
      cases hrest
    · rw [hobstacle] at hrest
      cases hrest
      refine .inr ⟨steps, hprogram, ?_⟩
      intro step hstep
      rw [hsteps step hstep]
      exact Nat.lt_succ_self index
  | cons second common =>
    -- Reading ends in view of the next token at the latest.
    have hseen : program.seen ≤ index + 1 := by
      rcases h.stops with hseen | ⟨hseen, -⟩ | ⟨_, _, -, rfl, -⟩
      · exact Nat.le_succ_of_le (Nat.le_of_eq hseen)
      · exact Nat.le_of_eq hseen
      · exact Nat.le_refl _
    exact .inl (Nat.lt_of_le_of_lt hseen (Nat.lt_add_of_pos_right (Nat.succ_pos _)))

/-- **Reading stops at a token that cannot be read**, if it has not ended before. -/
theorem read_unreadable {scope : Scope} {token : Token} {e : EvalError}
    (hsymbol : token.symbol = .error e) (rest common : List Token) {mode : Mode}
    {frames : List Frame} {index : Nat}
    (hadmits : common = [] → mode = .operand → scope.admits frames = true) :
    (read scope mode frames index (common ++ token :: rest)).StoppedBy e
      (index + common.length) := by
  induction common generalizing mode frames index with
  | nil =>
    exact .inr ⟨[], read_of_halt (.unreadable (hadmits rfl) hsymbol), List.forall_mem_nil _⟩
  | cons first common ih =>
    rw [List.length_cons, Nat.add_comm common.length, ← Nat.add_assoc]
    rcases read_cases scope mode frames index (first :: (common ++ token :: rest)) with
      hhalt | ⟨_, _, steps, mode', frames', htokens, hmove, hrest, hread⟩
    · exact hhalt.stoppedBy hsymbol
    · cases htokens
      -- The token is consumed, so the next one can be looked at.
      have hne : common ≠ [] := by
        rintro rfl
        simp [obstacle?, hsymbol] at hrest
      have hpos := List.length_pos_of_ne_nil hne
      rw [List.cons_append, hread]
      refine (ih fun hnil => absurd hnil hne).after ?_
      intro step hstep
      have := hmove.seen step hstep
      omega

/-- What a program does in view of tokens before `limit` it has in common with
one that agrees with it until there. -/
theorem AgreeBelow.steps_eq {limit : Nat} {p p' : Program} (h : AgreeBelow limit p p')
    (hbefore : ∀ step ∈ p'.steps, step.seen < limit) :
    ∃ behind, p.steps = p'.steps ++ behind ∧ ∀ step ∈ behind, limit ≤ step.seen := by
  induction h with
  | refl p => exact ⟨[], (List.append_nil _).symm, List.forall_mem_nil _⟩
  | @beyond p p' hbeyond hbeyond' =>
    have hnone : p'.steps = [] := List.eq_nil_iff_forall_not_mem.2 fun step hstep =>
      absurd (hbefore step hstep) (Nat.not_lt.2 (hbeyond'.steps step hstep))
    rw [hnone]
    exact ⟨p.steps, rfl, hbeyond.steps⟩
  | after steps _ ih =>
    obtain ⟨behind, hsteps, hbehind⟩ := ih fun step hstep =>
      hbefore step (List.mem_append_right _ hstep)
    refine ⟨behind, ?_, hbehind⟩
    rw [after_steps, after_steps, hsteps, List.append_assoc]

theorem AgreeBelow.le_seen {limit : Nat} {p p' : Program} (h : AgreeBelow limit p p')
    (hseen : limit ≤ p.seen) : limit ≤ p'.seen := by
  induction h with
  | refl p => exact hseen
  | beyond _ hbeyond => exact hbeyond.seen
  | after steps _ ih => exact ih hseen

/-- An error at a token that a program has looked at ends it there: it keeps the
steps it took before. -/
theorem ofTokens_unreadable {token : Token} {e : EvalError} (hsymbol : token.symbol = .error e)
    {common rest : List Token} (hseen : common.length ≤ (ofTokens (common ++ rest)).seen)
    (rest' : List Token) :
    ∃ before behind, ofTokens (common ++ token :: rest') = (stop e common.length).after before ∧
      (ofTokens (common ++ rest)).steps = before ++ behind ∧
      (∀ step ∈ before, step.seen < common.length) ∧
      ∀ step ∈ behind, common.length ≤ step.seen := by
  have hagree : AgreeBelow common.length (ofTokens (common ++ rest))
      (ofTokens (common ++ token :: rest')) := by
    have hagree := read_agree .whole common rest (token :: rest') .operand [] 0
    rwa [Nat.zero_add] at hagree
  have hstopped : (ofTokens (common ++ token :: rest')).StoppedBy e common.length := by
    have hstopped : (read .whole .operand [] 0 (common ++ token :: rest')).StoppedBy e
        (0 + common.length) := read_unreadable hsymbol rest' common fun _ _ => rfl
    rwa [Nat.zero_add] at hstopped
  rcases hstopped with hbefore | ⟨before, hprogram, hbefore⟩
  · exact absurd hbefore (Nat.not_lt.2 (hagree.le_seen hseen))
  · have hsteps : (ofTokens (common ++ token :: rest')).steps = before := by
      rw [hprogram, after_steps]
      exact List.append_nil before
    obtain ⟨behind, hsplit, hbehind⟩ := hagree.steps_eq (by rwa [hsteps])
    rw [hsteps] at hsplit
    exact ⟨before, behind, hprogram, hsplit, hbefore, hbehind⟩

/-! ## Running up to it -/

variable {σ : Type} [Roller σ]

theorem mem_extents {x : Extent} {steps : List Step} (h : x ∈ extents steps) :
    ∃ step ∈ steps, x.operandEnd = step.seen - 1 := by
  obtain ⟨step, hstep, hextent⟩ := List.mem_filterMap.1 h
  refine ⟨step, hstep, ?_⟩
  unfold Step.extent? at hextent
  split at hextent <;> cases hextent
  rfl

/-- The rolls of a run are taken in view of the tokens at which its steps are taken. -/
theorem exists_step_of_roll {seen : Nat} {steps : List Step} {stack : List Number} {tray : Tray σ}
    {event : RollEvent} (h : event ∈ (runSteps seen steps stack tray).rolls) :
    ∃ step ∈ steps, event.operandEnd = step.seen - 1 := by
  have hextents := (runSteps_extents seen steps stack tray).1
  exact mem_extents (hextents.subset (List.mem_map_of_mem (f := RollEvent.extent) h))

/-- A run that goes further than its first steps has taken them, and an error
after them is met then. -/
theorem runOn_cut {p : Program} {before : List Step} {limit : Nat} {stack : List Number}
    {tray : Tray σ} (hbefore : ∀ step ∈ before, step.seen < limit)
    (hseen : limit ≤ ((p.after before).runOn stack tray).seen) (e : EvalError) :
    ∃ stack' tray' kept, (p.after before).runOn stack tray = (p.runOn stack' tray').after kept ∧
      ((stop e limit).after before).runOn stack tray = ⟨.error e, kept, limit, tray'⟩ ∧
      ∀ event ∈ kept, ∃ step ∈ before, event.operandEnd = step.seen - 1 := by
  have hfailed : ∀ why, (runSteps 0 before stack tray).result = .error why →
      (runSteps 0 before stack tray).seen < limit := by
    intro why hwhy
    obtain ⟨step, hstep, -, hlast⟩ := runSteps_error hwhy
    rw [hlast]
    exact hbefore step hstep
  have hrolls : ∀ event ∈ (runSteps 0 before stack tray).rolls,
      ∃ step ∈ before, event.operandEnd = step.seen - 1 :=
    fun _ hevent => exists_step_of_roll hevent
  rw [runOn_after p before 0] at hseen ⊢
  rw [runOn_after (stop e limit) before 0]
  generalize runSteps 0 before stack tray = first at hfailed hrolls hseen ⊢
  obtain ⟨result, rolls, seen, tray'⟩ := first
  cases result with
  | error why => exact absurd (hfailed why rfl) (Nat.not_lt.2 hseen)
  | ok stack' =>
    refine ⟨stack', tray', rolls, rfl, ?_, hrolls⟩
    simp [Run.after, runOn, stop, conclude, Except.bind]

/-- **A run is cut off by an error at a token that it has looked at.** It fails there, having made
the rolls whose operands ended before that token was looked at. -/
theorem run_unreadable {token : Token} {e : EvalError} (hsymbol : token.symbol = .error e)
    {common rest : List Token} {tray : Tray σ}
    (hseen : common.length ≤ ((ofTokens (common ++ rest)).run tray).seen) (rest' : List Token) :
    let run := (ofTokens (common ++ rest)).run tray
    let run' := (ofTokens (common ++ token :: rest')).run tray
    run'.result = .error e ∧ ∃ later, run.rolls = run'.rolls ++ later ∧
      (∀ event ∈ run'.rolls, event.operandEnd + 1 < common.length) ∧
      ∀ event ∈ later, common.length ≤ event.operandEnd + 1 := by
  obtain ⟨before, behind, hprogram', hsteps, hbefore, hbehind⟩ :=
    ofTokens_unreadable hsymbol (Nat.le_trans hseen (runSteps_seen_le _ tray)) rest'
  have hordered := (run_ordered (common ++ rest) tray).1.nonempty
  rw [hprogram']
  -- The first run takes the steps of the second, and then others.
  obtain ⟨p, hbegun, hrest⟩ : ∃ p : Program,
      ofTokens (common ++ rest) = p.after before ∧ p.steps = behind :=
    ⟨⟨behind, (ofTokens (common ++ rest)).verdict, (ofTokens (common ++ rest)).seen⟩,
      by rw [after, ← hsteps], rfl⟩
  rw [hbegun] at hseen hordered ⊢
  obtain ⟨stack', tray', kept, hrun, hrun', hkept⟩ := runOn_cut hbefore hseen e
  rw [run, hrun, Run.after_rolls] at hordered
  rw [run, run, hrun, hrun']
  have hends : ∀ event ∈ kept, event.operator < event.operandEnd := fun event hevent =>
    hordered _ (List.mem_map_of_mem (List.mem_append_left _ hevent))
  refine ⟨rfl, _, rfl, ?_, ?_⟩
  · intro event hevent
    obtain ⟨step, hstep, hend⟩ := hkept event hevent
    have := hends event hevent
    have := hbefore step hstep
    omega
  · intro event hevent
    obtain ⟨step, hstep, hend⟩ := exists_step_of_roll hevent
    have := hbehind step (hrest ▸ hstep)
    omega

end Program

end DiceNotation
