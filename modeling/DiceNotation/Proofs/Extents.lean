import DiceNotation.Proofs.Reading
import DiceNotation.Proofs.Running

/-!
# DiceNotation.Proofs.Extents

Where rolls happen. The *extent* of a roll is the tokens from its dice operator to the last token of
its sides; what is rolled, and how many dice, has no part in it.

* `Program.extents`: the extents of the rolls that a row of steps asks for;
* `Program.runSteps_extents`: a run makes these rolls in this order, up to where it fails;
* `Extent.Precedes`: an extent comes before one that it is inside of, and before
  one that begins after it has ended;
* `Program.ordered_ofTokens`: the extents of an expression are ordered in this way.

The order is read off the frames. Dice that wait for their sides have been read before the token at
hand, and an inner one later than an outer one. Only dice can come to wait that are read now, and
dice get their sides from the inside out (`RollsAt`).
-/

namespace DiceNotation

/-! ## Extents -/

/-- The tokens of a roll, by the index of its dice operator and that of the last
token of its sides. -/
structure Extent where
  operator : Nat
  operandEnd : Nat
  deriving DecidableEq, Repr

/-- The extent of a roll that was made. -/
def RollEvent.extent (event : RollEvent) : Extent := ⟨event.operator, event.operandEnd⟩

/-- The extent of the roll that a step asks for, if it is the step of dice. -/
def Step.extent? (step : Step) : Option Extent :=
  match step.action with
  | .roll index => some ⟨index, step.seen - 1⟩
  | .push _ | .negate | .apply .. => none

namespace Program

/-- The extents of the rolls that a row of steps asks for. -/
def extents (steps : List Step) : List Extent := steps.filterMap Step.extent?

theorem extents_cons (step : Step) (steps : List Step) :
    extents (step :: steps) = step.extent?.toList ++ extents steps := by
  cases h : step.extent? <;> simp [extents, h]

@[simp] theorem extents_append (first second : List Step) :
    extents (first ++ second) = extents first ++ extents second :=
  List.filterMap_append

end Program

/-! ## Running -/

section

variable {σ : Type} [Roller σ]

/-- A step makes the roll that it asks for, or fails without a roll. -/
theorem Step.perform_extents (step : Step) (stack : List Number) (tray : Tray σ) :
    (step.perform stack tray).rolls.map RollEvent.extent = step.extent?.toList ∨
      (step.perform stack tray).rolls = [] ∧ ∃ e, (step.perform stack tray).result = .error e := by
  obtain ⟨action, seen⟩ := step
  cases action with
  | push x => exact .inl rfl
  | negate =>
    left
    rcases stack with _ | ⟨x, rest⟩ <;> rfl
  | apply op index =>
    left
    rcases stack with _ | ⟨right, _ | ⟨left, rest⟩⟩ <;> rfl
  | roll index =>
    rcases stack with _ | ⟨sides, _ | ⟨quantity, rest⟩⟩
    · exact .inr ⟨rfl, _, rfl⟩
    · exact .inr ⟨rfl, _, rfl⟩
    · rw [Step.perform_roll]
      rcases hroll : tray.roll quantity sides with ⟨result, tray'⟩
      cases result with
      | error e =>
        rw [Tray.rollAt_of_error hroll]
        exact .inr ⟨rfl, _, rfl⟩
      | ok faces =>
        rw [Tray.rollAt_of_ok hroll]
        exact .inl rfl

namespace Program

/-- **A run makes the rolls that its steps ask for**, in their order: all of
them if it succeeds, and the first of them if it fails. -/
theorem runSteps_extents (seen : Nat) (steps : List Step) (stack : List Number) (tray : Tray σ) :
    (runSteps seen steps stack tray).rolls.map RollEvent.extent <+: extents steps ∧
      ∀ stack', (runSteps seen steps stack tray).result = .ok stack' →
        (runSteps seen steps stack tray).rolls.map RollEvent.extent = extents steps := by
  induction steps generalizing stack tray with
  | nil => exact ⟨List.prefix_rfl, fun _ _ => rfl⟩
  | cons step steps ih =>
    have hstep := step.perform_extents stack tray
    rw [runSteps_cons, extents_cons]
    cases hresult : (step.perform stack tray).result with
    | error e =>
      refine ⟨?_, nofun⟩
      rcases hstep with hrolls | ⟨hnone, -⟩
      · show (step.perform stack tray).rolls.map RollEvent.extent <+: _
        rw [hrolls]
        exact List.prefix_append ..
      · show (step.perform stack tray).rolls.map RollEvent.extent <+: _
        rw [hnone]
        exact List.nil_prefix
    | ok stack' =>
      obtain ⟨hmade, hwhole⟩ := ih stack' (step.perform stack tray).tray
      rcases hstep with hrolls | ⟨-, e, herror⟩
      · simp only [Run.after_rolls, Run.after_result, List.map_append, hrolls]
        refine ⟨(List.prefix_append_right_inj _).2 hmade, fun stack'' h => ?_⟩
        rw [hwhole stack'' h]
      · rw [hresult] at herror
        cases herror

/-- The rolls of a program are those of its steps. -/
theorem run_extents (p : Program) (tray : Tray σ) :
    (p.run tray).rolls.map RollEvent.extent <+: extents p.steps ∧
      ∀ x, (p.run tray).result = .ok x →
        (p.run tray).rolls.map RollEvent.extent = extents p.steps := by
  obtain ⟨hmade, hwhole⟩ := runSteps_extents p.seen p.steps [] tray
  refine ⟨hmade, ?_⟩
  intro x hx
  obtain ⟨stack, hstack⟩ := runSteps_of_run_ok hx
  exact hwhole stack hstack

end Program

end

/-! ## Dice that wait -/

namespace Frame

/-- The dice operator of a frame, if it is one. -/
def dice? : Frame → Option Nat
  | .dice index => some index
  | .group _ | .product _ | .factor _ | .negation | .binary .. => none

/-- The dice operators that wait for their sides, the innermost first. -/
def waitingDice (frames : List Frame) : List Nat := frames.filterMap dice?

theorem waitingDice_released_append (power : Nat) (frames : List Frame) :
    waitingDice (released power frames) ++ waitingDice (held power frames) =
      waitingDice frames := by
  rw [waitingDice, waitingDice, ← List.filterMap_append, released_append_held, waitingDice]

theorem mem_waitingDice {index : Nat} {frames : List Frame} :
    index ∈ waitingDice frames ↔ Frame.dice index ∈ frames := by
  rw [waitingDice, List.mem_filterMap]
  constructor
  · rintro ⟨frame, hframe, hdice⟩
    cases frame with
    | dice index' => cases hdice; exact hframe
    | group _ | product _ | factor _ | negation | binary _ _ => cases hdice
  · exact fun h => ⟨_, h, rfl⟩

/-- The rolls of frames are those of the dice among them. -/
theorem extents_steps (seen : Nat) (frames : List Frame) :
    Program.extents (steps seen frames) = (waitingDice frames).map (⟨·, seen - 1⟩) := by
  induction frames with
  | nil => rfl
  | cons frame frames ih =>
    cases frame with
    | group index | product index => exact ih
    | factor index | negation | binary op index => exact ih
    | dice index => exact congrArg (⟨index, seen - 1⟩ :: ·) ih

theorem waitingDice_close {frames outer : List Frame} (h : close? frames = some outer) :
    waitingDice outer = waitingDice frames := by
  unfold close? at h
  split at h <;> cases h <;> rfl

end Frame

/-- The rolls that are made when the token at `index` is looked at, and the dice that wait on: none
roll, or those that get their operand there. -/
inductive RollsAt (frames : List Frame) (index : Nat) (tokens : List Token) :
    Mode → List Extent → List Nat → Prop
  | none {mode} : RollsAt frames index tokens mode [] (Frame.waitingDice frames)
  | released {power} : nextPower? tokens = some power →
      RollsAt frames index tokens .operator
        ((Frame.waitingDice (Frame.released power frames)).map (⟨·, index - 1⟩))
        (Frame.waitingDice (Frame.held power frames))

namespace Program

theorem nextPower?_of_continuing {token : Token} {op : Operator} {index power : Nat} {frame : Frame}
    (hsymbol : token.symbol = .ok (.operator op)) (hop : op.continuing? index = some (power, frame))
    (rest : List Token) : nextPower? (token :: rest) = some power := by
  simp only [nextPower?, hsymbol, ← Operator.continuing?_power op index, hop]
  rfl

theorem nextPower?_of_closing {token : Token} {op : Operator} {index : Nat}
    (hsymbol : token.symbol = .ok (.operator op)) (hop : op.continuing? index = none)
    (rest : List Token) : nextPower? (token :: rest) = some 0 := by
  simp only [nextPower?, hsymbol, ← Operator.continuing?_power op index, hop]
  rfl

/-- The steps that are taken where reading ends are those of the frames that get their operand. -/
theorem Halt.steps_cases {scope : Scope} {frames : List Frame} {index : Nat} {mode : Mode}
    {tokens : List Token} {program : Program} (h : Halt scope frames index mode tokens program) :
    program.steps = [] ∨ mode = .operator ∧ ∃ power, nextPower? tokens = some power ∧
      program.steps = Frame.steps index (Frame.released power frames) := by
  have hstop : ∀ e seen (steps : List Step), ((stop e seen).after steps).steps = steps :=
    fun _ _ _ => List.append_nil _
  have hfinish : ∀ seen (steps : List Step), ((finish seen).after steps).steps = steps :=
    fun _ _ => List.append_nil _
  cases h with
  | tooDeep _ => exact .inl rfl
  | lacking _ => exact .inl rfl
  | unreadable _ _ => exact .inl rfl
  | blocked _ _ _ => exact .inl rfl
  | misplacedOperator _ _ _ _ => exact .inl rfl
  | misplacedNumber _ => exact .inl rfl
  | unclosed _ => exact .inr ⟨rfl, 0, rfl, hstop ..⟩
  | complete _ => exact .inr ⟨rfl, 0, rfl, hfinish ..⟩
  | outside hsymbol hop _ _ =>
    exact .inr ⟨rfl, _, nextPower?_of_continuing hsymbol hop _, hfinish ..⟩
  | blockedOperator hsymbol hop _ _ =>
    exact .inr ⟨rfl, _, nextPower?_of_continuing hsymbol hop _, hstop ..⟩
  | closed hsymbol hop _ => exact .inr ⟨rfl, 0, nextPower?_of_closing hsymbol hop _, hfinish ..⟩
  | blockedClosing hsymbol hop _ _ =>
    exact .inr ⟨rfl, 0, nextPower?_of_closing hsymbol hop _, hstop ..⟩

theorem Halt.rollsAt {scope : Scope} {frames : List Frame} {index : Nat} {mode : Mode}
    {tokens : List Token} {program : Program} (h : Halt scope frames index mode tokens program) :
    ∃ held, RollsAt frames index tokens mode (extents program.steps) held := by
  rcases h.steps_cases with hsteps | ⟨rfl, power, hnext, hsteps⟩
  · rw [hsteps]
    exact ⟨_, .none⟩
  · rw [hsteps, Frame.extents_steps]
    exact ⟨_, .released hnext⟩

/-- **What a token does to the dice that wait**: some may roll, those that wait on still wait, and
the token itself may come to wait as the innermost, for an operand that begins after it. -/
theorem Move.rollsAt {scope : Scope} {frames frames' : List Frame} {index : Nat} {token : Token}
    {mode mode' : Mode} {steps : List Step}
    (h : Move scope frames index token mode steps mode' frames') (rest : List Token) :
    ∃ held, RollsAt frames index (token :: rest) mode (extents steps) held ∧
      (Frame.waitingDice frames' = held ∨
        mode' = .operand ∧ Frame.waitingDice frames' = index :: held) := by
  cases h with
  | number _ _ => exact ⟨_, .none, .inl rfl⟩
  | @opening op actions frame _ _ hop =>
    refine ⟨Frame.waitingDice frames, ?_, ?_⟩
    · have hnone : extents (actions.map (⟨·, index + 1⟩)) = [] := by
        cases op <;> cases hop <;> rfl
      rw [hnone]
      exact .none
    · cases op with
      | dice upper => cases hop; exact .inr ⟨rfl, rfl⟩
      | sub | leftParen => cases hop; exact .inl rfl
      | _ => cases hop
  | @continuing op power frame hsymbol hop _ =>
    refine ⟨Frame.waitingDice (Frame.held power frames), ?_, ?_⟩
    · rw [Frame.extents_steps]
      exact .released (nextPower?_of_continuing hsymbol hop rest)
    · cases op with
      | dice upper => cases hop; exact .inr ⟨rfl, rfl⟩
      | rightParen => cases hop
      | _ => cases hop; exact .inl rfl
  | closing hsymbol hop hclose =>
    refine ⟨Frame.waitingDice (Frame.held 0 frames), ?_, .inl (Frame.waitingDice_close hclose)⟩
    rw [Frame.extents_steps]
    exact .released (nextPower?_of_closing hsymbol hop rest)

end Program

/-! ## The order of rolls -/

namespace Extent

/-- Whether a roll is part of the sides of another. -/
def Inside (x y : Extent) : Prop := y.operator < x.operator ∧ x.operandEnd ≤ y.operandEnd

/-- Whether a roll has ended when another begins. -/
def Before (x y : Extent) : Prop := x.operandEnd < y.operator

/-- What a roll is to one that is made later. -/
structure Precedes (x y : Extent) : Prop where
  operandEnd_le : x.operandEnd ≤ y.operandEnd
  apart : x.Inside y ∨ x.Before y

end Extent

/-- The dice that can wait when a token is looked at. An operand that is complete has a token of its
own. -/
structure Waiting (mode : Mode) (index : Nat) (dice : List Nat) : Prop where
  inner : dice.Pairwise (· > ·)
  read : ∀ i ∈ dice, i < index ∧ (mode = .operator → i + 1 < index)

/-- The extents of the rolls that are made from a token on, some dice waiting for their sides. -/
structure Ordered (dice : List Nat) (index : Nat) (extents : List Extent) : Prop where
  precedes : extents.Pairwise Extent.Precedes
  nonempty : ∀ x ∈ extents, x.operator < x.operandEnd
  ends : ∀ x ∈ extents, index ≤ x.operandEnd + 1
  begins : ∀ x ∈ extents, x.operator ∈ dice ∨ index ≤ x.operator

theorem ordered_nil (dice : List Nat) (index : Nat) : Ordered dice index [] :=
  ⟨.nil, nofun, nofun, nofun⟩

/-- Dice that wait on have waited before. -/
theorem RollsAt.held_suffix {frames : List Frame} {index : Nat} {tokens : List Token} {mode : Mode}
    {extents : List Extent} {held : List Nat} (h : RollsAt frames index tokens mode extents held) :
    held <:+ Frame.waitingDice frames := by
  cases h with
  | none => exact List.suffix_rfl
  | @released power _ =>
    rw [← Frame.waitingDice_released_append power frames]
    exact List.suffix_append ..

/-- Dice that get their sides at one token, the innermost first, have rolls in that order. -/
theorem ordered_ended {ended dice : List Nat} {index : Nat} (hinner : ended.Pairwise (· > ·))
    (hread : ∀ i ∈ ended, i + 1 < index) (hdice : ∀ i ∈ ended, i ∈ dice) :
    Ordered dice index (ended.map (⟨·, index - 1⟩)) := by
  have hall : ∀ {P : Extent → Prop}, (∀ i ∈ ended, P ⟨i, index - 1⟩) →
      ∀ x ∈ ended.map (Extent.mk · (index - 1)), P x := by
    intro P h x hx
    obtain ⟨i, hi, rfl⟩ := List.mem_map.1 hx
    exact h i hi
  refine ⟨?_, hall fun i hi => ?_, hall fun i hi => ?_, hall fun i hi => .inl (hdice i hi)⟩
  · rw [List.pairwise_map]
    exact hinner.imp fun hlt => ⟨Nat.le_refl _, .inl ⟨hlt, Nat.le_refl _⟩⟩
  · have := hread i hi
    show i < index - 1
    omega
  · show index ≤ index - 1 + 1
    omega

/-- A roll that ends before `index` comes before one that ends later and was
begun by dice around it, or from `index` on. -/
theorem precedes_later {i index : Nat} {later : Extent} (hread : i + 1 < index)
    (hend : index ≤ later.operandEnd) (hbegins : later.operator < i ∨ index ≤ later.operator) :
    Extent.Precedes ⟨i, index - 1⟩ later := by
  have hle : index - 1 ≤ later.operandEnd := Nat.le_trans (Nat.sub_le ..) hend
  rcases hbegins with hout | hnew
  · exact ⟨hle, .inl ⟨hout, hle⟩⟩
  · refine ⟨hle, .inr ?_⟩
    show index - 1 < later.operator
    omega

/-- Rolls that come before all of some others are ordered together with them. -/
theorem Ordered.append {dice : List Nat} {index : Nat} {first later : List Extent}
    (hfirst : Ordered dice index first) (hlater : Ordered dice index later)
    (hprecede : ∀ x ∈ first, ∀ y ∈ later, x.Precedes y) : Ordered dice index (first ++ later) where
  precedes := List.pairwise_append.2 ⟨hfirst.precedes, hlater.precedes, hprecede⟩
  nonempty := List.forall_mem_append.2 ⟨hfirst.nonempty, hlater.nonempty⟩
  ends := List.forall_mem_append.2 ⟨hfirst.ends, hlater.ends⟩
  begins := List.forall_mem_append.2 ⟨hfirst.begins, hlater.begins⟩

/-- The rolls at a token come before all that are made later. -/
theorem RollsAt.ordered {frames : List Frame} {index : Nat} {tokens : List Token} {mode : Mode}
    {extents : List Extent} {held : List Nat} (h : RollsAt frames index tokens mode extents held)
    (hwaiting : Waiting mode index (Frame.waitingDice frames)) {dice : List Nat}
    {later : List Extent} (hdice : ∀ i ∈ dice, i ∈ held ∨ i = index)
    (hlater : Ordered dice (index + 1) later) :
    Ordered (Frame.waitingDice frames) index (extents ++ later) := by
  have hends : ∀ x ∈ later, index ≤ x.operandEnd := fun x hx =>
    Nat.le_of_succ_le_succ (hlater.ends x hx)
  have hbegins : ∀ x ∈ later, x.operator ∈ held ∨ index ≤ x.operator := by
    intro x hx
    rcases hlater.begins x hx with hmem | hle
    · exact (hdice _ hmem).imp_right fun heq => Nat.le_of_eq heq.symm
    · exact .inr (Nat.le_of_succ_le hle)
  have hrest : Ordered (Frame.waitingDice frames) index later :=
    ⟨hlater.precedes, hlater.nonempty, fun x hx => Nat.le_succ_of_le (hends x hx),
      fun x hx => (hbegins x hx).imp_left fun hmem => h.held_suffix.subset hmem⟩
  cases h with
  | none => exact hrest
  | @released power hnext =>
    have hsplit := Frame.waitingDice_released_append power frames
    generalize Frame.waitingDice (Frame.released power frames) = ended at hsplit ⊢
    have hmem : ∀ i ∈ ended, i ∈ Frame.waitingDice frames := fun i hi => by
      rw [← hsplit]
      exact List.mem_append_left _ hi
    have hread : ∀ i ∈ ended, i + 1 < index := fun i hi => (hwaiting.read i (hmem i hi)).2 rfl
    obtain ⟨hinner, -, hcross⟩ := List.pairwise_append.1 (hsplit ▸ hwaiting.inner)
    apply (ordered_ended hinner hread hmem).append hrest
    intro x hx y hy
    obtain ⟨i, hi, rfl⟩ := List.mem_map.1 hx
    -- The dice of a later roll wait around those that have ended, or have not been read.
    exact precedes_later (hread i hi) (hends y hy) ((hbegins y hy).imp_left (hcross i hi _))

namespace Program

theorem Move.waiting {scope : Scope} {frames frames' : List Frame} {index : Nat} {token : Token}
    {mode mode' : Mode} {steps : List Step}
    (h : Move scope frames index token mode steps mode' frames')
    (hwaiting : Waiting mode index (Frame.waitingDice frames)) :
    Waiting mode' (index + 1) (Frame.waitingDice frames') := by
  obtain ⟨held, hrolls, hframes⟩ := h.rollsAt []
  have hbefore : ∀ i ∈ held, i < index := fun i hi =>
    (hwaiting.read i (hrolls.held_suffix.subset hi)).1
  have hinner : held.Pairwise (· > ·) := hwaiting.inner.sublist hrolls.held_suffix.sublist
  rcases hframes with hsame | ⟨hmode, hnew⟩
  · rw [hsame]
    refine ⟨hinner, ?_⟩
    intro i hi
    have := hbefore i hi
    exact ⟨by omega, fun _ => by omega⟩
  · rw [hnew]
    refine ⟨List.pairwise_cons.2 ⟨hbefore, hinner⟩, ?_⟩
    intro i hi
    rcases List.mem_cons.1 hi with rfl | hi
    · exact ⟨Nat.lt_succ_self _, fun h => by rw [hmode] at h; cases h⟩
    · have := hbefore i hi
      exact ⟨by omega, fun _ => by omega⟩

/-- **The rolls of an expression go from the inside out and from left to right.** -/
theorem ordered_ofTokens (tokens : List Token) :
    Ordered [] 0 (extents (ofTokens tokens).steps) := by
  refine read_induct .whole
    (P := fun mode frames index _ program => Waiting mode index (Frame.waitingDice frames) →
      Ordered (Frame.waitingDice frames) index (extents program.steps))
    ?_ ?_ tokens .operand [] 0 ⟨.nil, nofun⟩
  · intro mode frames index tokens program hhalt hwaiting
    obtain ⟨held, hrolls⟩ := hhalt.rollsAt
    have hend := hrolls.ordered hwaiting (fun i hi => .inl hi) (ordered_nil held (index + 1))
    rwa [List.append_nil] at hend
  · intro mode frames index token rest steps mode' frames' program hmove _ ih hwaiting
    obtain ⟨held, hrolls, hframes⟩ := hmove.rollsAt rest
    have hdice : ∀ i ∈ Frame.waitingDice frames', i ∈ held ∨ i = index := by
      intro i hi
      rcases hframes with hsame | ⟨-, hnew⟩
      · exact .inl (hsame ▸ hi)
      · rw [hnew] at hi
        exact (List.mem_cons.1 hi).symm
    rw [after_steps, extents_append]
    exact hrolls.ordered hwaiting hdice (ih (hmove.waiting hwaiting))

end Program

end DiceNotation
