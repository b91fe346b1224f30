import DiceNotation.Proofs.Extents
import DiceNotation.Proofs.Finiteness

/-!
# DiceNotation.Proofs.Quantities

What dice find on the stack. A roll takes the sides from the top of it and the quantity from below
them, where it was put before the sides were read. Dice without a quantity put a one there
themselves, and it is still there when they get their sides.

Every number below the operand being read waits for a frame (`Frame.Found`), and
steps take no more from the stack than they need (`Step.perform_below`), so what
has been put there for a frame stays until that frame gets its operand.

* `Program.exists_of_mem_rolls`: every roll of a run was made by a step that found its operands;
* `Program.Quantified`: where a run comes to dice without a quantity, their quantity is one;
* `Program.quantified_ofTokens`: so it is in every expression.
-/

namespace DiceNotation

variable {σ : Type} [Roller σ]

/-! ## Steps -/

omit [Roller σ] in
theorem eq_of_finite {x : Number} {rest stack : List Number}
    (h : (finite x).map (· :: rest) = .ok stack) : stack = x :: rest := by
  unfold finite at h
  split at h <;> cases h
  rfl

/-- **A step takes its operands from the top of the stack** and leaves one number there. -/
theorem Step.perform_below {step : Step} {top : List Number} (htop : top.length = step.action.arity)
    {below stack : List Number} {tray : Tray σ}
    (h : (step.perform (top ++ below) tray).result = .ok stack) :
    ∃ x, stack = x :: below ∧ ∀ y, step.action = .push y → x = y := by
  obtain ⟨action, seen⟩ := step
  cases action with
  | push x =>
    obtain rfl := List.length_eq_zero_iff.1 htop
    exact ⟨x, eq_of_finite h, fun y hy => Action.push.inj hy⟩
  | negate =>
    obtain ⟨x, rfl⟩ := List.length_eq_one_iff.1 htop
    exact ⟨-x, eq_of_finite h, nofun⟩
  | apply op index =>
    obtain ⟨right, left, rfl⟩ := List.length_eq_two.1 htop
    replace h : ((op.apply index left right).bind finite).map (· :: below) = .ok stack := h
    cases hvalue : op.apply index left right with
    | error e =>
      rw [hvalue] at h
      cases h
    | ok x =>
      rw [hvalue] at h
      exact ⟨x, eq_of_finite h, nofun⟩
  | roll index =>
    obtain ⟨sides, quantity, rfl⟩ := List.length_eq_two.1 htop
    replace h : (Step.perform ⟨.roll index, seen⟩ (sides :: quantity :: below) tray).result =
      .ok stack := h
    rw [Step.perform_roll] at h
    rcases hroll : tray.roll quantity sides with ⟨result, tray'⟩
    cases result with
    | error e =>
      rw [Tray.rollAt_of_error hroll] at h
      cases h
    | ok faces =>
      rw [Tray.rollAt_of_ok hroll] at h
      exact ⟨_, eq_of_finite h, nofun⟩

/-- The step of dice that made a roll, after some other steps: the operands that it found on top of
the stack, the request that was granted, and what it left. -/
structure RollEvent.MadeBy (event : RollEvent) (step : Step) (before : Run σ (List Number))
    (quantity sides : Number) (below : List Number) : Prop where
  action : step.action = .roll event.operator
  operands : before.result = .ok (sides :: quantity :: below)
  granted : (before.tray.roll quantity sides).1 = .ok event.record.faces
  recorded : event.record.sides = sides
  value : (step.perform (sides :: quantity :: below) before.tray).result =
    (finite event.record.sum).map (· :: below)

namespace Program

/-- **Every roll of a run was made by a step** that found its operands on the stack. -/
theorem exists_of_mem_rolls {seen : Nat} {steps : List Step} {stack : List Number} {tray : Tray σ}
    {event : RollEvent} (h : event ∈ (runSteps seen steps stack tray).rolls) :
    ∃ taken step quantity sides below, taken ++ [step] <+: steps ∧
      event.MadeBy step (runSteps seen taken stack tray) quantity sides below := by
  induction steps generalizing stack tray with
  | nil => cases h
  | cons step steps ih =>
    -- A roll that is made later was made in the run from here on.
    have hlater : ∀ {stack' : List Number} {tray' : Tray σ} {rolls : List RollEvent},
        step.perform stack tray = ⟨.ok stack', rolls, step.seen, tray'⟩ →
        event ∈ (runSteps seen steps stack' tray').rolls →
        ∃ taken last quantity sides below, taken ++ [last] <+: step :: steps ∧
          event.MadeBy last (runSteps seen taken stack tray) quantity sides below := by
      intro stack' tray' rolls hstep hmem
      obtain ⟨taken, last, quantity, sides, below, hprefix, hmade⟩ := ih hmem
      refine ⟨step :: taken, last, quantity, sides, below,
        (List.prefix_cons_inj step).2 hprefix, ?_⟩
      rw [runSteps_cons_eq_bind, hstep, Run.bind_ok]
      exact ⟨hmade.action, hmade.operands, hmade.granted, hmade.recorded, hmade.value⟩
    rw [runSteps_cons_eq_bind] at h
    rcases step.perform_cases stack with ⟨result, -, hcalc⟩ |
      ⟨index, quantity, sides, below, haction, rfl, hroll⟩
    · rw [hcalc tray] at h
      cases result with
      | error e => cases h
      | ok stack' => exact hlater (hcalc tray) h
    · rcases hgranted : tray.roll quantity sides with ⟨result, tray'⟩
      cases result with
      | error e =>
        rw [hroll tray, Tray.rollAt_of_error hgranted] at h
        cases h
      | ok faces =>
        have hstep := hroll tray
        rw [Tray.rollAt_of_ok hgranted] at hstep
        have hhere : event = ⟨index, step.seen - 1, ⟨sides, faces⟩⟩ →
            ∃ taken last quantity' sides' below', taken ++ [last] <+: step :: steps ∧
              event.MadeBy last (runSteps seen taken (sides :: quantity :: below) tray) quantity'
                sides' below' := by
          rintro rfl
          refine ⟨[], step, quantity, sides, below, List.prefix_append [step] steps, haction, rfl,
            ?_, rfl, ?_⟩
          · exact congrArg Prod.fst hgranted
          · exact congrArg Run.result hstep
        rw [hstep] at h
        cases hsum : finite (RollRecord.sum ⟨sides, faces⟩) with
        | error e =>
          rw [hsum] at h
          exact hhere (List.mem_singleton.1 h)
        | ok sum =>
          rw [hsum] at h hstep
          rcases List.mem_cons.1 h with hfirst | hrest
          · exact hhere hfirst
          · exact hlater hstep hrest

end Program

/-! ## What waits for a frame -/

/-- Whether a token has no operand before it: it is the first one, or no operand
can end with the one before it. -/
def Prefixed (tokens : List Token) (index : Nat) : Prop :=
  index = 0 ∨ tokens[index - 1]?.any (·.value.endsOperand) = false

/-- The numbers that wait for a frame are as many as it needs. Dice without a
quantity have a one. -/
structure Frame.Finds (tokens : List Token) (frame : Frame) (found : List Number) : Prop where
  length : found.length = frame.waiting
  quantity : ∀ index, frame = .dice index → Prefixed tokens index → found = [.int 1]

/-- A stack of the numbers that wait for a row of frames, those for the innermost on top. -/
inductive Frame.Found (tokens : List Token) : List Frame → List Number → Prop
  | nil : Found tokens [] []
  | cons {frame : Frame} {frames : List Frame} {found stack : List Number} :
      frame.Finds tokens found → Found tokens frames stack →
      Found tokens (frame :: frames) (found ++ stack)

/-- The stack in a mode of the reader: a complete operand is on top of it. -/
def Mode.Found (tokens : List Token) (frames : List Frame) : Mode → List Number → Prop
  | .operand, stack => Frame.Found tokens frames stack
  | .operator, stack => ∃ operand below, stack = operand :: below ∧ Frame.Found tokens frames below

/-- The product with a group finds what the group would. -/
theorem Frame.Found.close {tokens : List Token} {frames outer : List Frame} {stack : List Number}
    (h : Found tokens frames stack) (hclose : close? frames = some outer) :
    Found tokens outer stack := by
  unfold close? at hclose
  split at hclose <;> cases hclose
  · cases h with
    | cons hfinds hframes => rwa [List.length_eq_zero_iff.1 hfinds.length]
  · cases h with
    | cons hfinds hframes => exact .cons ⟨hfinds.length, nofun⟩ hframes

/-- What a frame that yields does with its operand. -/
theorem Frame.action?_of_yields {frame : Frame} {power : Nat} (h : frame.yields power = true) :
    ∃ action, frame.action? = some action ∧ action.arity = frame.waiting + 1 ∧
      ∀ index, action = .roll index → frame = .dice index := by
  cases frame with
  | group index | product index => cases h
  | dice index =>
    refine ⟨_, rfl, rfl, ?_⟩
    rintro _ ⟨⟩
    rfl
  | factor index | negation | binary op index => exact ⟨_, rfl, rfl, nofun⟩

/-! ## Dice without a quantity -/

namespace Program

variable {tokens : List Token}

/-- Where a run of some steps comes to dice without a quantity, there is a one below the sides. -/
def Quantified (σ : Type) [Roller σ] (tokens : List Token) : List Step → List Number → Prop
  | [], _ => True
  | step :: steps, stack =>
    (∀ index, step.action = .roll index → Prefixed tokens index → stack[1]? = some (.int 1)) ∧
      ∀ (tray : Tray σ) stack', (step.perform stack tray).result = .ok stack' →
        Quantified σ tokens steps stack'

/-- Frames that get their operand find what waits for them, and the rest of the
steps find what waits for the other frames. -/
theorem quantified_released {frames : List Frame} {below : List Number}
    (hfound : Frame.Found tokens frames below) (seen power : Nat) {more : List Step}
    (hmore : ∀ operand below, Frame.Found tokens (Frame.held power frames) below →
      Quantified σ tokens more (operand :: below)) (operand : Number) :
    Quantified σ tokens (Frame.steps seen (Frame.released power frames) ++ more)
      (operand :: below) := by
  induction hfound generalizing operand with
  | nil => exact hmore operand [] .nil
  | @cons frame frames found below hfinds hframes ih =>
    by_cases hyields : frame.yields power = true
    · obtain ⟨action, haction, harity, hdice⟩ := Frame.action?_of_yields hyields
      have hsteps : Frame.steps seen (Frame.released power (frame :: frames)) ++ more =
          ⟨action, seen⟩ :: (Frame.steps seen (Frame.released power frames) ++ more) := by
        rw [Frame.released_cons hyields, Frame.steps, List.filterMap_cons, haction]
        rfl
      rw [Frame.held_cons hyields] at hmore
      rw [hsteps]
      constructor
      · intro index hroll hprefixed
        rw [hfinds.quantity index (hdice index hroll) hprefixed]
        rfl
      · intro tray stack' hstep
        have htop : (operand :: found).length = action.arity := by
          rw [List.length_cons, hfinds.length, harity]
        rw [← List.cons_append] at hstep
        obtain ⟨x, rfl, -⟩ := Step.perform_below htop hstep
        exact ih hmore x
    · have hreleased : Frame.released power (frame :: frames) = [] :=
        List.takeWhile_cons_of_neg hyields
      have hheld : Frame.held power (frame :: frames) = frame :: frames :=
        List.dropWhile_cons_of_neg hyields
      rw [hreleased]
      refine hmore operand _ ?_
      rw [hheld]
      exact .cons hfinds hframes

/-- A token that is consumed leaves on the stack what the frames after it need, if what remains is
read from there. -/
theorem Move.quantified {scope : Scope} {frames frames' : List Frame} {index : Nat} {token : Token}
    {mode mode' : Mode} {steps more : List Step} {stack : List Number}
    (h : Move scope frames index token mode steps mode' frames')
    (hmode : mode = .operator → ¬ Prefixed tokens index) (hfound : mode.Found tokens frames stack)
    (hmore : ∀ stack', mode'.Found tokens frames' stack' → Quantified σ tokens more stack') :
    Quantified σ tokens (steps ++ more) stack := by
  cases h with
  | number _ _ =>
    refine ⟨nofun, ?_⟩
    intro tray stack' hstep
    rw [← List.nil_append stack] at hstep
    obtain ⟨x, rfl, -⟩ := Step.perform_below rfl hstep
    exact hmore _ ⟨x, stack, rfl, hfound⟩
  | @opening op actions frame _ _ hop =>
    cases op with
    | sub =>
      cases hop
      have hfinds : Frame.negation.Finds tokens [] := ⟨rfl, nofun⟩
      exact hmore stack (.cons hfinds hfound)
    | leftParen =>
      cases hop
      have hfinds : (Frame.group index).Finds tokens [] := ⟨rfl, nofun⟩
      exact hmore stack (.cons hfinds hfound)
    | dice upper =>
      -- The quantity is put where the roll will find it.
      cases hop
      refine ⟨nofun, ?_⟩
      intro tray stack' hstep
      rw [← List.nil_append stack] at hstep
      obtain ⟨x, rfl, hone⟩ := Step.perform_below rfl hstep
      obtain rfl := hone _ rfl
      exact hmore _ (.cons ⟨rfl, fun _ _ _ => rfl⟩ hfound)
    | _ => cases hop
  | @continuing op power frame _ hop _ =>
    obtain ⟨operand, below, rfl, hbelow⟩ := hfound
    refine quantified_released hbelow index power ?_ operand
    intro left below' hheld
    have hfinds : frame.Finds tokens [left] := by
      refine ⟨?_, ?_⟩
      · cases op <;> cases hop <;> rfl
      · -- What continues an operand has one before it.
        rintro index' rfl hprefixed
        obtain rfl : index = index' := by
          cases op <;> cases hop
          rfl
        exact absurd hprefixed (hmode rfl)
    exact hmore _ (.cons hfinds hheld)
  | @closing op outer _ _ hclose =>
    obtain ⟨operand, below, rfl, hbelow⟩ := hfound
    refine quantified_released hbelow index 0 ?_ operand
    intro value below' hheld
    exact hmore _ ⟨value, below', rfl, hheld.close hclose⟩

/-- What is read, from a place where the stack has what the frames need. -/
theorem quantified_read (scope : Scope) (rest : List Token) (mode : Mode) (frames : List Frame)
    (index : Nat) (hrest : tokens.drop index = rest)
    (hmode : mode = .operator → ¬ Prefixed tokens index) {stack : List Number}
    (hfound : mode.Found tokens frames stack) :
    Quantified σ tokens (read scope mode frames index rest).steps stack := by
  refine read_induct scope (P := fun mode frames index rest program =>
    tokens.drop index = rest → (mode = .operator → ¬ Prefixed tokens index) →
      ∀ stack, mode.Found tokens frames stack → Quantified σ tokens program.steps stack)
    ?_ ?_ rest mode frames index hrest hmode stack hfound
  · intro mode frames index rest program hhalt _ _ stack hfound
    rcases hhalt.steps_cases with hsteps | ⟨rfl, power, -, hsteps⟩
    · rw [hsteps]
      trivial
    · obtain ⟨operand, below, rfl, hbelow⟩ := hfound
      have hnone : ∀ operand below, Frame.Found tokens (Frame.held power frames) below →
          Quantified σ tokens [] (operand :: below) := fun _ _ _ => trivial
      have hreleased := quantified_released hbelow index power hnone operand
      rwa [List.append_nil, ← hsteps] at hreleased
  · intro mode frames index token rest steps mode' frames' program hmove _ ih hrest hmode
      stack hfound
    have htoken : tokens[index]? = some token := by
      have := congrArg (·[0]?) hrest
      simpa using this
    have hrest' : tokens.drop (index + 1) = rest := by
      rw [← List.drop_drop, hrest, List.drop_one, List.tail_cons]
    have hmode' : mode' = .operator → ¬ Prefixed tokens (index + 1) := by
      intro hoperator hprefixed
      have hends := hmove.endsOperand_iff.2 hoperator
      rcases hprefixed with hzero | hnone
      · cases hzero
      · rw [Nat.add_sub_cancel, htoken, Option.any_some, hends] at hnone
        cases hnone
    exact hmove.quantified hmode hfound (ih hrest' hmode')

/-- **In an expression dice without a quantity find a one.** -/
theorem quantified_ofTokens (tokens : List Token) :
    Quantified σ tokens (ofTokens tokens).steps [] :=
  quantified_read .whole tokens .operand [] 0 rfl nofun .nil

/-- What the steps of a run find that takes them. -/
theorem Quantified.quantity_eq {steps taken : List Step} {stack below : List Number}
    (h : Quantified σ tokens steps stack) {step : Step} (htaken : taken ++ [step] <+: steps)
    {index : Nat} (hroll : step.action = .roll index) (hprefixed : Prefixed tokens index)
    {seen : Nat} {tray : Tray σ} {quantity sides : Number}
    (hresult : (runSteps seen taken stack tray).result = .ok (sides :: quantity :: below)) :
    quantity = .int 1 := by
  induction taken generalizing steps stack tray with
  | nil =>
    obtain ⟨more, rfl⟩ := htaken
    cases hresult
    exact Option.some.inj (h.1 index hroll hprefixed)
  | cons first taken ih =>
    obtain ⟨more, rfl⟩ := htaken
    rw [runSteps_cons_eq_bind] at hresult
    rcases hfirst : first.perform stack tray with ⟨result, rolls, seen', tray'⟩
    rw [hfirst] at hresult
    cases result with
    | error e => cases hresult
    | ok stack' =>
      exact ih (h.2 tray stack' (congrArg Run.result hfirst)) (List.prefix_append _ more) hresult

end Program

end DiceNotation
