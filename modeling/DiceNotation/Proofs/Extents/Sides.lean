import DiceNotation.Proofs.Extents
import DiceNotation.Proofs.Placement

/-!
# DiceNotation.Proofs.Extents.Sides

The extent of a roll ends with the sides of its dice.

What belongs to the sides is not for the dice around them to say, nor for a
waiting group or sign: the sides are what is read from the token after the dice
when it is read by itself, with the power of dice (`EndsOperand`).

* `Program.Move.inside`: a token inside the sides of waiting dice is read as it would be by itself;
* `Program.ReadAlone`: so the sides of all waiting dice have been read in this way;
* `Program.extents_placed`: when the dice get their operand the sides are complete by themselves,
  and the token before has been read as their last one.
-/

namespace DiceNotation

/-! ## Operands -/

/-- The operand of an operator with the given power that begins at `start`, read by itself, is
complete and ends with the token at `last`. -/
def EndsOperand (tokens : List Token) (power start last : Nat) : Prop :=
  let operand := Program.readOperand ⟨power, 0⟩ [] start (tokens.drop start)
  operand.verdict = .ok () ∧ operand.seen = last + 1

/-- The scope of the sides of dice that stand by themselves. -/
def Scope.sides : Scope := ⟨dicePower, 0⟩

/-- An extent as it lies in an expression: from dice to the end of their sides. -/
structure Extent.Placed (tokens : List Token) (x : Extent) : Prop where
  dice : ReadsDice tokens x.operator
  last : ∃ symbol, Reads tokens x.operandEnd symbol
  sides : EndsOperand tokens dicePower (x.operator + 1) x.operandEnd

/-! ## Frames inside a frame -/

/-- The frames that hold on inside another one are those that would without it. It gets its operand
only when there are none. -/
theorem Frame.held_eq_append {power : Nat} {frames inner outer : List Frame} {frame : Frame}
    (h : held power frames = inner ++ frame :: outer) :
    frames = released power frames ++ inner ++ frame :: outer ∧
      held power (released power frames ++ inner) = inner ∧
      (inner = [] → frame.yields power = false) := by
  have hsplit := released_append_held power frames
  have hhead := List.head?_dropWhile_not (yields power) frames
  have hreleased : ∀ f ∈ released power frames, f.yields power = true :=
    List.all_eq_true.1 List.all_takeWhile
  rw [← held, h] at hhead
  refine ⟨by rw [List.append_assoc, ← h, hsplit], ?_, ?_⟩
  · rw [held, List.dropWhile_append_of_pos hreleased]
    cases inner with
    | nil => rfl
    | cons first inner => exact List.dropWhile_cons_of_neg (by simpa using hhead)
  · rintro rfl
    simpa using hhead

/-- The group that is closed is inside the dice that wait on. -/
theorem Frame.close?_eq_append {frames inner' outer : List Frame} {dice : Nat}
    (h : close? frames = some (inner' ++ .dice dice :: outer)) :
    ∃ inner, frames = inner ++ .dice dice :: outer ∧ close? inner = some inner' := by
  rcases frames with _ | ⟨frame, frames⟩
  · cases h
  · cases frame with
    | group index =>
      obtain rfl := Option.some.inj h
      exact ⟨.group index :: inner', rfl, rfl⟩
    | product index =>
      have hfactor := Option.some.inj h
      cases inner' with
      | nil => cases hfactor
      | cons first inner =>
        obtain ⟨rfl, rfl⟩ := List.cons.inj hfactor
        exact ⟨.product index :: inner, rfl, rfl⟩
    | factor _ | negation | dice _ | binary _ _ => cases h

theorem Scope.admits_sides {scope : Scope} {inner outer : List Frame} {frame : Frame}
    (h : scope.admits (inner ++ frame :: outer) = true) : Scope.sides.admits inner = true := by
  have hlevels : Frame.levels inner ≤ Frame.levels (inner ++ frame :: outer) :=
    (List.sublist_append_left inner _).countP_le
  simp only [Scope.admits, decide_eq_true_eq] at h ⊢
  show 0 + Frame.levels inner < levelLimit
  omega

namespace Program

/-- **A token inside the sides of waiting dice is read as it would be by itself.** Other dice that
wait after it are those at the token. -/
theorem Move.inside {scope : Scope} {frames frames' : List Frame} {index : Nat} {token : Token}
    {mode mode' : Mode} {steps : List Step}
    (h : Move scope frames index token mode steps mode' frames') {inner' outer : List Frame}
    {dice : Nat} (hsplit : frames' = inner' ++ .dice dice :: outer) :
    (inner' = [] ∧ dice = index ∧ mode' = .operand) ∨
      ∃ inner steps', frames = inner ++ .dice dice :: outer ∧
        Move .sides inner index token mode steps' mode' inner' := by
  cases h with
  | number hadmits hsymbol =>
    subst hsplit
    exact .inr ⟨inner', _, rfl, .number (Scope.admits_sides hadmits) hsymbol⟩
  | @opening op actions frame hadmits hsymbol hop =>
    cases inner' with
    | nil =>
      cases hsplit
      left
      cases op <;> cases hop
      exact ⟨rfl, rfl, rfl⟩
    | cons first inner =>
      cases hsplit
      exact .inr ⟨inner, _, rfl, .opening (Scope.admits_sides hadmits) hsymbol hop⟩
  | @continuing op power frame hsymbol hop _ =>
    cases inner' with
    | nil =>
      have hframe : frame = .dice dice := (List.cons.inj hsplit).1
      subst hframe
      left
      cases op <;> cases hop
      exact ⟨rfl, rfl, rfl⟩
    | cons first inner =>
      obtain ⟨hfirst, hheld⟩ := List.cons.inj hsplit
      obtain ⟨hframes, hinner, hnil⟩ := Frame.held_eq_append hheld
      subst hfirst
      -- If nothing inside holds on, the operator binds more tightly than the dice.
      have hinside : Frame.held power (Frame.released power frames ++ inner) = [] →
          Scope.sides.power < power := by
        intro hempty
        have hyields := hnil (hinner.symm.trans hempty)
        exact Nat.lt_of_not_le (of_decide_eq_false hyields)
      have hmove :
          Move .sides (Frame.released power frames ++ inner) index token .operator _ .operand
          (frame :: Frame.held power (Frame.released power frames ++ inner)) :=
        .continuing hsymbol hop hinside
      rw [hinner] at hmove
      exact .inr ⟨_, _, hframes, hmove⟩
  | closing hsymbol hop hclose =>
    rw [hsplit] at hclose
    obtain ⟨inner, hheld, hclose'⟩ := Frame.close?_eq_append hclose
    obtain ⟨hframes, hinner, -⟩ := Frame.held_eq_append hheld
    rw [← hinner] at hclose'
    exact .inr ⟨_, _, hframes, .closing hsymbol hop hclose'⟩

/-- Inside dice that wait, reading goes on as it does when their sides are read by themselves. -/
def ReadAlone (all : List Token) (mode : Mode) (frames : List Frame) (index : Nat)
    (rest : List Token) : Prop :=
  ∀ inner dice outer, frames = inner ++ .dice dice :: outer →
    ∃ before, readOperand .sides [] (dice + 1) (all.drop (dice + 1)) =
      (read .sides mode inner index rest).after before

theorem Move.readAlone {all : List Token} {scope : Scope} {frames frames' : List Frame}
    {index : Nat} {token : Token} {rest : List Token} {mode mode' : Mode} {steps : List Step}
    (h : Move scope frames index token mode steps mode' frames') (hrest : obstacle? rest = none)
    (hat : At all mode' frames' (index + 1) rest)
    (halone : ReadAlone all mode frames index (token :: rest)) :
    ReadAlone all mode' frames' (index + 1) rest := by
  intro inner' dice outer hsplit
  rcases h.inside hsplit with ⟨rfl, rfl, rfl⟩ | ⟨inner, steps', hframes, hmove⟩
  · -- The sides begin here.
    exact ⟨[], by rw [hat.rest]; rfl⟩
  · obtain ⟨before, hbefore⟩ := halone inner dice outer hframes
    rw [read_of_move hmove hrest, after_after] at hbefore
    exact ⟨_, hbefore⟩

/-- Dice that get their operand have sides which are complete by themselves. -/
theorem ReadAlone.endsOperand {all : List Token} {frames : List Frame} {index power : Nat}
    {rest : List Token} (h : ReadAlone all .operator frames index rest)
    (hnext : nextPower? rest = some power) (hindex : 0 < index) {dice : Nat}
    (hdice : Frame.dice dice ∈ Frame.released power frames) :
    EndsOperand all dicePower (dice + 1) (index - 1) := by
  obtain ⟨inner, outer, hreleased⟩ := List.append_of_mem hdice
  have hyields : ∀ frame ∈ Frame.released power frames, frame.yields power = true :=
    List.all_eq_true.1 List.all_takeWhile
  have hinner : ∀ frame ∈ inner, frame.yields power = true := fun frame hframe =>
    hyields frame (hreleased ▸ List.mem_append_left _ hframe)
  have hpower : power ≤ dicePower := of_decide_eq_true (hyields _ hdice)
  have hframes : frames = inner ++ .dice dice :: (outer ++ Frame.held power frames) := by
    rw [← List.cons_append, ← List.append_assoc, ← hreleased, Frame.released_append_held]
  obtain ⟨before, hbefore⟩ := h inner dice _ hframes
  rw [read, readOperator_complete hnext hpower hinner] at hbefore
  show (readOperand .sides [] (dice + 1) (all.drop (dice + 1))).verdict = _ ∧
    (readOperand .sides [] (dice + 1) (all.drop (dice + 1))).seen = _
  rw [hbefore]
  exact ⟨rfl, (Nat.sub_add_cancel hindex).symm⟩

/-- The extents of the rolls at a token lie as they should. -/
theorem RollsAt.ends {all : List Token} {frames : List Frame} {index : Nat} {mode : Mode}
    {rest : List Token} {extents : List Extent} {held : List Nat}
    (h : RollsAt frames index rest mode extents held) (hat : At all mode frames index rest)
    (halone : ReadAlone all mode frames index rest) :
    ∀ x ∈ extents, (∃ symbol, Reads all x.operandEnd symbol) ∧
      EndsOperand all dicePower (x.operator + 1) x.operandEnd := by
  cases h with
  | none => exact nofun
  | released hnext =>
    obtain ⟨hindex, hlast⟩ := hat.last rfl
    intro x hx
    obtain ⟨dice, hdice, rfl⟩ := List.mem_map.1 hx
    exact ⟨hlast, halone.endsOperand hnext hindex (Frame.mem_waitingDice.1 hdice)⟩

/-- **The extents of an expression lie as they should.** -/
theorem extents_placed (tokens : List Token) :
    ∀ x ∈ extents (ofTokens tokens).steps, x.Placed tokens := by
  have hends : ∀ x ∈ extents (ofTokens tokens).steps, (∃ symbol, Reads tokens x.operandEnd symbol) ∧
      EndsOperand tokens dicePower (x.operator + 1) x.operandEnd := by
    refine read_induct .whole
      (P := fun mode frames index rest program => At tokens mode frames index rest →
        ReadAlone tokens mode frames index rest → ∀ x ∈ extents program.steps,
          (∃ symbol, Reads tokens x.operandEnd symbol) ∧
            EndsOperand tokens dicePower (x.operator + 1) x.operandEnd)
      ?_ ?_ tokens .operand [] 0 ⟨rfl, nofun, nofun⟩ (fun inner dice outer h => ?_)
    · intro mode frames index rest program hhalt hat halone
      obtain ⟨held, hrolls⟩ := hhalt.rollsAt
      exact RollsAt.ends hrolls hat halone
    · intro mode frames index token rest steps mode' frames' program hmove hrest ih hat halone x hx
      obtain ⟨held, hrolls, -⟩ := hmove.rollsAt rest
      have hat' := (hmove.placed hat).2
      rw [after_steps, extents_append] at hx
      rcases List.mem_append.1 hx with hx | hx
      · exact RollsAt.ends hrolls hat halone x hx
      · exact ih hat' (hmove.readAlone hrest hat' halone) x hx
    · -- No dice wait in the beginning.
      simp at h
  intro x hx
  obtain ⟨step, hstep, hextent⟩ := List.mem_filterMap.1 hx
  have hplaced := (placed_ofTokens tokens).steps step hstep
  obtain ⟨hlast, hsides⟩ := hends x hx
  refine ⟨?_, hlast, hsides⟩
  obtain ⟨action, seen⟩ := step
  cases action with
  | roll index => cases hextent; exact hplaced
  | push _ | negate | apply _ _ => cases hextent

end Program

end DiceNotation
