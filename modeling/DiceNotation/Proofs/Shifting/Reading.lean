import Mathlib.Data.List.Forall2
import DiceNotation.Proofs.Shifting

/-!
# DiceNotation.Proofs.Shifting.Reading

Two readers that read the same tokens at indices of which the second reader's are
shifted, and the programs that they come to. Their frames are related one by one
(`Frame.Alike`): they are the same by shifted indices, or a product with a group
on the one side is written out on the other, which may cost that side a level.

* `Program.Shifted`: programs that are the same by shifted indices;
* `Program.Halt.shifted`, `Program.Move.alike`: with alike frames the readers
  end alike, and consume a token alike;
* `Program.Lockstep`, `Program.Lockstep.ofTokens`: readers that stay in step before the new token
  and after it, so that only its own place is left to look at;
* `Step.perform_alike`, `Program.runSteps_alike`: alike steps do the same;
* `Program.RunsShifted`: programs that run alike, whatever their steps are; shifted programs do.
-/

namespace DiceNotation

variable {i : Nat}

/-! ## Frames and steps -/

/-- Actions that are the same by shifted indices. Of the operators of two
numbers only divisions need their index. -/
inductive Action.Alike (i : Nat) : Action → Action → Prop
  | push (x : Number) : Alike i (.push x) (.push x)
  | negate : Alike i .negate .negate
  | apply {op : BinaryOp} {index index' : Nat} : (op = .div → index' = shiftIndex i index) →
      Alike i (.apply op index) (.apply op index')
  | roll (index : Nat) : Alike i (.roll index) (.roll (shiftIndex i index))

/-- Steps that are the same by shifted indices. -/
structure Step.Alike (i : Nat) (step step' : Step) : Prop where
  action : step.action.Alike i step'.action
  seen : step'.seen = shiftSeen i step.seen

/-- Frames that are the same by shifted indices, or a product with a group and one that is written
out. -/
inductive Frame.Alike (i : Nat) : Frame → Frame → Prop
  | group (index : Nat) : Alike i (.group index) (.group (shiftIndex i index))
  | product (index : Nat) : Alike i (.product index) (.product (shiftIndex i index))
  | factor (index : Nat) : Alike i (.factor index) (.factor (shiftIndex i index))
  | written (index index' : Nat) : Alike i (.factor index) (.binary .mul index')
  | negation : Alike i .negation .negation
  | dice (index : Nat) : Alike i (.dice index) (.dice (shiftIndex i index))
  | binary (op : BinaryOp) (index : Nat) :
      Alike i (.binary op index) (.binary op (shiftIndex i index))

namespace Frame

variable {frame frame' : Frame} {frames frames' : List Frame}

theorem Alike.yields (h : frame.Alike i frame') (power : Nat) :
    frame'.yields power = frame.yields power := by
  cases h <;> rfl

theorem Alike.deepens (h : frame.Alike i frame') (hdeepens : frame.deepens = true) :
    frame'.deepens = true := by
  cases h <;> first | rfl | exact hdeepens

/-- Alike frames do alike actions. -/
theorem Alike.action? (h : frame.Alike i frame') :
    frame.action? = none ∧ frame'.action? = none ∨
      ∃ action action', frame.action? = some action ∧ frame'.action? = some action' ∧
        action.Alike i action' := by
  cases h with
  | group index | product index => exact .inl ⟨rfl, rfl⟩
  | factor index => exact .inr ⟨_, _, rfl, rfl, .apply nofun⟩
  | written index index' => exact .inr ⟨_, _, rfl, rfl, .apply nofun⟩
  | negation => exact .inr ⟨_, _, rfl, rfl, .negate⟩
  | dice index => exact .inr ⟨_, _, rfl, rfl, .roll index⟩
  | binary op index => exact .inr ⟨_, _, rfl, rfl, .apply fun _ => rfl⟩

theorem released_alike (h : List.Forall₂ (Alike i) frames frames') (power : Nat) :
    List.Forall₂ (Alike i) (released power frames) (released power frames') := by
  induction h with
  | nil => exact .nil
  | @cons frame frame' frames frames' hframe _ ih =>
    simp only [released, List.takeWhile_cons, hframe.yields power] at ih ⊢
    split
    · exact .cons hframe ih
    · exact .nil

theorem held_alike (h : List.Forall₂ (Alike i) frames frames') (power : Nat) :
    List.Forall₂ (Alike i) (held power frames) (held power frames') := by
  induction h with
  | nil => exact .nil
  | @cons frame frame' frames frames' hframe hframes ih =>
    simp only [held, List.dropWhile_cons, hframe.yields power] at ih ⊢
    split
    · exact ih
    · exact .cons hframe hframes

theorem held_nil_of_alike (h : List.Forall₂ (Alike i) frames frames') (power : Nat) :
    held power frames' = [] ↔ held power frames = [] := by
  rw [← List.length_eq_zero_iff, ← List.length_eq_zero_iff, (held_alike h power).length_eq]

theorem steps_alike (h : List.Forall₂ (Alike i) frames frames') {seen seen' : Nat}
    (hseen : seen' = shiftSeen i seen) :
    List.Forall₂ (Step.Alike i) (steps seen frames) (steps seen' frames') := by
  induction h with
  | nil => exact .nil
  | @cons frame frame' frames frames' hframe _ ih =>
    simp only [steps, List.filterMap_cons] at ih ⊢
    rcases hframe.action? with ⟨hnone, hnone'⟩ | ⟨action, action', hsome, hsome', haction⟩
    · rw [hnone, hnone']
      exact ih
    · rw [hsome, hsome']
      exact .cons ⟨haction, hseen⟩ ih

theorem close?_alike {outer : List Frame} (h : List.Forall₂ (Alike i) frames frames')
    (hclose : close? frames = some outer) :
    ∃ outer', close? frames' = some outer' ∧ List.Forall₂ (Alike i) outer outer' := by
  cases h with
  | nil => cases hclose
  | @cons frame frame' frames frames' hframe hframes =>
    cases hframe with
    | group index =>
      cases hclose
      exact ⟨_, rfl, hframes⟩
    | product index =>
      cases hclose
      exact ⟨_, rfl, .cons (.factor index) hframes⟩
    | _ => cases hclose

theorem close?_alike_none (h : List.Forall₂ (Alike i) frames frames')
    (hclose : close? frames = none) : close? frames' = none := by
  cases h with
  | nil => rfl
  | cons hframe _ => cases hframe <;> first | rfl | cases hclose

theorem unclosed?_alike (h : List.Forall₂ (Alike i) frames frames') :
    unclosed? frames' = (unclosed? frames).map (shiftIndex i) := by
  cases h with
  | nil => rfl
  | cons hframe _ => cases hframe <;> rfl

theorem levels_append (first second : List Frame) :
    levels (first ++ second) = levels first + levels second :=
  List.countP_append

/-- A group that is closed was a level. -/
theorem levels_of_close? {outer : List Frame} (h : close? frames = some outer) :
    levels frames = levels outer + 1 := by
  unfold close? at h
  split at h <;> cases h <;> simp [levels_cons, deepens]

/-- A product that is written out makes a level more. -/
theorem levels_alike (h : List.Forall₂ (Alike i) frames frames') :
    levels frames ≤ levels frames' := by
  induction h with
  | nil => exact Nat.le_refl _
  | @cons frame frame' frames frames' hframe _ ih =>
    rw [levels_cons, levels_cons]
    by_cases hdeepens : frame.deepens = true
    · simp only [hdeepens, hframe.deepens hdeepens, if_true]
      exact Nat.succ_le_succ ih
    · simp only [hdeepens]
      exact Nat.le_add_right_of_le ih

/-- Where no product is written out among the frames, none is among those that wait on. -/
theorem levels_held_alike (h : List.Forall₂ (Alike i) frames frames')
    (hlevels : levels frames' = levels frames) (power : Nat) :
    levels (held power frames') = levels (held power frames) := by
  have hheld := levels_alike (held_alike h power)
  have hreleased := levels_alike (released_alike h power)
  rw [← released_append_held power frames, ← released_append_held power frames', levels_append,
    levels_append] at hlevels
  omega

end Frame

theorem Scope.admits_alike {scope : Scope} {frames frames' : List Frame}
    (h : List.Forall₂ (Frame.Alike i) frames frames') (hadmits : scope.admits frames' = true) :
    scope.admits frames = true := by
  have hlevels := Frame.levels_alike h
  simp only [Scope.admits, decide_eq_true_eq] at hadmits ⊢
  omega

namespace Operator

variable {op : Operator} {index : Nat}

theorem opening?_none (h : op.opening? index = none) (index' : Nat) :
    op.opening? index' = none := by
  cases op <;> first | rfl | cases h

theorem continuing?_none (h : op.continuing? index = none) (index' : Nat) :
    op.continuing? index' = none := by
  cases op <;> first | rfl | cases h

theorem opening?_deepens {actions : List Action} {frame : Frame}
    (h : op.opening? index = some (actions, frame)) : frame.deepens = true := by
  cases op <;> cases h <;> rfl

theorem continuing?_deepens {power : Nat} {frame : Frame}
    (h : op.continuing? index = some (power, frame)) : frame.deepens = true := by
  cases op <;> cases h <;> rfl

/-- Where an operand is expected, an operator at a shifted index does the same and waits alike. -/
theorem opening?_alike {actions : List Action} {frame : Frame}
    (h : op.opening? index = some (actions, frame)) (i : Nat) :
    ∃ frame', op.opening? (shiftIndex i index) = some (actions, frame') ∧ frame.Alike i frame' ∧
      ∀ action ∈ actions, action.Alike i action := by
  cases op with
  | sub =>
    cases h
    exact ⟨_, rfl, .negation, nofun⟩
  | leftParen =>
    cases h
    exact ⟨_, rfl, .group index, nofun⟩
  | dice upper =>
    cases h
    exact ⟨_, rfl, .dice index, List.forall_mem_singleton.2 (.push _)⟩
  | _ => cases h

/-- After an operand, an operator at a shifted index binds as tightly and waits alike. -/
theorem continuing?_alike {power : Nat} {frame : Frame}
    (h : op.continuing? index = some (power, frame)) (i : Nat) :
    ∃ frame', op.continuing? (shiftIndex i index) = some (power, frame') ∧
      frame.Alike i frame' := by
  cases op with
  | leftParen =>
    cases h
    exact ⟨_, rfl, .product index⟩
  | dice upper =>
    cases h
    exact ⟨_, rfl, .dice index⟩
  | rightParen => cases h
  | _ =>
    cases h
    exact ⟨_, rfl, .binary _ index⟩

end Operator

/-! ## Reading -/

namespace Program

variable {scope : Scope} {mode mode' : Mode} {frames frames' : List Frame} {index : Nat}
  {token : Token} {rest rest' tokens tokens' : List Token} {steps steps' : List Step}
  {program : Program}

/-- Programs that are the same by shifted indices. -/
inductive Shifted (i : Nat) : Program → Program → Prop
  | stop (e : EvalError) (seen : Nat) :
      Shifted i (.stop e seen) (.stop (e.shift i) (shiftSeen i seen))
  | finish (seen : Nat) : Shifted i (.finish seen) (.finish (shiftSeen i seen))
  | after {p p' : Program} {steps steps' : List Step} : List.Forall₂ (Step.Alike i) steps steps' →
      Shifted i p p' → Shifted i (p.after steps) (p'.after steps')

theorem Shifted.stop_same {e : EvalError} (h : e.shift i = e) (seen : Nat) :
    Shifted i (Program.stop e seen) (.stop e (shiftSeen i seen)) := by
  have hstop := Shifted.stop (i := i) e seen
  rwa [h] at hstop

/-- Tokens that are the same to a reader that consumes the first of them. -/
inductive SameHead : List Token → List Token → Prop
  | nil : SameHead [] []
  | cons (token : Token) {rest rest' : List Token} : obstacle? rest' = obstacle? rest →
      SameHead (token :: rest) (token :: rest')

theorem SameHead.refl (tokens : List Token) : SameHead tokens tokens := by
  cases tokens with
  | nil => exact .nil
  | cons token rest => exact .cons token rfl

/-- The reader ends with alike frames as it ends. -/
theorem Halt.shifted (h : Halt scope frames index mode tokens program)
    (hframes : List.Forall₂ (Frame.Alike i) frames frames')
    (hadmits : mode = .operand → scope.admits frames' = scope.admits frames) (hindex : index ≠ i)
    (htokens : SameHead tokens tokens') :
    Shifted i program (read scope mode frames' (shiftIndex i index) tokens') := by
  have hseen : shiftIndex i index = shiftSeen i index := (shiftSeen_of_ne hindex).symm
  have hnext : shiftIndex i index + 1 = shiftSeen i (index + 1) := (shiftSeen_succ i index).symm
  have hreleased := fun power => Frame.steps_alike (Frame.released_alike hframes power) hseen
  have hempty := fun power => Frame.held_nil_of_alike hframes power
  cases h with
  | tooDeep hdeep =>
    rw [read_of_halt (.tooDeep ((hadmits rfl).trans hdeep)), hseen]
    exact .stop .tooDeep index
  | lacking hopen =>
    cases htokens
    rw [read_of_halt (.lacking ((hadmits rfl).trans hopen)), hseen]
    exact .stop .unexpectedEnd index
  | @unreadable mode token rest e hopen hsymbol =>
    cases htokens
    have hopen' := fun hmode => (hadmits hmode).trans (hopen hmode)
    rw [read_of_halt (.unreadable hopen' hsymbol), hseen]
    exact .stop_same (Token.symbol_error_shift hsymbol i) index
  | @blocked token rest symbol e hopen hsymbol hrest =>
    cases htokens with
    | cons _ hsame =>
      have hopen' := (hadmits rfl).trans hopen
      rw [read_of_halt (.blocked hopen' hsymbol (hsame.trans hrest)), hnext]
      exact .stop_same (obstacle?_shift hrest i) (index + 1)
  | misplacedOperator hopen hsymbol hop hrest =>
    cases htokens with
    | cons _ hsame =>
      have hopen' := (hadmits rfl).trans hopen
      have hop' := Operator.opening?_none hop (shiftIndex i index)
      rw [read_of_halt (.misplacedOperator hopen' hsymbol hop' (hsame.trans hrest)), hnext]
      exact .stop (.unexpectedValue index) (index + 1)
  | misplacedNumber hsymbol =>
    cases htokens
    have hlast : shiftIndex i index - 1 = shiftIndex i (index - 1) := by
      rw [hseen]
      exact shiftSeen_sub_one (by omega)
    rw [read_of_halt (.misplacedNumber hsymbol), hlast, hseen]
    exact .stop (.unexpectedValue (index - 1)) index
  | @unclosed opening hunclosed =>
    cases htokens
    have hunclosed' := Frame.unclosed?_alike (Frame.held_alike hframes 0)
    rw [hunclosed] at hunclosed'
    rw [read_of_halt (.unclosed hunclosed')]
    refine .after (hreleased 0) ?_
    rw [hseen]
    exact .stop (.unclosedGroup opening) index
  | complete hunclosed =>
    cases htokens
    have hunclosed' := Frame.unclosed?_alike (Frame.held_alike hframes 0)
    rw [hunclosed] at hunclosed'
    rw [read_of_halt (.complete hunclosed')]
    refine .after (hreleased 0) ?_
    rw [hseen]
    exact .finish index
  | outside hsymbol hop hheld hpower =>
    cases htokens
    obtain ⟨frame', hop', -⟩ := Operator.continuing?_alike hop i
    rw [read_of_halt (.outside hsymbol hop' ((hempty _).2 hheld) hpower)]
    refine .after (hreleased _) ?_
    rw [hseen]
    exact .finish index
  | @blockedOperator token rest op power frame e hsymbol hop hinside hrest =>
    cases htokens with
    | cons _ hsame =>
      obtain ⟨frame', hop', -⟩ := Operator.continuing?_alike hop i
      have hinside' := fun hheld' => hinside ((hempty power).1 hheld')
      rw [read_of_halt (.blockedOperator hsymbol hop' hinside' (hsame.trans hrest)), hnext]
      refine .after (hreleased _) ?_
      exact .stop_same (obstacle?_shift hrest i) (index + 1)
  | closed hsymbol hop hclose =>
    cases htokens
    have hop' := Operator.continuing?_none hop (shiftIndex i index)
    have hclose' := Frame.close?_alike_none (Frame.held_alike hframes 0) hclose
    rw [read_of_halt (.closed hsymbol hop' hclose')]
    refine .after (hreleased 0) ?_
    rw [hseen]
    exact .finish index
  | @blockedClosing token rest op outer e hsymbol hop hclose hrest =>
    cases htokens with
    | cons _ hsame =>
      have hop' := Operator.continuing?_none hop (shiftIndex i index)
      obtain ⟨outer', hclose', -⟩ := Frame.close?_alike (Frame.held_alike hframes 0) hclose
      rw [read_of_halt (.blockedClosing hsymbol hop' hclose' (hsame.trans hrest)), hnext]
      refine .after (hreleased 0) ?_
      exact .stop_same (obstacle?_shift hrest i) (index + 1)

/-- With alike frames a token is consumed alike. -/
theorem Move.alike {frames₁ : List Frame}
    (h : Move scope frames index token mode steps mode' frames₁)
    (hframes : List.Forall₂ (Frame.Alike i) frames frames')
    (hadmits : mode = .operand → scope.admits frames' = scope.admits frames) (hindex : index ≠ i) :
    ∃ steps' frames₁', Move scope frames' (shiftIndex i index) token mode steps' mode' frames₁' ∧
      List.Forall₂ (Step.Alike i) steps steps' ∧ List.Forall₂ (Frame.Alike i) frames₁ frames₁' ∧
      (Frame.levels frames' = Frame.levels frames →
        Frame.levels frames₁' = Frame.levels frames₁) := by
  have hseen : shiftIndex i index = shiftSeen i index := (shiftSeen_of_ne hindex).symm
  have hnext : shiftIndex i index + 1 = shiftSeen i (index + 1) := (shiftSeen_succ i index).symm
  have hreleased := fun power => Frame.steps_alike (Frame.released_alike hframes power) hseen
  cases h with
  | @number x hopen hsymbol =>
    have hopen' := (hadmits rfl).trans hopen
    exact ⟨_, _, .number hopen' hsymbol, .cons ⟨.push x, hnext⟩ .nil, hframes, id⟩
  | @opening op actions frame hopen hsymbol hop =>
    have hopen' := (hadmits rfl).trans hopen
    obtain ⟨frame', hop', hframe, hactions⟩ := Operator.opening?_alike hop i
    have hdeepens := Operator.opening?_deepens hop
    refine ⟨_, _, .opening hopen' hsymbol hop', ?_, .cons hframe hframes, fun hlevels => ?_⟩
    · rw [List.forall₂_map_left_iff, List.forall₂_map_right_iff]
      exact List.forall₂_same.2 fun action haction => ⟨hactions action haction, hnext⟩
    · rw [Frame.levels_cons, Frame.levels_cons, hdeepens, hframe.deepens hdeepens, hlevels]
  | @continuing op power frame hsymbol hop hinside =>
    obtain ⟨frame', hop', hframe⟩ := Operator.continuing?_alike hop i
    have hdeepens := Operator.continuing?_deepens hop
    have hinside' := fun hheld' => hinside ((Frame.held_nil_of_alike hframes power).1 hheld')
    refine ⟨_, _, .continuing hsymbol hop' hinside', hreleased power,
      .cons hframe (Frame.held_alike hframes power), fun hlevels => ?_⟩
    rw [Frame.levels_cons, Frame.levels_cons, hdeepens, hframe.deepens hdeepens,
      Frame.levels_held_alike hframes hlevels]
  | @closing op outer hsymbol hop hclose =>
    have hop' := Operator.continuing?_none hop (shiftIndex i index)
    obtain ⟨outer', hclose', houter⟩ := Frame.close?_alike (Frame.held_alike hframes 0) hclose
    refine ⟨_, _, .closing hsymbol hop' hclose', hreleased 0, houter, fun hlevels => ?_⟩
    have hheld := Frame.levels_held_alike hframes hlevels 0
    rwa [Frame.levels_of_close? hclose, Frame.levels_of_close? hclose', Nat.succ_inj] at hheld

/-! ## Lockstep -/

/-- Two readers stay in step: wherever they are but at the new token, with
frames that `P` relates, they come to programs that `R` relates, if they do so
after each token that both can consume there. -/
def Lockstep (i : Nat) (scope : Scope) (P : List Frame → List Frame → Prop)
    (R : Program → Program → Prop) : Prop :=
  ∀ ⦃frames frames' : List Frame⦄ ⦃index : Nat⦄ ⦃tokens tokens' : List Token⦄ (mode : Mode),
    P frames frames' → index ≠ i → SameHead tokens tokens' →
    (∀ token rest rest' steps mode' frames₁ frames₁', tokens = token :: rest →
      tokens' = token :: rest' → Move scope frames index token mode steps mode' frames₁ →
      P frames₁ frames₁' →
        R (read scope mode' frames₁ (index + 1) rest)
          (read scope mode' frames₁' (shiftIndex i index + 1) rest')) →
    R (read scope mode frames index tokens) (read scope mode frames' (shiftIndex i index) tokens')

variable {P : List Frame → List Frame → Prop} {R : Program → Program → Prop}

/-- Beyond the new token both readers read the same tokens. -/
theorem Lockstep.beyond (h : Lockstep i scope P R) (tokens : List Token) (mode : Mode)
    (hframes : P frames frames') (hindex : i < index) :
    R (read scope mode frames index tokens) (read scope mode frames' (index + 1) tokens) := by
  induction tokens generalizing mode frames frames' index with
  | nil =>
    rw [← shiftIndex_of_le (Nat.le_of_lt hindex)]
    refine h mode hframes (Nat.ne_of_gt hindex) .nil ?_
    intro _ _ _ _ _ _ _ htokens
    cases htokens
  | cons token rest ih =>
    have hshift := shiftIndex_of_le (Nat.le_of_lt hindex)
    rw [← hshift]
    refine h mode hframes (Nat.ne_of_gt hindex) (.refl (token :: rest)) ?_
    intro _ _ _ _ mode' _ _ htokens htokens' _ hframes₁
    cases htokens
    cases htokens'
    rw [hshift]
    exact ih mode' hframes₁ (Nat.lt_succ_of_lt hindex)

/-- Before it they read the same tokens too, and come to it as the last of them leaves them. -/
theorem Lockstep.before (h : Lockstep i scope P R) {Q : Mode → List Frame → Prop}
    (hsame : obstacle? rest' = obstacle? rest)
    (hnew : ∀ mode frames frames', P frames frames' → Q mode frames →
      R (read scope mode frames i rest) (read scope mode frames' i rest'))
    (before : List Token)
    (hlast : ∀ last ∈ before.getLast?, ∀ frames index mode steps mode' frames₁,
      Move scope frames index last mode steps mode' frames₁ → Q mode' frames₁)
    (mode : Mode) (hstart : before = [] → Q mode frames) (hframes : P frames frames')
    (hindex : index + before.length = i) :
    R (read scope mode frames index (before ++ rest))
      (read scope mode frames' index (before ++ rest')) := by
  induction before generalizing mode frames frames' index with
  | nil =>
    obtain rfl : index = i := hindex
    exact hnew mode frames frames' hframes (hstart rfl)
  | cons token before ih =>
    rw [List.length_cons] at hindex
    have hlt : index < i := by omega
    have hlook : obstacle? (before ++ rest') = obstacle? (before ++ rest) := by
      cases before with
      | nil => exact hsame
      | cons token before => rfl
    have hstep := h mode hframes (Nat.ne_of_lt hlt) (.cons token hlook)
    rw [shiftIndex_of_lt hlt] at hstep
    apply hstep
    intro _ _ _ _ mode' frames₁ _ htokens htokens' hmove hframes₁
    cases htokens
    cases htokens'
    refine ih ?_ mode' ?_ hframes₁ (by omega)
    · intro last hmem
      refine hlast last ?_
      rw [List.getLast?_cons, Option.mem_def.1 hmem]
      rfl
    · rintro rfl
      exact hlast token rfl _ _ _ _ _ _ hmove

/-- **An expression and one with a token put in**, read in lockstep. It is enough to look at the
place of the new token, as it is come to after the token before. -/
theorem Lockstep.ofTokens (h : Lockstep i .whole P R) (hnone : P [] []) {tokens : List Token}
    {new : Token} (hlt : i < tokens.length)
    (hsame : obstacle? (new :: tokens.drop i) = obstacle? (tokens.drop i))
    {Q : Mode → List Frame → Prop} (hstart : i = 0 → Q .operand [])
    (hlast : ∀ last, 0 < i → tokens[i - 1]? = some last → ∀ frames index mode steps mode' frames₁,
      Move .whole frames index last mode steps mode' frames₁ → Q mode' frames₁)
    (hnew : ∀ mode frames frames', P frames frames' → Q mode frames →
      R (read .whole mode frames i (tokens.drop i))
        (read .whole mode frames' i (new :: tokens.drop i))) :
    R (ofTokens tokens) (ofTokens (tokens.insertIdx i new)) := by
  have hlength : (tokens.take i).length = i := List.length_take_of_le (Nat.le_of_lt hlt)
  have hread := h.before hsame hnew (tokens.take i) ?_ .operand ?_ hnone
    (show 0 + _ = i by rw [hlength, Nat.zero_add])
  · rwa [List.take_append_drop, ← insertIdx_eq_take_append_drop (Nat.le_of_lt hlt)] at hread
  · intro last hmem
    rw [Option.mem_def, List.getLast?_eq_getElem?, hlength] at hmem
    obtain ⟨hbefore, hget⟩ := List.getElem?_eq_some_iff.1 hmem
    rw [hlength] at hbefore
    rw [List.getElem_take] at hget
    exact hlast last (by omega) (List.getElem?_eq_some_iff.2 ⟨_, hget⟩)
  · intro hnil
    rw [hnil] at hlength
    exact hstart hlength.symm

end Program

/-! ## Running -/

variable {σ : Type} [Roller σ]

theorem BinaryOp.apply_alike {op : BinaryOp} {index index' : Nat}
    (h : op = .div → index' = shiftIndex i index) (left right : Number) :
    op.apply index' left right = (op.apply index left right).mapError (EvalError.shift i) := by
  cases op with
  | div =>
    simp only [BinaryOp.apply, h rfl]
    split <;> rfl
  | _ => rfl

/-- The roll of dice at a shifted index. -/
theorem Tray.rollAt_shift {seen : Nat} (hseen : 0 < i ∨ 0 < seen) (tray : Tray σ) (index : Nat)
    (quantity sides : Number) :
    tray.rollAt (shiftIndex i index) (shiftSeen i seen) quantity sides =
      (tray.rollAt index seen quantity sides).shift i := by
  rcases hroll : tray.roll quantity sides with ⟨result, tray'⟩
  cases result with
  | error e =>
    rw [Tray.rollAt_of_error hroll, Tray.rollAt_of_error hroll]
    rfl
  | ok faces =>
    rw [Tray.rollAt_of_ok hroll, Tray.rollAt_of_ok hroll, shiftSeen_sub_one hseen]
    unfold finite
    split <;> rfl

/-- Alike steps do the same, by shifted indices. -/
theorem Step.perform_alike {step step' : Step} (h : step.Alike i step')
    (hpast : 0 < i ∨ 0 < step.seen) (stack : List Number) (tray : Tray σ) :
    step'.perform stack tray = (step.perform stack tray).shift i := by
  obtain ⟨action, seen⟩ := step
  obtain ⟨action', seen'⟩ := step'
  obtain ⟨haction, hseen⟩ := h
  dsimp only at haction hseen hpast
  rw [hseen]
  -- A number that is put on the stack has an error without an index.
  have hfinite : ∀ (x : Number) (rest : List Number),
      ((finite x).map (· :: rest)).mapError (EvalError.shift i) = (finite x).map (· :: rest) := by
    intro x rest
    unfold finite
    split <;> rfl
  cases haction with
  | push x =>
    simp only [Step.perform, Run.shift, hfinite]
    rfl
  | negate =>
    rcases stack with _ | ⟨x, rest⟩
    · rfl
    · simp only [Step.perform, Run.shift, hfinite]
      rfl
  | @apply op index index' hindex =>
    rcases stack with _ | ⟨right, _ | ⟨left, rest⟩⟩
    · rfl
    · rfl
    · simp only [Step.perform, BinaryOp.apply_alike hindex]
      cases op.apply index left right with
      | error e => rfl
      | ok x =>
        show Run.mk ((finite x).map _) _ _ _ = Run.shift i ⟨(finite x).map _, _, _, _⟩
        rw [Run.shift, hfinite]
        rfl
  | roll index =>
    rcases stack with _ | ⟨sides, _ | ⟨quantity, rest⟩⟩
    · rfl
    · rfl
    · rw [Step.perform_roll, Step.perform_roll, Tray.rollAt_shift hpast, Run.shift_map]

namespace Program

/-- Alike steps run alike. -/
theorem runSteps_alike {steps steps' : List Step} (h : List.Forall₂ (Step.Alike i) steps steps')
    (hpast : ∀ step ∈ steps, 0 < i ∨ 0 < step.seen) (seen : Nat) (stack : List Number)
    (tray : Tray σ) :
    runSteps (shiftSeen i seen) steps' stack tray = (runSteps seen steps stack tray).shift i := by
  induction h generalizing stack tray with
  | nil => rfl
  | @cons step step' steps steps' hstep _ ih =>
    obtain ⟨hfirst, hrest⟩ := List.forall_mem_cons.1 hpast
    rw [runSteps_cons_eq_bind, runSteps_cons_eq_bind, Run.shift_bind,
      Step.perform_alike hstep hfirst]
    exact Run.bind_congr _ (ih hrest)

/-- The second program runs as the first does, by shifted indices. -/
def RunsShifted (i : Nat) (p p' : Program) : Prop :=
  ∀ (σ : Type) [Roller σ] (stack : List Number) (tray : Tray σ),
    p'.runOn stack tray = (p.runOn stack tray).shift i

theorem RunsShifted.after {p p' : Program} (h : RunsShifted i p p') {steps steps' : List Step}
    (hsteps : List.Forall₂ (Step.Alike i) steps steps')
    (hpast : ∀ step ∈ steps, 0 < i ∨ 0 < step.seen) :
    RunsShifted i (p.after steps) (p'.after steps') := by
  intro σ _ stack tray
  rw [runOn_after p' steps' (shiftSeen i 0), runOn_after p steps 0, runSteps_alike hsteps hpast,
    Run.shift_bind]
  exact Run.bind_congr _ (h σ)

/-- **Shifted programs run alike.** -/
theorem Shifted.runsShifted {p p' : Program} (h : Shifted i p p')
    (hpast : ∀ step ∈ p.steps, 0 < i ∨ 0 < step.seen) : RunsShifted i p p' := by
  induction h with
  | stop e seen => exact fun _ _ _ _ => rfl
  | finish seen => exact fun _ _ stack _ => by cases stack <;> rfl
  | after hsteps _ ih =>
    obtain ⟨hfirst, hrest⟩ := List.forall_mem_append.1 hpast
    exact (ih hrest).after hsteps hfirst

theorem RunsShifted.stop_same {e : EvalError} (h : e.shift i = e) (seen : Nat) :
    RunsShifted i (stop e seen) (stop e (shiftSeen i seen)) :=
  (Shifted.stop_same h seen).runsShifted (List.forall_mem_nil _)

end Program

end DiceNotation
