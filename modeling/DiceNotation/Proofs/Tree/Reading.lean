import DiceNotation.Proofs.Reading
import DiceNotation.Proofs.Tree

/-!
# DiceNotation.Proofs.Tree.Reading

Reading a written tree gives its steps, in the order of its evaluation.

The reader keeps the operators that wait for their right operand in frames, and a tree only has
powers on its edges. The two meet at the ends of a tree. At its left end, `Tree.within` says that
the frame around the tree lets the operators on the left edge have their left operands
(`readOperator_continue`). At its right end, `Tree.yields` says that every frame which the right
edge left waiting gets its operand from what follows (`readOperator_release`). So no frame of a tree
outlives it, and `Tree.readAt` is one induction with one lemma for either end.

A group that is a factor waits in a frame of its own kind. It is first shown to be the same as a
group inside a product (`readOperand_product`), after which products are operators like the others.
-/

namespace DiceNotation

/-! ## Groups as factors -/

/-- The group of a factor, as a group and a product that waits for it. -/
def Frame.unfold : Frame → List Frame
  | .product index => [.group index, .factor index]
  | frame => [frame]

namespace Frame

theorem released_unfold (power : Nat) (frames : List Frame) :
    released power (frames.flatMap unfold) = released power frames := by
  induction frames with
  | nil => rfl
  | cons frame frames ih =>
    cases frame with
    | group index | product index => rfl
    | _ =>
      simp only [released, unfold, List.flatMap_cons, List.singleton_append,
        List.takeWhile_cons] at ih ⊢
      rw [ih]

theorem held_unfold (power : Nat) (frames : List Frame) :
    held power (frames.flatMap unfold) = (held power frames).flatMap unfold := by
  induction frames with
  | nil => rfl
  | cons frame frames ih =>
    cases frame with
    | group index | product index => rfl
    | _ =>
      simp only [held, unfold, List.flatMap_cons, List.singleton_append,
        List.dropWhile_cons] at ih ⊢
      split
      · exact ih
      · simp [unfold]

theorem close?_unfold (frames : List Frame) :
    close? (frames.flatMap unfold) = (close? frames).map (List.flatMap unfold) := by
  rcases frames with _ | ⟨frame, frames⟩
  · rfl
  · cases frame <;> rfl

theorem unclosed?_unfold (frames : List Frame) :
    unclosed? (frames.flatMap unfold) = unclosed? frames := by
  rcases frames with _ | ⟨frame, frames⟩
  · rfl
  · cases frame <;> rfl

theorem isEmpty_unfold (frames : List Frame) :
    (frames.flatMap unfold).isEmpty = frames.isEmpty := by
  rcases frames with _ | ⟨frame, frames⟩
  · rfl
  · cases frame <;> rfl

theorem levels_unfold (frames : List Frame) : levels (frames.flatMap unfold) = levels frames := by
  induction frames with
  | nil => rfl
  | cons frame frames ih =>
    rw [List.flatMap_cons, levels_cons, ← ih]
    cases frame <;> simp only [unfold, List.cons_append, List.nil_append, levels_cons,
      deepens, Bool.false_eq_true, if_true, if_false, Nat.add_zero]

theorem flatMap_unfold_flatMap (frames : List Frame) :
    (frames.flatMap unfold).flatMap unfold = frames.flatMap unfold := by
  induction frames with
  | nil => rfl
  | cons frame frames ih =>
    rw [List.flatMap_cons, List.flatMap_append, ih]
    cases frame <;> rfl

end Frame

theorem Scope.admits_of_levels {scope : Scope} {frames : List Frame} {more : Nat}
    (h : scope.level + Frame.levels frames + more < levelLimit) : scope.admits frames = true :=
  decide_eq_true (Nat.lt_of_le_of_lt (Nat.le_add_right _ more) h)

theorem Scope.admits_unfold (scope : Scope) (frames : List Frame) :
    scope.admits (frames.flatMap Frame.unfold) = scope.admits frames := by
  rw [Scope.admits, Scope.admits, Frame.levels_unfold]

namespace Program

/-- The reader makes no difference between a group as a factor and a group inside a product. -/
theorem read_unfold (scope : Scope) (tokens : List Token) (frames : List Frame) (index : Nat) :
    readOperand scope (frames.flatMap Frame.unfold) index tokens =
        readOperand scope frames index tokens ∧
      readOperator scope (frames.flatMap Frame.unfold) index tokens =
        readOperator scope frames index tokens := by
  induction tokens generalizing frames index with
  | nil =>
    constructor
    · simp only [readOperand, Scope.admits_unfold]
    · simp only [readOperator, Frame.released_unfold, Frame.held_unfold, Frame.unclosed?_unfold]
  | cons token rest ih =>
    -- The frames behind a new one may be unfolded too, so the hypothesis is used both ways.
    have hcons (frame : Frame) (frames : List Frame) :
        readOperand scope (frame :: frames.flatMap Frame.unfold) (index + 1) rest =
          readOperand scope (frame :: frames) (index + 1) rest := by
      rw [← (ih (frame :: frames) _).1, ← (ih (frame :: frames.flatMap Frame.unfold) _).1,
        List.flatMap_cons, List.flatMap_cons, Frame.flatMap_unfold_flatMap]
    constructor
    · simp only [readOperand, Scope.admits_unfold, (ih frames _).2, hcons]
    · simp only [readOperator, Frame.released_unfold, Frame.held_unfold, Frame.isEmpty_unfold,
        Frame.close?_unfold, hcons]
      cases Frame.close? (Frame.held 0 frames) with
      | none => simp only [Option.map_none]
      | some outer => simp only [Option.map_some, (ih outer _).2]

/-- A group that is a factor can be read as a group for which a product waits. -/
theorem readOperand_product (scope : Scope) (frames : List Frame) (opening index : Nat)
    (tokens : List Token) :
    readOperand scope (.product opening :: frames) index tokens =
      readOperand scope (.group opening :: .factor opening :: frames) index tokens := by
  rw [← (read_unfold scope tokens (.product opening :: frames) index).1,
    ← (read_unfold scope tokens (.group opening :: .factor opening :: frames) index).1]
  rfl

end Program

/-! ## Trees -/

namespace Tree

/-- The steps of a tree whose first token has the index `start`, each operator
after its operands. -/
def steps : Tree → (start : Nat) → List Step
  | literal x, start => [⟨.push x, start + 1⟩]
  | negation t, start => t.steps (start + 1) ++ [⟨.negate, start + 1 + t.width⟩]
  | binary op l r, start =>
    let index := start + l.width
    l.steps start ++ (r.steps (index + 1) ++ [⟨.apply op index, index + 1 + r.width⟩])
  | die _ t, start =>
    ⟨.push (.int 1), start + 1⟩ :: (t.steps (start + 1) ++ [⟨.roll start, start + 1 + t.width⟩])
  | dice _ l r, start =>
    let index := start + l.width
    l.steps start ++ (r.steps (index + 1) ++ [⟨.roll index, index + 1 + r.width⟩])
  | group t, start => t.steps (start + 1)
  | product l r, start =>
    let index := start + l.width
    l.steps start ++ (r.steps index ++ [⟨.apply .mul index, index + r.width⟩])

theorem rightPower_le_power (op : BinaryOp) : op.rightPower ≤ op.power := by
  cases op <;> decide

/-- A tree that an operator takes as a whole is held by whatever that operator is held by. -/
theorem within_of_yields {t : Tree} {power held : Nat} (h : t.yields power = true)
    (hheld : held < power) : t.within held = true := by
  cases t with
  | binary op l r =>
    simp only [yields, Bool.and_eq_true, decide_eq_true_eq] at h
    simp only [within, decide_eq_true_eq]
    have := rightPower_le_power op
    omega
  | dice upper l r | product l r =>
    simp only [yields, Bool.and_eq_true, decide_eq_true_eq] at h
    simp only [within, decide_eq_true_eq]
    omega
  | _ => rfl

/-- The end of a group takes any tree. -/
theorem yields_zero (t : Tree) : t.yields 0 = true := by
  induction t with
  | literal x | group t ih => rfl
  | negation t ih | die upper t ih => simpa [yields] using ih
  | binary op l r ihl ihr | dice upper l r ihl ihr | product l r ihl ihr => simpa [yields] using ihr

/-- A group holds any tree. -/
theorem within_zero (t : Tree) : t.within 0 = true := by
  cases t with
  | binary op l r => cases op <;> rfl
  | _ => rfl

/-- What the reader makes of a written tree, anywhere: it takes the steps of the tree and looks at
what follows with the same frames as before. -/
def ReadAt (t : Tree) (scope : Scope) (frames : List Frame) : Prop :=
  ∀ (start : Nat) (tokens rest : List Token) (power : Nat),
    tokens.map Token.symbol = t.symbols.map .ok →
    nextPower? rest = some power → t.yields power = true →
    Program.readOperand scope frames start (tokens ++ rest) =
      (Program.readOperator scope frames (start + t.width) rest).after (t.steps start)

/-- The operand of a frame is read, and the frame gets it, if what follows is
for neither of them. -/
theorem ReadAt.release {t : Tree} {scope : Scope} {frame : Frame} {frames : List Frame}
    (h : t.ReadAt scope (frame :: frames)) {start power : Nat} {tokens rest : List Token}
    (htokens : tokens.map Token.symbol = t.symbols.map .ok)
    (hnext : nextPower? rest = some power) (hyields : t.yields power = true)
    (hframe : frame.yields power = true) :
    Program.readOperand scope (frame :: frames) start (tokens ++ rest) =
      (Program.readOperator scope frames (start + t.width) rest).after
        (t.steps start ++ Frame.steps (start + t.width) [frame]) := by
  rw [h start tokens rest power htokens hnext hyields,
    Program.readOperator_release hnext hframe, Program.after_after]

/-- An operator whose token stands before its only operand. -/
theorem ReadAt.opening {t : Tree} {scope : Scope} {frames : List Frame} {op : Operator}
    {actions : List Action} {frame : Nat → Frame}
    (hop : ∀ index, op.opening? index = some (actions, frame index))
    (hadmits : scope.admits frames = true) (ht : ∀ index, t.ReadAt scope (frame index :: frames))
    {start next : Nat} {tokens rest : List Token}
    (htokens : tokens.map Token.symbol = (Symbol.operator op :: t.symbols).map .ok)
    (hnext : nextPower? rest = some next) (hyields : t.yields next = true)
    (hframe : ∀ index, (frame index).yields next = true) :
    Program.readOperand scope frames start (tokens ++ rest) =
      (Program.readOperator scope frames (start + (1 + t.width)) rest).after
        (actions.map (⟨·, start + 1⟩) ++ (t.steps (start + 1) ++
          Frame.steps (start + 1 + t.width) [frame start])) := by
  obtain ⟨token, operand, rfl, hsymbol, hoperand⟩ := List.map_eq_cons_iff.mp htokens
  have hrest : obstacle? (operand ++ rest) = none :=
    obstacle?_append hoperand (obstacle?_of_nextPower? hnext)
  rw [List.cons_append, Program.readOperand_open hadmits hsymbol (hop start) hrest,
    (ht start).release hoperand hnext hyields (hframe start), Program.after_after, Nat.add_assoc]

/-- An operator with its token between its operands. -/
theorem ReadAt.between {l r : Tree} {scope : Scope} {frames : List Frame} {op : Operator}
    {power : Nat} {frame : Nat → Frame}
    (hop : ∀ index, op.continuing? index = some (power, frame index))
    (hl : l.ReadAt scope frames) (hr : ∀ index, r.ReadAt scope (frame index :: frames))
    (hheld : scope.holding frames < power) (hyields : l.yields power = true)
    {start next : Nat} {tokens rest : List Token}
    (htokens : tokens.map Token.symbol = (l.symbols ++ .operator op :: r.symbols).map .ok)
    (hnext : nextPower? rest = some next) (hyields' : r.yields next = true)
    (hframe : ∀ index, (frame index).yields next = true) :
    Program.readOperand scope frames start (tokens ++ rest) =
      (Program.readOperator scope frames (start + (l.width + 1 + r.width)) rest).after
        (l.steps start ++ (r.steps (start + l.width + 1) ++
          Frame.steps (start + l.width + 1 + r.width) [frame (start + l.width)])) := by
  rw [List.map_append, List.map_eq_append_iff] at htokens
  obtain ⟨left, tail, rfl, hleft, htail⟩ := htokens
  rw [List.map_cons, List.map_eq_cons_iff] at htail
  obtain ⟨token, right, rfl, hsymbol, hright⟩ := htail
  have hnext' : nextPower? (token :: (right ++ rest)) = some power := by
    simp [nextPower?, hsymbol, hop 0]
  have hrest : obstacle? (right ++ rest) = none :=
    obstacle?_append hright (obstacle?_of_nextPower? hnext)
  rw [List.append_assoc, List.cons_append, hl start left _ power hleft hnext' hyields,
    Program.readOperator_continue hsymbol (hop _) hheld hrest,
    (hr _).release hright hnext hyields' (hframe _), Program.after_after]
  congr 2
  omega

theorem symbols_of_opensGroup {t : Tree} (h : t.opensGroup = true) :
    ∃ more, t.symbols = .operator .leftParen :: more := by
  induction t with
  | literal x | negation t ih | die upper t ih => simp [opensGroup] at h
  | group t ih => exact ⟨_, rfl⟩
  | binary op l r ihl ihr | dice upper l r ihl ihr | product l r ihl ihr =>
    obtain ⟨more, hmore⟩ := ihl h
    exact ⟨_, by rw [symbols, hmore, List.cons_append]⟩

/-- A product without an operator, whose right factor begins with a group. -/
theorem ReadAt.product {l r : Tree} {scope : Scope} {frames : List Frame}
    (hadmits : scope.admits frames = true) (hl : l.ReadAt scope frames)
    (hr : ∀ index, r.ReadAt scope (.factor index :: frames)) (hopens : r.opensGroup = true)
    (hheld : scope.holding frames < productPower) (hyields : l.yields productPower = true)
    {start next : Nat} {tokens rest : List Token}
    (htokens : tokens.map Token.symbol = (l.symbols ++ r.symbols).map .ok)
    (hnext : nextPower? rest = some next) (hyields' : r.yields next = true)
    (hframe : next ≤ productPower) :
    Program.readOperand scope frames start (tokens ++ rest) =
      (Program.readOperator scope frames (start + (l.width + r.width)) rest).after
        (l.steps start ++ (r.steps (start + l.width) ++
          [⟨.apply .mul (start + l.width), start + l.width + r.width⟩])) := by
  rw [List.map_append, List.map_eq_append_iff] at htokens
  obtain ⟨left, right, rfl, hleft, hright⟩ := htokens
  obtain ⟨symbols, hsymbols⟩ := symbols_of_opensGroup hopens
  have hright' := hright
  rw [hsymbols, List.map_cons, List.map_eq_cons_iff] at hright'
  obtain ⟨token, inner, rfl, hsymbol, hinner⟩ := hright'
  have hnext' : nextPower? (token :: (inner ++ rest)) = some productPower := by
    simp [nextPower?, hsymbol, Operator.continuing?]
  have hrest : obstacle? (inner ++ rest) = none :=
    obstacle?_append hinner (obstacle?_of_nextPower? hnext)
  -- the group is read where the right operand of a written product would begin
  have hfactor (index : Nat) : Program.readOperator scope frames index (token :: (inner ++ rest)) =
      Program.readOperand scope (.factor index :: frames) index ((token :: inner) ++ rest) := by
    have hadmits' : scope.admits (.factor index :: frames) = true := by
      simpa [Scope.admits, Frame.levels_cons, Frame.deepens] using hadmits
    rw [Program.readOperator_continue hsymbol rfl hheld hrest, Program.readOperand_product,
      List.cons_append, Program.readOperand_open hadmits' hsymbol rfl hrest, List.map_nil,
      Program.after_nil]
  have hframe' (index : Nat) : (Frame.factor index).yields next = true := decide_eq_true hframe
  rw [List.append_assoc, List.cons_append, hl start left _ productPower hleft hnext' hyields,
    hfactor,
    (hr _).release hright hnext hyields' (hframe' _), Program.after_after, Nat.add_assoc]
  rfl

/-- **Reading a tree.** A tree with its parentheses is read into its steps
wherever it is held loosely enough and not too deep. -/
theorem readAt (t : Tree) (hgrouped : t.grouped = true) (scope : Scope) (frames : List Frame)
    (hwithin : t.within (scope.holding frames) = true)
    (hlevels : scope.level + Frame.levels frames + t.levels < levelLimit) :
    t.ReadAt scope frames := by
  induction t generalizing frames with
  | literal x =>
    intro start tokens rest power htokens hnext _
    obtain ⟨token, rfl, hsymbol⟩ : ∃ token, tokens = [token] ∧ token.symbol = .ok (.number x) := by
      simpa [symbols, List.map_eq_cons_iff] using htokens
    exact Program.readOperand_number (Scope.admits_of_levels hlevels) hsymbol
      (obstacle?_of_nextPower? hnext)
  | negation t ih =>
    intro start tokens rest power htokens hnext hyields
    simp only [grouped, Bool.and_eq_true] at hgrouped
    simp only [yields, Bool.and_eq_true, decide_eq_true_eq] at hyields
    have hread : t.ReadAt scope (.negation :: frames) := by
      refine ih hgrouped.1 _ hgrouped.2 ?_
      simp only [Frame.levels_cons, Frame.deepens, if_true, levels] at hlevels ⊢
      omega
    exact ReadAt.opening (fun _ => rfl) (Scope.admits_of_levels hlevels) (fun _ => hread) htokens
      hnext hyields.2 (fun _ => decide_eq_true hyields.1)
  | die upper t ih =>
    intro start tokens rest power htokens hnext hyields
    simp only [grouped, Bool.and_eq_true] at hgrouped
    simp only [yields, Bool.and_eq_true, decide_eq_true_eq] at hyields
    have hread (index : Nat) : t.ReadAt scope (.dice index :: frames) := by
      refine ih hgrouped.1 _ hgrouped.2 ?_
      simp only [Frame.levels_cons, Frame.deepens, if_true, levels] at hlevels ⊢
      omega
    exact ReadAt.opening (fun _ => rfl) (Scope.admits_of_levels hlevels) hread htokens hnext
      hyields.2 (fun _ => decide_eq_true hyields.1)
  | binary op l r ihl ihr =>
    intro start tokens rest power htokens hnext hyields
    simp only [grouped, Bool.and_eq_true] at hgrouped
    simp only [yields, Bool.and_eq_true, decide_eq_true_eq] at hyields
    simp only [levels] at hlevels
    obtain ⟨⟨⟨hl, hr⟩, hleft⟩, hright⟩ := hgrouped
    have hheld : scope.holding frames < op.power := by simpa [within] using hwithin
    have hreadl : l.ReadAt scope frames :=
      ihl hl frames (within_of_yields hleft hheld) (by omega)
    have hreadr (index : Nat) : r.ReadAt scope (.binary op index :: frames) := by
      refine ihr hr _ hright ?_
      simp only [Frame.levels_cons, Frame.deepens, if_true]
      omega
    exact ReadAt.between (Operator.continuing?_operator op) hreadl hreadr hheld hleft htokens hnext
      hyields.2 (fun index => decide_eq_true hyields.1)
  | dice upper l r ihl ihr =>
    intro start tokens rest power htokens hnext hyields
    simp only [grouped, Bool.and_eq_true] at hgrouped
    simp only [yields, Bool.and_eq_true, decide_eq_true_eq] at hyields
    simp only [levels] at hlevels
    obtain ⟨⟨⟨hl, hr⟩, hleft⟩, hright⟩ := hgrouped
    have hheld : scope.holding frames < dicePower := by simpa [within] using hwithin
    have hreadl : l.ReadAt scope frames :=
      ihl hl frames (within_of_yields hleft hheld) (by omega)
    have hreadr (index : Nat) : r.ReadAt scope (.dice index :: frames) := by
      refine ihr hr _ hright ?_
      simp only [Frame.levels_cons, Frame.deepens, if_true]
      omega
    exact ReadAt.between (fun index => rfl) hreadl hreadr hheld hleft htokens hnext hyields.2
      (fun index => decide_eq_true hyields.1)
  | group t ih =>
    intro start tokens rest power htokens hnext _
    have hread : t.ReadAt scope (.group start :: frames) := by
      refine ih hgrouped _ (within_zero t) ?_
      simp only [Frame.levels_cons, Frame.deepens, if_true, levels] at hlevels ⊢
      omega
    obtain ⟨opening, tail, rfl, hopening, htail⟩ := List.map_eq_cons_iff.mp htokens
    rw [List.map_append, List.map_eq_append_iff] at htail
    obtain ⟨inner, last, rfl, hinner, hlast⟩ := htail
    obtain ⟨closing, rfl, hclosing⟩ : ∃ closing, last = [closing] ∧
        closing.symbol = .ok (.operator .rightParen) := by
      simpa [List.map_eq_cons_iff] using hlast
    -- Inside the group it is the parenthesis that follows, and it takes any tree.
    have hnext' : nextPower? (closing :: rest) = some 0 := by
      simp [nextPower?, hclosing, Operator.continuing?]
    rw [List.cons_append, List.append_assoc, List.singleton_append,
      Program.readOperand_open (Scope.admits_of_levels hlevels) hopening rfl
        (obstacle?_append hinner (obstacle?_of_nextPower? hnext')),
      hread _ inner _ 0 hinner hnext' (yields_zero t),
      Program.readOperator_close hclosing (obstacle?_of_nextPower? hnext)]
    simp only [List.map_nil, Program.after_nil, steps, width, Nat.add_assoc]
  | product l r ihl ihr =>
    intro start tokens rest power htokens hnext hyields
    simp only [grouped, Bool.and_eq_true] at hgrouped
    simp only [yields, Bool.and_eq_true, decide_eq_true_eq] at hyields
    simp only [levels] at hlevels
    obtain ⟨⟨⟨⟨hl, hr⟩, hleft⟩, hright⟩, hopens⟩ := hgrouped
    have hheld : scope.holding frames < productPower := by simpa [within] using hwithin
    have hreadl : l.ReadAt scope frames :=
      ihl hl frames (within_of_yields hleft hheld) (by omega)
    -- A factor opens no level: its group does, and has been counted in the levels of the tree.
    have hreadr (index : Nat) : r.ReadAt scope (.factor index :: frames) := by
      refine ihr hr _ hright ?_
      simp only [Frame.levels_cons, Frame.deepens, Bool.false_eq_true, if_false]
      omega
    exact ReadAt.product (Scope.admits_of_levels hlevels) hreadl hreadr hopens hheld hleft htokens
      hnext hyields.2 hyields.1

end Tree

end DiceNotation
