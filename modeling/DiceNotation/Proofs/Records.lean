import DiceNotation.Proofs.Annotations
import DiceNotation.Proofs.Extents.Sides
import DiceNotation.Roller.Stepping
import Mathlib.Data.List.Nodup
import Mathlib.Data.List.Pairwise

/-!
# DiceNotation.Proofs.Records

The records that an evaluation leaves at the tokens, and the list of its records.

* `lastRecord?`, `getElem?_annotateRolls`: a token ends up with the last record that was put there;
* `Program.run_ordered`: the rolls of a run have the extents of the expression, in their order;
* `Tray.evaluate_records`: the records at dice are the list of records, one at each, and the record
  at the end of an operand is that of the outermost roll which ended there;
* `Tray.ends_kept_iff`: so a record is lost from the end of its operand if an
  outer roll with another record ends there too.
-/

namespace DiceNotation

/-! ## Records at tokens -/

/-- The record of the last roll that has a property. -/
def lastRecord? (p : RollEvent → Bool) (rolls : List RollEvent) : Option RollRecord :=
  (rolls.filter p).getLast?.map RollEvent.record

@[simp] theorem lastRecord?_nil (p : RollEvent → Bool) : lastRecord? p [] = none := rfl

theorem lastRecord?_cons (p : RollEvent → Bool) (event : RollEvent) (rolls : List RollEvent) :
    lastRecord? p (event :: rolls) =
      (lastRecord? p rolls).or (if p event then some event.record else none) := by
  unfold lastRecord?
  by_cases h : p event = true
  · rw [List.filter_cons_of_pos h, List.getLast?_cons, if_pos h]
    cases (rolls.filter p).getLast? <;> rfl
  · rw [List.filter_cons_of_neg h, if_neg h, Option.or_none]

/-- There is a last roll if there is any. -/
theorem isSome_lastRecord? (p : RollEvent → Bool) (rolls : List RollEvent) :
    (lastRecord? p rolls).isSome = rolls.any p := by
  induction rolls with
  | nil => rfl
  | cons event rolls ih =>
    rw [lastRecord?_cons, Option.isSome_or, ih, List.any_cons, Bool.or_comm]
    cases p event <;> rfl

theorem exists_of_lastRecord? {p : RollEvent → Bool} {rolls : List RollEvent} {record : RollRecord}
    (h : lastRecord? p rolls = some record) :
    ∃ event ∈ rolls, p event = true ∧ event.record = record := by
  obtain ⟨event, hlast, hrecord⟩ := Option.map_eq_some_iff.1 h
  obtain ⟨hmem, hp⟩ := List.mem_filter.1 (List.mem_of_getLast? hlast)
  exact ⟨event, hmem, hp, hrecord⟩

/-- If a roll has the property, there is a last one. -/
theorem lastRecord?_of_mem {p : RollEvent → Bool} {rolls : List RollEvent} {event : RollEvent}
    (hmem : event ∈ rolls) (hp : p event = true) :
    ∃ last ∈ rolls, p last = true ∧ lastRecord? p rolls = some last.record := by
  have hany : (lastRecord? p rolls).isSome = true := by
    rw [isSome_lastRecord?]
    exact List.any_eq_true.2 ⟨event, hmem, hp⟩
  obtain ⟨record, hrecord⟩ := Option.isSome_iff_exists.1 hany
  obtain ⟨last, hlast, hplast, rfl⟩ := exists_of_lastRecord? hrecord
  exact ⟨last, hlast, hplast, hrecord⟩

/-- Of dice that roll once, the last record is the only one. -/
theorem lastRecord?_operator {rolls : List RollEvent} (h : (rolls.map RollEvent.operator).Nodup)
    (index : Nat) (record : RollRecord) :
    lastRecord? (·.operator = index) rolls = some record ↔
      ∃ event ∈ rolls, event.operator = index ∧ event.record = record := by
  constructor
  · intro hlast
    obtain ⟨event, hevent, hoperator, hrecord⟩ := exists_of_lastRecord? hlast
    exact ⟨event, hevent, of_decide_eq_true hoperator, hrecord⟩
  · rintro ⟨event, hevent, rfl, rfl⟩
    obtain ⟨last, hlast, hoperator, hrecord⟩ :=
      lastRecord?_of_mem (p := (·.operator = event.operator)) hevent (decide_eq_true rfl)
    have hsame : last = event :=
      List.inj_on_of_nodup_map h hlast hevent (of_decide_eq_true hoperator)
    rw [hrecord, hsame]

/-- A token after rolls. -/
def Token.afterRolls (t : Token) (index : Nat) (rolls : List RollEvent) : Token :=
  { t with
    roll := (lastRecord? (·.operator = index) rolls).or t.roll
    rollResult := (lastRecord? (·.operandEnd = index) rolls).or t.rollResult }

/-- **The last record that is put at a token stays.** -/
theorem getElem?_annotateRolls (tokens : List Token) (rolls : List RollEvent) (index : Nat) :
    (rolls.foldl annotateRoll tokens)[index]? = tokens[index]?.map (·.afterRolls index rolls) := by
  induction rolls generalizing tokens with
  | nil => simp [Token.afterRolls]
  | cons event rolls ih =>
    rw [List.foldl_cons, ih]
    simp only [annotateRoll, List.getElem?_modify]
    cases tokens[index]? with
    | none => rfl
    | some t =>
      simp only [Option.map_some, Token.afterRolls, lastRecord?_cons, Option.or_assoc]
      by_cases hoperator : event.operator = index <;> by_cases hend : event.operandEnd = index <;>
        simp [hoperator, hend, Token.withRoll, Token.withRollResult]

variable {σ : Type} [Roller σ]

namespace Tray

/-- An error takes no record away. -/
theorem evaluate_map_records {α : Type} (f : Token → α) (hmark : ∀ t mark, f (t.mark mark) = f t)
    (tray : Tray σ) (e : Expression) (index : Nat) :
    (tray.evaluate e).1.tokens[index]?.map f =
      e.tokens[index]?.map fun t =>
        f (t.afterRolls index ((Program.ofTokens e.tokens).run tray.reset).rolls) := by
  have hannotate : ∀ (rolls : List RollEvent) (result : Except EvalError Number),
      (annotate e.tokens rolls result).map f = (rolls.foldl annotateRoll e.tokens).map f := by
    intro rolls result
    unfold annotate
    cases result with
    | ok x => rfl
    | error why => exact map_annotateError hmark _ why
  rw [← List.getElem?_map, evaluate, hannotate, List.getElem?_map, getElem?_annotateRolls,
    Option.map_map]
  rfl

/-- The roll of a token: the last that was made there, or the one from before. -/
theorem evaluate_roll (tray : Tray σ) (e : Expression) (index : Nat) :
    (tray.evaluate e).1.tokens[index]?.map Token.roll =
      e.tokens[index]?.map fun t =>
        (lastRecord? (·.operator = index) ((Program.ofTokens e.tokens).run tray.reset).rolls).or
          t.roll :=
  evaluate_map_records Token.roll (fun _ _ => rfl) tray e index

/-- The roll whose operand ends at a token: the last that ended there, or the one from before. -/
theorem evaluate_rollResult (tray : Tray σ) (e : Expression) (index : Nat) :
    (tray.evaluate e).1.tokens[index]?.map Token.rollResult =
      e.tokens[index]?.map fun t =>
        (lastRecord? (·.operandEnd = index) ((Program.ofTokens e.tokens).run tray.reset).rolls).or
          t.rollResult :=
  evaluate_map_records Token.rollResult (fun _ _ => rfl) tray e index

end Tray

/-- Where there was no record before, a token has the last one that was put there. -/
theorem map_or_eq_some_iff {tokens : List Token} {old : Token → Option RollRecord}
    (hfresh : ∀ t ∈ tokens, old t = none) {index : Nat} {last? : Option RollRecord}
    {record : RollRecord} (hread : last? = some record → index < tokens.length) :
    tokens[index]?.map (fun t => last?.or (old t)) = some (some record) ↔ last? = some record := by
  constructor
  · intro h
    obtain ⟨t, ht, hrecord⟩ := Option.map_eq_some_iff.1 h
    rwa [hfresh t (List.mem_of_getElem? ht), Option.or_none] at hrecord
  · intro hlast
    rw [List.getElem?_eq_getElem (hread hlast), Option.map_some, hlast, Option.some_or]

/-! ## The rolls of a run -/

theorem Ordered.of_isPrefix {dice : List Nat} {index : Nat} {first extents : List Extent}
    (h : Ordered dice index extents) (hfirst : first <+: extents) : Ordered dice index first :=
  have hsub : ∀ x ∈ first, x ∈ extents := fun _ hx => hfirst.subset hx
  ⟨h.precedes.sublist hfirst.sublist, fun x hx => h.nonempty x (hsub x hx),
    fun x hx => h.ends x (hsub x hx), fun x hx => h.begins x (hsub x hx)⟩

namespace Program

/-- **The rolls of a run lie in the expression as they should**, in the order of their extents. -/
theorem run_ordered (tokens : List Token) (tray : Tray σ) :
    Ordered [] 0 (((ofTokens tokens).run tray).rolls.map RollEvent.extent) ∧
      ∀ event ∈ ((ofTokens tokens).run tray).rolls, event.extent.Placed tokens := by
  obtain ⟨hmade, -⟩ := (ofTokens tokens).run_extents tray
  refine ⟨(ordered_ofTokens tokens).of_isPrefix hmade, ?_⟩
  intro event hevent
  exact extents_placed tokens _ (hmade.subset (List.mem_map_of_mem hevent))

end Program

/-- No two rolls are made by the same dice. -/
theorem Ordered.nodup_operators {dice : List Nat} {index : Nat} {extents : List Extent}
    (h : Ordered dice index extents) : (extents.map Extent.operator).Nodup := by
  apply List.pairwise_map.2
  apply h.precedes.imp_of_mem
  intro x y hx _ hxy
  have hnonempty := h.nonempty x hx
  rcases hxy.apart with hinside | hbefore
  · exact Nat.ne_of_gt hinside.1
  · exact Nat.ne_of_lt (Nat.lt_trans hnonempty hbefore)

/-- Of two rolls that end at one token the inner one comes first. -/
theorem Ordered.inner_first {dice : List Nat} {index : Nat} {extents : List Extent}
    (h : Ordered dice index extents) :
    extents.Pairwise fun x y => x.operandEnd = y.operandEnd → y.operator < x.operator := by
  apply h.precedes.imp_of_mem
  intro x y _ hy hxy hend
  have hnonempty := h.nonempty y hy
  rcases hxy.apart with hinside | hbefore
  · exact hinside.1
  · -- The later roll would begin after the token at which both end.
    have hbefore : x.operandEnd < y.operator := hbefore
    omega

namespace Tray

/-- **Records at tokens and the list of records tell of the same rolls.** The tokens that have a
roll are the dice of the records, one for each, and hold the record of it. The rolls are in the
order of their extents, from a dice operator to the last token of its sides: none ends before an
earlier one, inner rolls come before outer ones that end with them, and of any two one is inside the
other or before it. The tokens that have the roll of an operand are the ends of extents, and hold
the last record that ends there. All this holds of failed evaluations too. -/
theorem evaluate_records (tray : Tray σ) {e : Expression}
    (hfresh : ∀ t ∈ e.tokens, t.roll = none ∧ t.rollResult = none) :
    let rolls := ((Program.ofTokens e.tokens).run tray.reset).rolls
    let result := (tray.evaluate e).1
    result.rolls = rolls.map RollEvent.record ∧
    (rolls.map RollEvent.operator).Nodup ∧
    (∀ index record, result.tokens[index]?.map Token.roll = some (some record) ↔
      ∃ event ∈ rolls, event.operator = index ∧ event.record = record) ∧
    (∀ event ∈ rolls, ReadsDice e.tokens event.operator ∧ event.operator < event.operandEnd ∧
      EndsOperand e.tokens dicePower (event.operator + 1) event.operandEnd) ∧
    (rolls.map RollEvent.extent).Pairwise (fun x y =>
      x.operandEnd ≤ y.operandEnd ∧ (x.operandEnd = y.operandEnd → y.operator < x.operator) ∧
        (x.Inside y ∨ x.Before y)) ∧
    ∀ index record, result.tokens[index]?.map Token.rollResult = some (some record) ↔
      lastRecord? (·.operandEnd = index) rolls = some record := by
  intro rolls result
  obtain ⟨hordered, hplaced⟩ := Program.run_ordered e.tokens tray.reset
  have hnonempty : ∀ event ∈ rolls, event.operator < event.operandEnd := fun event hevent =>
    hordered.nonempty _ (List.mem_map_of_mem hevent)
  have hnodup : (rolls.map RollEvent.operator).Nodup := by
    have hnodup := hordered.nodup_operators
    rwa [List.map_map] at hnodup
  refine ⟨rfl, hnodup, ?_, ?_, ?_, ?_⟩
  · intro index record
    rw [tray.evaluate_roll e index, ← lastRecord?_operator hnodup]
    apply map_or_eq_some_iff fun t ht => (hfresh t ht).1
    intro hlast
    obtain ⟨event, hevent, rfl, -⟩ := (lastRecord?_operator hnodup _ _).1 hlast
    obtain ⟨upper, hreads⟩ := (hplaced event hevent).dice
    exact hreads.lt_length
  · intro event hevent
    exact ⟨(hplaced event hevent).dice, hnonempty event hevent, (hplaced event hevent).sides⟩
  · have hboth := hordered.precedes.and hordered.inner_first
    exact hboth.imp fun h => ⟨h.1.operandEnd_le, h.2, h.1.apart⟩
  · intro index record
    rw [tray.evaluate_rollResult e index]
    apply map_or_eq_some_iff fun t ht => (hfresh t ht).2
    intro hlast
    obtain ⟨event, hevent, hend, -⟩ := exists_of_lastRecord? hlast
    obtain rfl : event.operandEnd = index := of_decide_eq_true hend
    obtain ⟨symbol, hreads⟩ := (hplaced event hevent).last
    exact hreads.lt_length

/-- Dice in the sides of dice, once in parentheses and once not, before a division that fails. -/
theorem evaluate_records_nested :
    let tray : Tray Roller.Stepping := ⟨some 9, 0, ⟨3, 1⟩⟩
    let e := Expression.scan "2d(d4) + dd6 / 0"
    let result := (tray.evaluate e).1
    (∀ t ∈ e.tokens, t.roll = none ∧ t.rollResult = none) ∧
      ((Program.ofTokens e.tokens).run tray.reset).rolls.map RollEvent.extent =
        [⟨3, 4⟩, ⟨1, 5⟩, ⟨8, 9⟩, ⟨7, 9⟩] ∧
      result.tokens[8]?.map Token.roll = some (some ⟨.int 6, [6]⟩) ∧
      result.tokens[9]?.map Token.rollResult = some (some ⟨.int 6, [1]⟩) := by
  intro tray e result
  have hfresh : ∀ t ∈ e.tokens, t.roll = none ∧ t.rollResult = none := by decide +kernel
  obtain ⟨-, -, hrolls, -, -, hends⟩ := tray.evaluate_records hfresh
  refine ⟨hfresh, by decide +kernel, (hrolls 8 _).2 ?_, (hends 9 _).2 ?_⟩
  · exact ⟨⟨8, 9, ⟨.int 6, [6]⟩⟩, by decide +kernel, rfl, rfl⟩
  · decide +kernel

/-- **When no record is lost from the end of its operand**: when rolls that end
at one token have the same record. -/
theorem ends_kept_iff (tray : Tray σ) (e : Expression) :
    let rolls := ((Program.ofTokens e.tokens).run tray.reset).rolls
    let result := (tray.evaluate e).1
    (∀ event ∈ rolls,
      result.tokens[event.operandEnd]?.map Token.rollResult = some (some event.record)) ↔
      rolls.Pairwise fun x y => x.operandEnd = y.operandEnd → x.record = y.record := by
  intro rolls result
  obtain ⟨-, hplaced⟩ := Program.run_ordered e.tokens tray.reset
  -- The end of an operand has the last record that ends there, and there is one.
  have hends : ∀ event ∈ rolls, ∃ last ∈ rolls, last.operandEnd = event.operandEnd ∧
      result.tokens[event.operandEnd]?.map Token.rollResult = some (some last.record) := by
    intro event hevent
    obtain ⟨symbol, hreads⟩ := (hplaced event hevent).last
    have hread : event.operandEnd < e.tokens.length := hreads.lt_length
    obtain ⟨last, hlast, hend, hrecord⟩ :=
      lastRecord?_of_mem (p := (·.operandEnd = event.operandEnd)) hevent (decide_eq_true rfl)
    refine ⟨last, hlast, of_decide_eq_true hend, ?_⟩
    rw [tray.evaluate_rollResult e, List.getElem?_eq_getElem hread, Option.map_some, hrecord,
      Option.some_or]
  constructor
  · intro hkept
    apply List.pairwise_of_forall_mem_list
    intro x hx y hy hend
    have hx := hkept x hx
    rw [hend, hkept y hy] at hx
    exact (Option.some.inj (Option.some.inj hx)).symm
  · intro hpairwise event hevent
    obtain ⟨last, hlast, hend, hresult⟩ := hends event hevent
    have : Std.Symm fun x y : RollEvent => x.operandEnd = y.operandEnd → x.record = y.record :=
      ⟨fun x y h hend => (h hend.symm).symm⟩
    rw [hresult, hpairwise.forall_of_forall (fun _ _ _ => rfl) hlast hevent hend]

/-- In `dd6` both rolls end at the last token, which keeps the outer one: the record of the inner
roll is not found at the end of its sides. -/
theorem end_lost_of_dice_in_dice :
    let tray : Tray Roller.Stepping := ⟨some 1000, 0, ⟨3, 1⟩⟩
    let e := Expression.scan "dd6"
    (∀ t ∈ e.tokens, t.roll = none ∧ t.rollResult = none) ∧
      ¬ ∀ event ∈ ((Program.ofTokens e.tokens).run tray.reset).rolls,
        (tray.evaluate e).1.tokens[event.operandEnd]?.map Token.rollResult =
          some (some event.record) := by
  decide +kernel

end Tray

end DiceNotation
