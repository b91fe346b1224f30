import DiceNotation.Program.Reading

/-!
# DiceNotation.Proofs.Reading

What the reader can do with a token, said once.

The two functions of the reader are one machine in two modes (`Program.read`).
With the tokens that remain it either comes to an end (`Halt`) or consumes one
token, takes some steps and goes on (`Move`).

* `Program.read_induct`: the induction over a whole expression that this gives. What holds of every
  end and is kept by every move holds of the program that is read; the invariants of reading, here
  and in the modules after this one, are instances of it;
* `Program.seen_le_ofTokens`: no step looks further than the program;
* `nextPower?`, `Program.readOperator_release`, `Program.readOperator_complete`: an operand ends
  where something follows that its frames do not bind more tightly than, and there they get it.
-/

namespace DiceNotation

/-! ## The reader as a machine -/

/-- The modes of the reader. -/
inductive Mode where
  /-- An operand is expected. -/
  | operand
  /-- An operand is complete. -/
  | operator
  deriving DecidableEq, Repr

namespace Program

/-- Reads on in a mode. -/
def read (scope : Scope) : Mode → List Frame → Nat → List Token → Program
  | .operand => readOperand scope
  | .operator => readOperator scope

/-- How reading ends, with the program that is left of it. -/
inductive Halt (scope : Scope) (frames : List Frame) (index : Nat) :
    Mode → List Token → Program → Prop
  | tooDeep {tokens} : scope.admits frames = false →
      Halt scope frames index .operand tokens (.stop .tooDeep index)
  | lacking : scope.admits frames = true →
      Halt scope frames index .operand [] (.stop .unexpectedEnd index)
  | unreadable {mode token rest e} : (mode = .operand → scope.admits frames = true) →
      token.symbol = .error e → Halt scope frames index mode (token :: rest) (.stop e index)
  | blocked {token rest symbol e} : scope.admits frames = true → token.symbol = .ok symbol →
      obstacle? rest = some e →
      Halt scope frames index .operand (token :: rest) (.stop e (index + 1))
  | misplacedOperator {token rest op} : scope.admits frames = true →
      token.symbol = .ok (.operator op) → op.opening? index = none → obstacle? rest = none →
      Halt scope frames index .operand (token :: rest) (.stop (.unexpectedValue index) (index + 1))
  | misplacedNumber {token rest x} : token.symbol = .ok (.number x) →
      Halt scope frames index .operator (token :: rest)
        (.stop (.unexpectedValue (index - 1)) index)
  | unclosed {opening} : Frame.unclosed? (Frame.held 0 frames) = some opening →
      Halt scope frames index .operator []
        ((stop (.unclosedGroup opening) index).after (Frame.steps index (Frame.released 0 frames)))
  | complete : Frame.unclosed? (Frame.held 0 frames) = none →
      Halt scope frames index .operator []
        ((finish index).after (Frame.steps index (Frame.released 0 frames)))
  | outside {token rest op power frame} : token.symbol = .ok (.operator op) →
      op.continuing? index = some (power, frame) → Frame.held power frames = [] →
      power ≤ scope.power →
      Halt scope frames index .operator (token :: rest)
        ((finish index).after (Frame.steps index (Frame.released power frames)))
  | blockedOperator {token rest op power frame e} : token.symbol = .ok (.operator op) →
      op.continuing? index = some (power, frame) →
      (Frame.held power frames = [] → scope.power < power) → obstacle? rest = some e →
      Halt scope frames index .operator (token :: rest)
        ((stop e (index + 1)).after (Frame.steps index (Frame.released power frames)))
  | closed {token rest op} : token.symbol = .ok (.operator op) → op.continuing? index = none →
      Frame.close? (Frame.held 0 frames) = none →
      Halt scope frames index .operator (token :: rest)
        ((finish index).after (Frame.steps index (Frame.released 0 frames)))
  | blockedClosing {token rest op outer e} : token.symbol = .ok (.operator op) →
      op.continuing? index = none → Frame.close? (Frame.held 0 frames) = some outer →
      obstacle? rest = some e →
      Halt scope frames index .operator (token :: rest)
        ((stop e (index + 1)).after (Frame.steps index (Frame.released 0 frames)))

/-- How a token is consumed: the steps that are taken, and the mode and the frames after it. -/
inductive Move (scope : Scope) (frames : List Frame) (index : Nat) (token : Token) :
    Mode → List Step → Mode → List Frame → Prop
  | number {x} : scope.admits frames = true → token.symbol = .ok (.number x) →
      Move scope frames index token .operand [⟨.push x, index + 1⟩] .operator frames
  | opening {op actions frame} : scope.admits frames = true →
      token.symbol = .ok (.operator op) → op.opening? index = some (actions, frame) →
      Move scope frames index token .operand (actions.map (⟨·, index + 1⟩)) .operand
        (frame :: frames)
  | continuing {op power frame} : token.symbol = .ok (.operator op) →
      op.continuing? index = some (power, frame) →
      (Frame.held power frames = [] → scope.power < power) →
      Move scope frames index token .operator (Frame.steps index (Frame.released power frames))
        .operand (frame :: Frame.held power frames)
  | closing {op outer} : token.symbol = .ok (.operator op) → op.continuing? index = none →
      Frame.close? (Frame.held 0 frames) = some outer →
      Move scope frames index token .operator (Frame.steps index (Frame.released 0 frames))
        .operator outer

/-- What the reader does where an operand is expected. -/
theorem readOperand_cases (scope : Scope) (frames : List Frame) (index : Nat)
    (tokens : List Token) :
    Halt scope frames index .operand tokens (readOperand scope frames index tokens) ∨
      ∃ token rest steps mode frames', tokens = token :: rest ∧
        Move scope frames index token .operand steps mode frames' ∧ obstacle? rest = none ∧
        readOperand scope frames index tokens =
          (read scope mode frames' (index + 1) rest).after steps := by
  cases hadmits : scope.admits frames with
  | false =>
    left
    cases tokens <;> simpa [readOperand, hadmits] using Halt.tooDeep hadmits
  | true =>
    rcases tokens with _ | ⟨token, rest⟩
    · left
      simpa [readOperand, hadmits] using Halt.lacking hadmits
    · cases hsymbol : token.symbol with
      | error e =>
        left
        simpa only [readOperand, hadmits, if_true, hsymbol] using
          Halt.unreadable (fun _ => hadmits) hsymbol
      | ok symbol =>
        cases hrest : obstacle? rest with
        | some e =>
          left
          simpa only [readOperand, hadmits, if_true, hsymbol, hrest] using
            Halt.blocked hadmits hsymbol hrest
        | none =>
          cases symbol with
          | number x =>
            refine .inr ⟨token, rest, _, _, _, rfl, .number hadmits hsymbol, hrest, ?_⟩
            simp only [readOperand, hadmits, if_true, hsymbol, hrest, read]
          | operator op =>
            cases hop : op.opening? index with
            | none =>
              left
              simpa only [readOperand, hadmits, if_true, hsymbol, hrest, hop] using
                Halt.misplacedOperator hadmits hsymbol hop hrest
            | some opening =>
              refine .inr ⟨token, rest, _, _, _, rfl, .opening hadmits hsymbol hop, hrest, ?_⟩
              simp only [readOperand, hadmits, if_true, hsymbol, hrest, hop, read]

/-- What the reader does after an operand. -/
theorem readOperator_cases (scope : Scope) (frames : List Frame) (index : Nat)
    (tokens : List Token) :
    Halt scope frames index .operator tokens (readOperator scope frames index tokens) ∨
      ∃ token rest steps mode frames', tokens = token :: rest ∧
        Move scope frames index token .operator steps mode frames' ∧ obstacle? rest = none ∧
        readOperator scope frames index tokens =
          (read scope mode frames' (index + 1) rest).after steps := by
  rcases tokens with _ | ⟨token, rest⟩
  · left
    simp only [readOperator]
    cases hunclosed : Frame.unclosed? (Frame.held 0 frames) with
    | none => exact .complete hunclosed
    | some opening => exact .unclosed hunclosed
  · cases hsymbol : token.symbol with
    | error e =>
      left
      have hend : Halt scope frames index .operator (token :: rest) (.stop e index) :=
        .unreadable (by simp) hsymbol
      simpa only [readOperator, hsymbol] using hend
    | ok symbol =>
      cases symbol with
      | number x =>
        left
        simpa only [readOperator, hsymbol] using Halt.misplacedNumber hsymbol
      | operator op =>
        cases hop : op.continuing? index with
        | none =>
          cases hclose : Frame.close? (Frame.held 0 frames) with
          | none =>
            left
            simpa only [readOperator, hsymbol, hop, hclose] using Halt.closed hsymbol hop hclose
          | some outer =>
            cases hrest : obstacle? rest with
            | some e =>
              left
              simpa only [readOperator, hsymbol, hop, hclose, hrest] using
                Halt.blockedClosing hsymbol hop hclose hrest
            | none =>
              refine .inr ⟨token, rest, _, _, _, rfl, .closing hsymbol hop hclose, hrest, ?_⟩
              simp only [readOperator, hsymbol, hop, hclose, hrest, read]
        | some next =>
          obtain ⟨power, frame⟩ := next
          -- An operator ends the expression if no frame holds on and it binds too loosely.
          by_cases hend : Frame.held power frames = [] ∧ power ≤ scope.power
          · left
            simpa [readOperator, hsymbol, hop, hend] using Halt.outside hsymbol hop hend.1 hend.2
          · have hgo : ((Frame.held power frames).isEmpty && decide (power ≤ scope.power)) =
                false := by
              simpa using hend
            have hinside : Frame.held power frames = [] → scope.power < power := by
              simpa using hend
            cases hrest : obstacle? rest with
            | some e =>
              left
              simpa only [readOperator, hsymbol, hop, hgo, hrest, Bool.false_eq_true, if_false]
                using Halt.blockedOperator hsymbol hop hinside hrest
            | none =>
              refine .inr ⟨token, rest, _, _, _, rfl, .continuing hsymbol hop hinside, hrest, ?_⟩
              simp only [readOperator, hsymbol, hop, hgo, hrest, Bool.false_eq_true, if_false, read]

/-- What the reader does, in either mode. -/
theorem read_cases (scope : Scope) (mode : Mode) (frames : List Frame) (index : Nat)
    (tokens : List Token) :
    Halt scope frames index mode tokens (read scope mode frames index tokens) ∨
      ∃ token rest steps mode' frames', tokens = token :: rest ∧
        Move scope frames index token mode steps mode' frames' ∧ obstacle? rest = none ∧
        read scope mode frames index tokens =
          (read scope mode' frames' (index + 1) rest).after steps := by
  cases mode with
  | operand => exact readOperand_cases scope frames index tokens
  | operator => exact readOperator_cases scope frames index tokens

/-- **Induction over an expression.** What holds of the program wherever reading ends, and is kept
by every move, holds of what is read. -/
theorem read_induct (scope : Scope)
    {P : Mode → List Frame → Nat → List Token → Program → Prop}
    (halt : ∀ {mode frames index tokens program},
      Halt scope frames index mode tokens program → P mode frames index tokens program)
    (move : ∀ {mode frames index token rest steps mode' frames' program},
      Move scope frames index token mode steps mode' frames' → obstacle? rest = none →
      P mode' frames' (index + 1) rest program →
      P mode frames index (token :: rest) (program.after steps))
    (tokens : List Token) (mode : Mode) (frames : List Frame) (index : Nat) :
    P mode frames index tokens (read scope mode frames index tokens) := by
  induction tokens generalizing mode frames index with
  | nil =>
    rcases read_cases scope mode frames index [] with h | ⟨_, _, _, _, _, htokens, _⟩
    · exact halt h
    · cases htokens
  | cons token rest ih =>
    rcases read_cases scope mode frames index (token :: rest) with
      h | ⟨_, _, steps, mode', frames', htokens, hmove, hrest, heq⟩
    · exact halt h
    · cases htokens
      rw [heq]
      exact move hmove hrest (ih mode' frames' (index + 1))

/-! ## How far a program has been read -/

end Program

theorem Frame.seen_of_mem_steps {seen : Nat} {frames : List Frame} {step : Step}
    (h : step ∈ Frame.steps seen frames) : step.seen = seen := by
  simp only [Frame.steps, List.mem_filterMap, Option.map_eq_some_iff] at h
  obtain ⟨_, _, _, _, rfl⟩ := h
  rfl

namespace Program

theorem Halt.seen {scope : Scope} {frames : List Frame} {index : Nat} {mode : Mode}
    {tokens : List Token} {program : Program} (h : Halt scope frames index mode tokens program) :
    index ≤ program.seen ∧ ∀ step ∈ program.steps, step.seen ≤ program.seen := by
  have hsteps : ∀ row : List Frame, ∀ step ∈ Frame.steps index row, step.seen ≤ index :=
    fun row step h => Nat.le_of_eq (Frame.seen_of_mem_steps h)
  have hnext : ∀ row : List Frame, ∀ step ∈ Frame.steps index row, step.seen ≤ index + 1 :=
    fun row step h => Nat.le_succ_of_le (hsteps row step h)
  cases h <;> simp [stop, finish] <;> first | exact hsteps _ | exact hnext _

theorem Move.seen {scope : Scope} {frames frames' : List Frame} {index : Nat} {token : Token}
    {mode mode' : Mode} {steps : List Step}
    (h : Move scope frames index token mode steps mode' frames') :
    ∀ step ∈ steps, step.seen ≤ index + 1 := by
  have hsteps : ∀ row : List Frame, ∀ step ∈ Frame.steps index row, step.seen ≤ index + 1 :=
    fun row step h => Nat.le_succ_of_le (Nat.le_of_eq (Frame.seen_of_mem_steps h))
  cases h with
  | number _ _ => simp
  | opening _ _ _ => simp +contextual [eq_comm]
  | continuing _ _ _ => exact hsteps _
  | closing _ _ _ => exact hsteps _

/-- No step looks further than the whole program. -/
theorem seen_le_ofTokens {tokens : List Token} {step : Step} (h : step ∈ (ofTokens tokens).steps) :
    step.seen ≤ (ofTokens tokens).seen := by
  refine (read_induct .whole (P := fun _ _ index _ program =>
    index ≤ program.seen ∧ ∀ step ∈ program.steps, step.seen ≤ program.seen)
    (fun h => h.seen) ?_ tokens .operand [] 0).2 step h
  intro _ _ index _ _ steps _ _ program hmove _ ⟨hindex, hrest⟩
  refine ⟨by simp; omega, fun step hstep => ?_⟩
  rcases List.mem_append.1 hstep with h | h
  · exact Nat.le_trans (hmove.seen step h) hindex
  · exact hrest step h

end Program

/-! ## What a token leads to -/

theorem Token.value_of_symbol {t : Token} {op : Operator} (h : t.symbol = .ok (.operator op)) :
    t.value = .operator op := by
  unfold Token.symbol at h
  split at h
  · cases h
  · split at h <;> cases h
    assumption

theorem Token.value_of_symbol_number {t : Token} {x : Number} (h : t.symbol = .ok (.number x)) :
    t.value = .number x := by
  unfold Token.symbol at h
  split at h
  · cases h
  · split at h <;> cases h
    assumption

theorem Token.symbol_of_value {t : Token} {op : Operator} (h : t.value = .operator op)
    (herror : t.error = none) : t.symbol = .ok (.operator op) := by
  simp only [Token.symbol, herror, h]

/-- Whether an operand can end with a token: with all that stands where a number
can, and with a closing parenthesis. -/
def TokenValue.endsOperand : TokenValue → Bool
  | .number _ | .text _ | .operator .rightParen => true
  | .operator _ => false

/-- **An operand is complete after the last of its tokens**, and after any other one is expected. -/
theorem Program.Move.endsOperand_iff {scope : Scope} {frames frames' : List Frame} {index : Nat}
    {token : Token} {mode mode' : Mode} {steps : List Step}
    (h : Move scope frames index token mode steps mode' frames') :
    token.value.endsOperand = true ↔ mode' = .operator := by
  cases h with
  | number _ hsymbol =>
    rw [Token.value_of_symbol_number hsymbol]
    exact ⟨fun _ => rfl, fun _ => rfl⟩
  | @opening op _ _ _ hsymbol hop =>
    rw [Token.value_of_symbol hsymbol]
    cases op <;> cases hop <;> exact ⟨nofun, nofun⟩
  | @continuing op _ _ hsymbol hop _ =>
    rw [Token.value_of_symbol hsymbol]
    cases op <;> cases hop <;> exact ⟨nofun, nofun⟩
  | @closing op _ hsymbol hop _ =>
    rw [Token.value_of_symbol hsymbol]
    cases op with
    | rightParen => exact ⟨fun _ => rfl, fun _ => rfl⟩
    | _ => cases hop

/-! ## The ends of an operand -/

/-- The power with which the operand being read is held. -/
def Scope.holding (scope : Scope) : List Frame → Nat
  | [] => scope.power
  | frame :: _ => frame.power

/-- The power of what a row of tokens begins with after an operand: none for a
token that cannot follow one, and zero for a closing parenthesis or the end,
which give their operand to every frame. -/
def nextPower? : List Token → Option Nat
  | [] => some 0
  | token :: _ =>
    match token.symbol with
    | .ok (.operator op) => some ((op.continuing? 0).elim 0 Prod.fst)
    | _ => none

/-- The power of an operator does not depend on where it stands. -/
theorem Operator.continuing?_power (op : Operator) (index : Nat) :
    (op.continuing? index).elim 0 Prod.fst = (op.continuing? 0).elim 0 Prod.fst := by
  cases op <;> rfl

theorem obstacle?_of_nextPower? {tokens : List Token} {power : Nat}
    (h : nextPower? tokens = some power) : obstacle? tokens = none := by
  rcases tokens with _ | ⟨token, rest⟩
  · rfl
  · simp only [nextPower?] at h
    simp only [obstacle?]
    cases hsymbol : token.symbol with
    | error e => simp [hsymbol] at h
    | ok symbol => rfl

/-- Tokens that have a meaning can be looked at. -/
theorem obstacle?_append {tokens rest : List Token} {symbols : List Symbol}
    (htokens : tokens.map Token.symbol = symbols.map .ok) (hrest : obstacle? rest = none) :
    obstacle? (tokens ++ rest) = none := by
  rcases tokens with _ | ⟨token, more⟩
  · exact hrest
  · cases symbols with
    | nil => simp at htokens
    | cons symbol symbols =>
      have hsymbol : token.symbol = .ok symbol := (List.cons.inj htokens).1
      simp only [List.cons_append, obstacle?, hsymbol]

namespace Frame

/-- A frame that does not yield keeps its operand open, and so do the frames around it. -/
theorem held_eq_self {power : Nat} {frames : List Frame} {scope : Scope}
    (h : scope.holding frames < power) : held power frames = frames := by
  rcases frames with _ | ⟨frame, frames⟩
  · rfl
  · have hframe : frame.yields power = false := by
      cases frame with
      | group index | product index => rfl
      | _ => simpa [yields, Scope.holding] using h
    rw [held, List.dropWhile_cons, hframe]
    rfl

theorem released_eq_nil {power : Nat} {frames : List Frame} {scope : Scope}
    (h : scope.holding frames < power) : released power frames = [] := by
  have happend := released_append_held power frames
  rw [held_eq_self h] at happend
  exact List.append_left_eq_self.mp happend

theorem released_cons {power : Nat} {frame : Frame} (h : frame.yields power = true)
    (frames : List Frame) : released power (frame :: frames) = frame :: released power frames := by
  rw [released, List.takeWhile_cons_of_pos h, released]

theorem held_cons {power : Nat} {frame : Frame} (h : frame.yields power = true)
    (frames : List Frame) : held power (frame :: frames) = held power frames := by
  rw [held, List.dropWhile_cons_of_pos h, held]

theorem steps_append (seen : Nat) (first second : List Frame) :
    steps seen (first ++ second) = steps seen first ++ steps seen second :=
  List.filterMap_append

end Frame

namespace Program

/-- **The right end.** A frame that yields to what follows gets its operand, and the reader goes on
as if the frame had never been there. -/
theorem readOperator_release {scope : Scope} {frame : Frame} {tokens : List Token} {power : Nat}
    (hnext : nextPower? tokens = some power) (hframe : frame.yields power = true)
    (frames : List Frame) (index : Nat) :
    readOperator scope (frame :: frames) index tokens =
      (readOperator scope frames index tokens).after (Frame.steps index [frame]) := by
  rcases tokens with _ | ⟨token, rest⟩
  · -- The end takes operands over like an operator of power zero.
    obtain rfl : power = 0 := by simpa [nextPower?] using hnext.symm
    rw [readOperator, readOperator, Frame.released_cons hframe, Frame.held_cons hframe, after_after,
      ← Frame.steps_append]
    rfl
  · cases hsymbol : token.symbol with
    | error e => simp [nextPower?, hsymbol] at hnext
    | ok symbol =>
      cases symbol with
      | number x => simp [nextPower?, hsymbol] at hnext
      | operator op =>
        have hpower : (op.continuing? index).elim 0 Prod.fst = power := by
          rw [Operator.continuing?_power]
          simpa [nextPower?, hsymbol] using hnext
        simp only [readOperator, hsymbol]
        cases hcontinuing : op.continuing? index with
        | none =>
          -- So does a closing parenthesis.
          obtain rfl : 0 = power := by simpa [hcontinuing] using hpower
          rw [Frame.released_cons hframe, Frame.held_cons hframe, after_after,
            ← Frame.steps_append]
          rfl
        | some next =>
          obtain rfl : next.1 = power := by simpa [hcontinuing] using hpower
          simp only [Frame.released_cons hframe, Frame.held_cons hframe, after_after,
            ← Frame.steps_append]
          rfl

/-- **The left end.** An operator that binds more tightly than the frame around
its left operand goes into that frame. -/
theorem readOperator_continue {scope : Scope} {frames : List Frame} {token : Token}
    {rest : List Token} {op : Operator} {index power : Nat} {frame : Frame}
    (hsymbol : token.symbol = .ok (.operator op))
    (hop : op.continuing? index = some (power, frame)) (hpower : scope.holding frames < power)
    (hrest : obstacle? rest = none) :
    readOperator scope frames index (token :: rest) =
      readOperand scope (frame :: frames) (index + 1) rest := by
  have hopen : (frames.isEmpty && decide (power ≤ scope.power)) = false := by
    rcases frames with _ | ⟨frame', frames⟩
    · simpa [Scope.holding] using hpower
    · rfl
  simp only [readOperator, hsymbol, hop, Frame.held_eq_self hpower, Frame.released_eq_nil hpower,
    hopen, hrest]
  rfl

/-- An operator where an operand is expected goes into a frame after its own actions. -/
theorem readOperand_open {scope : Scope} {frames : List Frame} {token : Token} {rest : List Token}
    {op : Operator} {index : Nat} {actions : List Action} {frame : Frame}
    (hadmits : scope.admits frames = true) (hsymbol : token.symbol = .ok (.operator op))
    (hop : op.opening? index = some (actions, frame)) (hrest : obstacle? rest = none) :
    readOperand scope frames index (token :: rest) =
      (readOperand scope (frame :: frames) (index + 1) rest).after
        (actions.map (⟨·, index + 1⟩)) := by
  simp only [readOperand, hadmits, hsymbol, hop, hrest]
  rfl

theorem readOperand_number {scope : Scope} {frames : List Frame} {token : Token}
    {rest : List Token} {x : Number} {index : Nat} (hadmits : scope.admits frames = true)
    (hsymbol : token.symbol = .ok (.number x)) (hrest : obstacle? rest = none) :
    readOperand scope frames index (token :: rest) =
      (readOperator scope frames (index + 1) rest).after [⟨.push x, index + 1⟩] := by
  simp only [readOperand, hadmits, hsymbol, hrest]
  rfl

/-- A closing parenthesis closes the group whose content was just read. -/
theorem readOperator_close {scope : Scope} {frames : List Frame} {token : Token}
    {rest : List Token} {opening index : Nat}
    (hsymbol : token.symbol = .ok (.operator .rightParen)) (hrest : obstacle? rest = none) :
    readOperator scope (.group opening :: frames) index (token :: rest) =
      readOperator scope frames (index + 1) rest := by
  simp only [readOperator, hsymbol, Operator.continuing?, hrest]
  rfl

/-- An expression ends before an operator that binds no more tightly than what
it is an operand of. -/
theorem readOperator_nil {scope : Scope} {tokens : List Token} {power : Nat}
    (hnext : nextPower? tokens = some power) (hpower : power ≤ scope.power) (index : Nat) :
    readOperator scope [] index tokens = finish index := by
  rcases tokens with _ | ⟨token, rest⟩
  · rfl
  · cases hsymbol : token.symbol with
    | error e => simp [nextPower?, hsymbol] at hnext
    | ok symbol =>
      cases symbol with
      | number x => simp [nextPower?, hsymbol] at hnext
      | operator op =>
        have hop : (op.continuing? index).elim 0 Prod.fst = power := by
          rw [Operator.continuing?_power]
          simpa [nextPower?, hsymbol] using hnext
        cases hcontinuing : op.continuing? index with
        | none =>
          simp only [readOperator, hsymbol, hcontinuing]
          rfl
        | some next =>
          obtain rfl : next.1 = power := by simpa [hcontinuing] using hop
          simp [readOperator, hsymbol, hcontinuing, Frame.held, Frame.released, Frame.steps, hpower]

/-- An expression is complete when each of its frames gets its operand. -/
theorem readOperator_complete {scope : Scope} {tokens : List Token} {power : Nat}
    (hnext : nextPower? tokens = some power) (hpower : power ≤ scope.power) {frames : List Frame}
    (hframes : ∀ frame ∈ frames, frame.yields power = true) (index : Nat) :
    readOperator scope frames index tokens = (finish index).after (Frame.steps index frames) := by
  induction frames with
  | nil => exact readOperator_nil hnext hpower index
  | cons frame frames ih =>
    obtain ⟨hframe, hframes⟩ := List.forall_mem_cons.1 hframes
    rw [readOperator_release hnext hframe, ih hframes, after_after, ← Frame.steps_append,
      List.singleton_append]

/-- What the reader does where it ends. -/
theorem read_of_halt {scope : Scope} {mode : Mode} {frames : List Frame} {index : Nat}
    {tokens : List Token} {program : Program} (h : Halt scope frames index mode tokens program) :
    read scope mode frames index tokens = program := by
  cases h with
  | tooDeep hadmits => cases tokens <;> simp [read, readOperand, hadmits]
  | lacking hadmits => simp only [read, readOperand, hadmits, if_true]
  | unreadable hadmits hsymbol =>
    cases mode with
    | operand => simp only [read, readOperand, hadmits rfl, if_true, hsymbol]
    | operator => simp only [read, readOperator, hsymbol]
  | blocked hadmits hsymbol hrest => simp only [read, readOperand, hadmits, if_true, hsymbol, hrest]
  | misplacedOperator hadmits hsymbol hop hrest =>
    simp only [read, readOperand, hadmits, if_true, hsymbol, hrest, hop]
  | misplacedNumber hsymbol => simp only [read, readOperator, hsymbol]
  | unclosed hunclosed => simp only [read, readOperator, hunclosed]
  | complete hunclosed => simp only [read, readOperator, hunclosed]
  | outside hsymbol hop hheld hpower => simp [read, readOperator, hsymbol, hop, hheld, hpower]
  | @blockedOperator token rest op power frame e hsymbol hop hinside hrest =>
    have hgo : ((Frame.held power frames).isEmpty && decide (power ≤ scope.power)) = false := by
      simpa using hinside
    simp only [read, readOperator, hsymbol, hop, hgo, hrest, Bool.false_eq_true, if_false]
  | closed hsymbol hop hclose => simp only [read, readOperator, hsymbol, hop, hclose]
  | blockedClosing hsymbol hop hclose hrest =>
    simp only [read, readOperator, hsymbol, hop, hclose, hrest]

/-- What the reader does with a token that it consumes. -/
theorem read_of_move {scope : Scope} {frames frames' : List Frame} {index : Nat} {token : Token}
    {mode mode' : Mode} {steps : List Step} {rest : List Token}
    (h : Move scope frames index token mode steps mode' frames') (hrest : obstacle? rest = none) :
    read scope mode frames index (token :: rest) =
      (read scope mode' frames' (index + 1) rest).after steps := by
  cases h with
  | number hadmits hsymbol => exact readOperand_number hadmits hsymbol hrest
  | opening hadmits hsymbol hop => exact readOperand_open hadmits hsymbol hop hrest
  | @continuing op power frame hsymbol hop hinside =>
    have hgo : ((Frame.held power frames).isEmpty && decide (power ≤ scope.power)) = false := by
      simpa using hinside
    simp only [read, readOperator, hsymbol, hop, hgo, hrest, Bool.false_eq_true, if_false]
  | closing hsymbol hop hclose =>
    simp only [read, readOperator, hsymbol, hop, hclose, hrest]

end Program

end DiceNotation
