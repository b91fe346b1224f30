import DiceNotation.Proofs.Descent.Log
import DiceNotation.Proofs.Evaluator.Coherence
import DiceNotation.Proofs.Running

/-!
# DiceNotation.Proofs.Evaluator.Simulation

The evaluator does what the program does that is read from the same tokens.

Recursive descent has the same routines without values, and its log is the program. So the evaluator
walks along with it. What it does is what the program of the log does on a stack, on top of what
else is there. Where it fails for a value, descent goes on, and the program stops.

* `Evaluator.At`: the evaluator is where descent is;
* `Evaluator.Yields`, `Evaluator.yields_expression`: the values of expressions are finite, so that
  the program can put them on the stack;
* `Evaluator.Matches`, `Evaluator.Simulates`: what a routine comes to, and what descent and the
  program of its log come to from there;
* `Evaluator.simulates`: every routine, by induction on how many calls may be in progress.
-/

namespace DiceNotation.Evaluator

open Descent (Reader Event program)

variable {σ α β : Type}

/-! ## The same place -/

/-- The evaluator is where descent is, and looks at tokens that mean the same. -/
structure At (s : State σ) (d : Descent.State) : Prop where
  coherent : s.Coherent
  index : s.index = d.index
  symbols : (s.tokens.map Token.symbol).drop d.index = d.tokens.map Token.symbol

variable {s s' : State σ} {d d' : Descent.State}

theorem At.congr (h : At s d) (h' : s'.Coherent) (hindex : s'.index = s.index)
    (hsymbols : s'.tokens.map Token.symbol = s.tokens.map Token.symbol) : At s' d :=
  ⟨h', hindex.trans h.index, by rw [hsymbols]; exact h.symbols⟩

theorem At.current (h : At s d) : d.tokens.head?.map Token.symbol = s.current.map .ok := by
  rw [← List.head?_map, ← h.symbols, List.head?_drop, List.getElem?_map, ← h.index]
  exact h.coherent.current

/-- What both look at. -/
theorem At.cases (h : At s d) :
    (d.tokens = [] ∧ s.current = none) ∨
      ∃ token rest symbol, d.tokens = token :: rest ∧ token.symbol = .ok symbol ∧
        s.current = some symbol := by
  have hcurrent := h.current
  rcases htokens : d.tokens with _ | ⟨token, rest⟩
  · rw [htokens] at hcurrent
    exact .inl ⟨rfl, by simpa using hcurrent.symm⟩
  · rw [htokens] at hcurrent
    obtain ⟨symbol, hsymbol, hok⟩ := Option.map_eq_some_iff.1 hcurrent.symm
    exact .inr ⟨token, rest, symbol, rfl, hok.symm, hsymbol⟩

theorem At.symbol?_eq (h : At s d) : Descent.symbol? d.tokens = s.current := by
  rcases h.cases with ⟨htokens, hcurrent⟩ | ⟨token, rest, symbol, htokens, hsymbol, hcurrent⟩
  · rw [htokens, hcurrent]
    rfl
  · rw [htokens, hcurrent, Descent.symbol?_cons hsymbol]

theorem At.nextPower?_eq (h : At s d) : nextPower? d.tokens = leftPower? s.current := by
  rcases h.cases with ⟨htokens, hcurrent⟩ | ⟨token, rest, symbol, htokens, hsymbol, hcurrent⟩
  · rw [htokens, hcurrent]
    rfl
  · rw [htokens, hcurrent, nextPower?, hsymbol]
    cases symbol <;> rfl

theorem At.length (h : At s d) : s.index + d.tokens.length = s.tokens.length := by
  have hlength := congrArg List.length h.symbols
  have hle := h.coherent.index_le
  have hindex := h.index
  simp only [List.length_drop, List.length_map] at hlength
  omega

theorem At.last (h : At s d) (hpos : 0 < d.index) : s.last = some (d.index - 1) := by
  rw [h.coherent.last, h.index, if_neg (Nat.ne_of_gt hpos)]

/-- The log does not matter. -/
theorem At.logged (h : At s d) (log : List Event) : At s { d with events := log } :=
  ⟨h.coherent, h.index, h.symbols⟩

/-! ## Finite values -/

/-- Every value that a routine can have is as `post` says. -/
def Yields (m : Routine σ α) (post : α → Prop) : Prop :=
  ∀ s a x, m s = some a → a.result = .ok x → post x

section

variable {m : Routine σ α} {post : α → Prop}

theorem Yields.bind {next : α → Routine σ β} {post' : β → Prop} (h : Yields m post)
    (hnext : ∀ x, post x → Yields (next x) post') : Yields (m >>= next) post' := by
  intro s b y hb hy
  rcases bind_cases hb with ⟨s', trace, x, c, hm, hc, rfl⟩ | ⟨s', trace, e, hm, rfl⟩
  · exact hnext x (h s _ x hm rfl) s' c y hc hy
  · cases hy

theorem yields_any (m : Routine σ α) : Yields m fun _ => True := fun _ _ _ _ _ => trivial

theorem yields_fail (e : EvalError) : Yields (fail e : Routine σ α) post := by
  intro s a x ha hx
  cases ha
  cases hx

theorem yields_endless : Yields (endless : Routine σ α) post := fun _ _ _ h => by cases h

theorem yields_unexpected : Yields (unexpected : Routine σ α) post := by
  refine (yields_any _).bind fun s _ => ?_
  cases s.last with
  | some last => exact yields_fail _
  | none =>
    intro s a x ha hx
    cases ha
    cases hx

theorem Yields.watched (h : Yields m post) (call : Call) : Yields (watched call m) post := by
  intro s a x ha hx
  obtain ⟨⟨result, s', trace⟩, hb, rfl⟩ := Option.map_eq_some_iff.1 ha
  cases result with
  | ok y => exact h s _ x hb hx
  | error e => cases hx

theorem Yields.nested (h : Yields m post) : Yields (nested m) post := by
  intro s a x ha hx
  unfold Evaluator.nested at ha
  split at ha
  · obtain ⟨b, hb, rfl⟩ := Option.map_eq_some_iff.1 ha
    exact h _ b x hb hx
  · exact yields_fail _ s a x ha hx

end

/-- Whether a number may be put on the stack. -/
def Fine (x : Number) : Prop := finite x = .ok x

theorem yields_value (x : Number) : Yields (value (finite x) : Routine σ Number) Fine := by
  intro s a y ha hy
  cases hx : finite x with
  | error e =>
    rw [hx] at ha
    exact yields_fail e s a y ha hy
  | ok z =>
    rw [hx] at ha
    cases ha
    cases hy
    unfold finite at hx
    split at hx
    · cases hx
      exact if_pos (by assumption)
    · cases hx

variable [Roller σ]

/-- An operand is finite. -/
theorem yields_asPrefix (calls : Nat) (symbol : Option Symbol) (index : Nat) :
    Yields (asPrefix calls symbol index : Routine σ Number) Fine := by
  cases calls with
  | zero => rw [asPrefix_zero]; exact yields_endless
  | succ calls =>
    rw [asPrefix.eq_def]
    refine Yields.watched ?_ _
    rcases symbol with _ | x | op
    · exact yields_unexpected
    · exact yields_value x
    · cases op with
      | sub => exact (yields_any _).bind fun x _ => yields_value _
      | leftParen =>
        exact (yields_any _).bind fun x _ => (yields_any _).bind fun _ _ => yields_value x
      | dice upper =>
        exact (yields_any _).bind fun sides _ => (yields_any _).bind fun x _ => yields_value x
      | add | mul | div | pow | rightParen => exact yields_unexpected

/-- So is the value of an operator. -/
theorem yields_asInfix (calls : Nat) (symbol : Option Symbol) (index : Nat) (left : Number) :
    Yields (asInfix calls symbol index left : Routine σ Number) Fine := by
  cases calls with
  | zero => rw [asInfix_zero]; exact yields_endless
  | succ calls =>
    rw [asInfix.eq_def]
    refine Yields.watched ?_ _
    rcases symbol with _ | x | op
    · exact yields_fail _
    · exact yields_fail _
    · cases op with
      | rightParen => exact yields_fail _
      | leftParen =>
        refine (yields_any _).bind fun inner _ => (yields_any _).bind fun _ _ => ?_
        exact (yields_any _).bind fun right _ => yields_value _
      | add | sub | mul | div | pow | dice _ =>
        exact (yields_any _).bind fun right _ => (yields_any _).bind fun x _ => yields_value x

theorem yields_fold (calls : Nat) {left : Number} (hleft : Fine left) (power : Nat) :
    Yields (fold calls left power : Routine σ Number) Fine := by
  induction calls generalizing left with
  | zero => rw [fold_zero]; exact yields_endless
  | succ calls ih =>
    rw [fold.eq_def]
    refine (yields_any _).bind fun s _ => ?_
    cases leftPower? s.current with
    | none => exact yields_unexpected
    | some next =>
      by_cases hends : next ≤ power
      · simp only [if_pos hends]
        intro s a x ha hx
        cases ha
        cases hx
        exact hleft
      · simp only [if_neg hends]
        refine (yields_any _).bind fun _ _ => (yields_asInfix _ _ _ _).bind fun x hx => ?_
        exact ih hx

/-- **An expression is finite.** -/
theorem yields_expression (calls power : Nat) :
    Yields (expression calls power : Routine σ Number) Fine := by
  cases calls with
  | zero => rw [expression_zero]; exact yields_endless
  | succ calls =>
    rw [expression]
    refine Yields.watched (Yields.nested ?_) _
    refine (yields_any _).bind fun s _ => (yields_any _).bind fun _ _ => ?_
    refine (yields_asPrefix _ _ _).bind fun left hleft => ?_
    exact Yields.watched (yields_fold calls hleft power) _

/-! ## Simulation -/

/-- How a routine that began in the state `s` compares with descent that began at the
same place. Descent came to `result` and `d'` with the events `new`, and the program
of these, with any other after it, runs on `stack`. If the routine succeeds, it
leaves what the program leaves, and its value stands for the stack that the program
hands on. If it fails, so does the program, at the latest where descent failed. -/
inductive Matches (s : State σ) (stack : List Number) (out : α → List Number) (d' : Descent.State)
    (new : List Event) : Answer σ α → Except EvalError Unit → Prop
  | ok {x s' trace} (rolls : List RollEvent) : At s' d' → 0 < d'.index → s'.depth = s.depth →
      s'.rolls = s.rolls ++ rolls.map RollEvent.record →
      s'.tokens = rolls.foldl annotateRoll s.tokens →
      (∀ rest, (program rest new).runOn stack s.tray = (rest.runOn (out x) s'.tray).after rolls) →
      Matches s stack out d' new ⟨.ok x, s', trace⟩ (.ok ())
  | error {e s' trace result} (rolls : List RollEvent) :
      s'.rolls = s.rolls ++ rolls.map RollEvent.record →
      s'.tokens = annotate s.tokens rolls (.error e) →
      (∀ rest, (∀ why, result = .error why → rest = .stop why d'.index) →
        ∃ seen, (program rest new).runOn stack s.tray = ⟨.error e, rolls, seen, s'.tray⟩) →
      Matches s stack out d' new ⟨.error e, s', trace⟩ result

/-- Other events match whose program does the same. -/
theorem Matches.rephrase {out : α → List Number} {stack stack' : List Number}
    {new new' : List Event} {a : Answer σ α} {result : Except EvalError Unit}
    (h : Matches s stack out d' new a result)
    (hsame : ∀ rest,
      (program rest new').runOn stack' s.tray = (program rest new).runOn stack s.tray) :
    Matches s stack' out d' new' a result := by
  cases h with
  | ok rolls hat hpos hdepth hrolls htokens hprogram =>
    exact .ok rolls hat hpos hdepth hrolls htokens fun rest => (hsame rest).trans (hprogram rest)
  | error rolls hrolls htokens hprogram =>
    refine .error rolls hrolls htokens fun rest hstop => ?_
    rw [hsame]
    exact hprogram rest hstop

/-- The log that descent comes to does not matter. -/
theorem Matches.logged {out : α → List Number} {stack : List Number} {new : List Event}
    {a : Answer σ α} {result : Except EvalError Unit} (h : Matches s stack out d' new a result)
    (log : List Event) : Matches s stack out { d' with events := log } new a result := by
  cases h with
  | ok rolls hat hpos hdepth hrolls htokens hprogram =>
    exact .ok rolls (hat.logged log) hpos hdepth hrolls htokens hprogram
  | error rolls hrolls htokens hprogram => exact .error rolls hrolls htokens hprogram

/-- A routine has an answer wherever descent has one, and they match. -/
def Simulates (m : Routine σ α) (out : α → List Number) (s : State σ) (stack : List Number)
    (r : Reader Unit) (d : Descent.State) : Prop :=
  ∀ result d', r.run.run d = some (result, d') →
    ∃ b new, m s = some b ∧ d'.events = d.events ++ new ∧ Matches s stack out d' new b result

variable {m : Routine σ α} {out : α → List Number} {stack : List Number} {r : Reader Unit}

/-- One after the other. -/
theorem Simulates.bind {next : α → Routine σ β} {out' : β → List Number} {r' : Reader Unit}
    (h : Simulates m out s stack r d) (hgrows : Descent.Grows r')
    (hnext : ∀ x s' trace d', m s = some ⟨.ok x, s', trace⟩ → At s' d' → 0 < d'.index →
      s'.depth = s.depth → Simulates (next x) out' s' (out x) r' d') :
    Simulates (m >>= next) out' s stack (r >>= fun _ => r') d := by
  intro result d'' hboth
  rw [Descent.run_bind] at hboth
  obtain ⟨⟨first, d'⟩, hfirst, hrest⟩ := Option.bind_eq_some_iff.1 hboth
  obtain ⟨b, new, hb, hevents, hmatch⟩ := h first d' hfirst
  cases hmatch with
  | @ok x s' trace rolls hat hpos hdepth hrolls htokens hprogram =>
    obtain ⟨c, new', hc, hevents', hmatch'⟩ :=
      hnext x s' trace d' hb hat hpos hdepth result d'' hrest
    have hrun : (m >>= next) s = some (c.after trace) := by
      rw [bind_of_ok hb, hc]
      rfl
    refine ⟨c.after trace, new ++ new', hrun, by rw [hevents', hevents, List.append_assoc], ?_⟩
    cases hmatch' with
    | @ok y s'' trace' rolls' hat' hpos' hdepth' hrolls' htokens' hprogram' =>
      refine .ok (rolls ++ rolls') hat' hpos' (hdepth'.trans hdepth) ?_ ?_
        fun rest => ?_
      · rw [hrolls', hrolls, List.map_append, List.append_assoc]
      · rw [htokens', htokens, List.foldl_append]
      · rw [Descent.program_append, hprogram, hprogram', Run.after_after]
    | @error e s'' trace' result rolls' hrolls' htokens' hprogram' =>
      refine .error (rolls ++ rolls') ?_ ?_ fun rest hstop => ?_
      · rw [hrolls', hrolls, List.map_append, List.append_assoc]
      · rw [htokens', htokens, annotate, annotate, List.foldl_append]
      · obtain ⟨seen, hseen⟩ := hprogram' rest hstop
        exact ⟨seen, by rw [Descent.program_append, hprogram, hseen]; rfl⟩
  | @error e s' trace _ rolls hrolls htokens hprogram =>
    have hrun : (m >>= next) s = some ⟨.error e, s', trace⟩ := bind_of_error hb
    cases first with
    | error why =>
      cases hrest
      exact ⟨_, new, hrun, hevents, .error rolls hrolls htokens hprogram⟩
    | ok done =>
      -- Descent goes on after a failure for a value, and what it logs comes later.
      obtain ⟨new', hnew'⟩ := hgrows d' result d'' hrest
      have hall : d''.events = d.events ++ (new ++ new') := by
        rw [← hnew', hevents, List.append_assoc]
      refine ⟨_, new ++ new', hrun, hall, .error rolls hrolls htokens fun rest hstop => ?_⟩
      rw [Descent.program_append]
      exact hprogram _ fun _ h => by cases h

theorem simulates_endless : Simulates m out s stack Descent.endless d := fun _ _ h => by cases h

theorem get_run (next : Descent.State → Reader Unit) (d : Descent.State) :
    (get >>= next).run.run d = (next d).run.run d := rfl

/-- What matters is what is done in one state. -/
theorem Simulates.congr {m' : Routine σ α} {r' : Reader Unit} (h : Simulates m out s stack r d)
    (hm : m' s = m s) (hr : r'.run.run d = r.run.run d) : Simulates m' out s stack r' d := by
  intro result d' hrun
  rw [hm]
  exact h result d' (hr ▸ hrun)

/-- Watching a call changes nothing but the trace. -/
theorem Simulates.watched (h : Simulates m out s stack r d) (call : Call) :
    Simulates (watched call m) out s stack r d := by
  intro result d' hrun
  obtain ⟨b, new, hb, hevents, hmatch⟩ := h result d' hrun
  have hwatched : Evaluator.watched call m s = (some b).map _ := congrArg (Option.map _) hb
  cases hmatch with
  | ok rolls hat hpos hdepth hrolls htokens hprogram =>
    exact ⟨_, new, hwatched, hevents, .ok rolls hat hpos hdepth hrolls htokens hprogram⟩
  | error rolls hrolls htokens hprogram =>
    exact ⟨_, new, hwatched, hevents, .error rolls hrolls htokens hprogram⟩

/-- An event without a step may be logged first. -/
theorem Simulates.record {event : Event}
    (hevent : ∀ rest new, program rest (event :: new) = program rest new)
    (h : Simulates m out s stack r { d with events := d.events ++ [event] }) :
    Simulates m out s stack (Descent.record event >>= fun _ => r) d := by
  intro result d' hrun
  obtain ⟨b, new, hb, hevents, hmatch⟩ := h result d' hrun
  exact ⟨b, event :: new, hb, by simpa using hevents, hmatch.rephrase fun rest => by rw [hevent]⟩

/-- The end of an expression is logged last. -/
theorem Simulates.leave (h : Simulates m out s stack r d) :
    Simulates m out s stack (r >>= fun _ => Descent.record .leave) d := by
  intro result d' hrun
  rw [Descent.run_bind] at hrun
  obtain ⟨⟨first, d₁⟩, hfirst, hrest⟩ := Option.bind_eq_some_iff.1 hrun
  obtain ⟨b, new, hb, hevents, hmatch⟩ := h first d₁ hfirst
  cases first with
  | error why =>
    cases hrest
    exact ⟨b, new, hb, hevents, hmatch⟩
  | ok done =>
    cases hrest
    have hall : d₁.events ++ [.leave] = d.events ++ (new ++ [.leave]) := by
      rw [hevents, List.append_assoc]
    refine ⟨b, new ++ [.leave], hb, hall, (hmatch.logged _).rephrase fun rest => ?_⟩
    rw [Descent.program_append]
    rfl

/-- One more expression in progress. -/
theorem Simulates.nested (hlevel : s.depth < levelLimit)
    (h : Simulates m out { s with depth := s.depth + 1 } stack r d) :
    Simulates (nested m) out s stack r d := by
  intro result d' hrun
  obtain ⟨b, new, hb, hevents, hmatch⟩ := h result d' hrun
  have hnested : Evaluator.nested m s =
      some { b with state := { b.state with depth := b.state.depth - 1 } } := by
    rw [Evaluator.nested, if_pos hlevel, hb]
    rfl
  cases hmatch with
  | ok rolls hat hpos hdepth hrolls htokens hprogram =>
    refine ⟨_, new, hnested, hevents, .ok rolls ?_ hpos ?_ hrolls htokens hprogram⟩
    · exact hat.congr (hat.coherent.congr rfl rfl rfl rfl rfl) rfl rfl
    · exact congrArg (· - 1) hdepth
  | error rolls hrolls htokens hprogram =>
    exact ⟨_, new, hnested, hevents, .error rolls hrolls htokens hprogram⟩

/-! ## Moving the cursor -/

/-- What a row of tokens begins with, if it can be looked at. -/
theorem head?_of_free {tokens : List Token} (h : obstacle? tokens = none) :
    tokens.head?.map Token.symbol = (Descent.symbol? tokens).map .ok := by
  rcases tokens with _ | ⟨token, rest⟩
  · rfl
  · obtain ⟨symbol, hsymbol⟩ := Descent.exists_symbol h
    simp [Descent.symbol?_cons hsymbol, hsymbol]

theorem head?_of_obstacle {tokens : List Token} {e : EvalError} (h : obstacle? tokens = some e) :
    tokens.head?.map Token.symbol = some (.error e) := by
  rcases tokens with _ | ⟨token, rest⟩
  · cases h
  · cases hsymbol : token.symbol with
    | error why =>
      obtain rfl : why = e := by simpa [obstacle?, hsymbol] using h
      simp [hsymbol]
    | ok symbol => simp [obstacle?, hsymbol] at h

/-- A failure of the evaluator and of descent for the same reason, before which
nothing was done but to move the cursor. -/
theorem Matches.failed {e : EvalError} {new : List Event} {trace : List (Point σ)}
    (hrolls : s'.rolls = s.rolls) (htokens : s'.tokens = annotateError s.tokens e)
    (htray : s'.tray = s.tray) (hnew : ∀ rest, program rest new = rest) :
    Matches s stack out d' new ⟨.error e, s', trace⟩ (.error e) := by
  refine .error [] (by simpa using hrolls) htokens fun rest hstop => ?_
  rw [hnew, hstop e rfl, htray]
  exact ⟨d'.index, rfl⟩

/-- No token is marked for an error that has no mark. -/
theorem annotateError_of_none {e : EvalError} (h : e.mark? = none) (tokens : List Token) :
    annotateError tokens e = tokens := by
  rw [annotateError, h]

theorem simulates_advance (h : At s d) :
    Simulates advance (fun _ => stack) s stack Descent.advance d := by
  obtain ⟨index, tokens, log⟩ := d
  have hlength := h.length
  have hindex : s.index = index := h.index
  intro result d' hrun
  rcases tokens with _ | ⟨token, rest⟩
  · cases (Descent.advance_run_nil index log).symm.trans hrun
    have hend : ¬ s.index < s.tokens.length := by
      rw [List.length_nil] at hlength
      omega
    exact ⟨_, [.advance index], h.coherent.advance_of_end hend, rfl,
      Matches.failed rfl (annotateError_of_none rfl _).symm rfl fun _ => rfl⟩
  · cases (Descent.advance_run_cons index token rest log).symm.trans hrun
    have hlt : s.index < s.tokens.length := by
      rw [List.length_cons] at hlength
      omega
    have hsymbols : (s.tokens.map Token.symbol).drop (index + 1) = rest.map Token.symbol := by
      rw [← List.tail_drop, h.symbols]
      rfl
    have hnext : s.tokens[s.index + 1]?.map Token.symbol = rest.head?.map Token.symbol := by
      rw [← List.getElem?_map, ← List.head?_drop, hindex, hsymbols, List.head?_map]
    have hadvance := h.coherent.advance_of_lt hlt
    cases hobstacle : obstacle? rest with
    | some e =>
      have herror := hnext.trans (head?_of_obstacle hobstacle)
      rw [place_of_error (s := { s with last := some s.index }) herror] at hadvance
      exact ⟨_, [.advance (index + 1)], hadvance, rfl, Matches.failed rfl
        (annotateError_of_none (mark?_of_obstacle? hobstacle) _).symm rfl fun _ => rfl⟩
    | none =>
      have hsymbol := hnext.trans (head?_of_free hobstacle)
      rw [place_of_symbol (s := { s with last := some s.index }) hsymbol] at hadvance
      obtain ⟨_, -, hdone⟩ := keeps_advance (d := 0) h.coherent _ hadvance
      obtain ⟨-, hforward, -⟩ := hdone () rfl
      refine ⟨_, [.advance (index + 1)], hadvance, rfl, .ok [] ?_ (Nat.succ_pos _) rfl
        (List.append_nil _).symm rfl fun _ => rfl⟩
      exact ⟨hforward.coherent, congrArg (· + 1) hindex, hsymbols⟩

theorem simulates_close (h : At s d) (opening : Nat) :
    Simulates (closeGroup opening) (fun _ => stack) s stack (Descent.close opening) d := by
  refine Simulates.watched ?_ _
  by_cases hclosed : s.current = some (.operator .rightParen)
  · refine (simulates_advance h).congr ?_
      (Descent.close_run_of_paren (h.symbol?_eq.trans hclosed) _)
    rw [state_bind, if_pos hclosed]
  · have hrun := Descent.close_run_of_ne (fun heq => hclosed (h.symbol?_eq.symm.trans heq)) opening
    intro result d' hclose
    cases hrun.symm.trans hclose
    have hfail : (state >>= fun s => if s.current = some (.operator .rightParen) then advance
        else fail (.unclosedGroup opening)) s = fail (.unclosedGroup opening) s := by
      rw [state_bind, if_neg hclosed]
    refine ⟨_, [], hfail, (List.append_nil _).symm, ?_⟩
    exact Matches.failed rfl rfl rfl fun _ => rfl

/-- A failure for the token before the cursor. -/
theorem simulates_unexpected (h : At s d) (hpos : 0 < d.index) :
    Simulates unexpected out s stack Descent.unexpected d := by
  intro result d' hrun
  cases hrun
  have hfail : (unexpected : Routine σ α) s = fail (.unexpectedValue (d.index - 1)) s := by
    rw [unexpected, state_bind, h.last hpos]
  exact ⟨_, [], hfail, (List.append_nil _).symm, Matches.failed rfl rfl rfl fun _ => rfl⟩

/-! ## Steps -/

/-- A routine without calls, and the step that does the same. -/
theorem simulates_take {m : Routine σ Number} {out : Number → List Number} {action : Action}
    {b : Answer σ Number} (rolls : List RollEvent) (hb : m s = some b)
    (hperform : Step.perform ⟨action, d.index⟩ stack s.tray =
      ⟨b.result.map out, rolls, d.index, b.state.tray⟩)
    (hrolls : b.state.rolls = s.rolls ++ rolls.map RollEvent.record)
    (htokens : b.state.tokens = annotate s.tokens rolls b.result)
    (hat : ∀ x, b.result = .ok x → At b.state d ∧ b.state.depth = s.depth) (hpos : 0 < d.index) :
    Simulates m out s stack (Descent.take action) d := by
  intro result d' hrun
  cases hrun
  refine ⟨b, [.take ⟨action, d.index⟩], hb, rfl, ?_⟩
  obtain ⟨value, s', trace⟩ := b
  have hrun : ∀ rest : Program, (program rest [.take ⟨action, d.index⟩]).runOn stack s.tray =
      Run.bind ⟨value.map out, rolls, d.index, s'.tray⟩ rest.runOn := by
    intro rest
    show (rest.after [⟨action, d.index⟩]).runOn stack s.tray = _
    rw [Program.runOn_after_cons, hperform]
    rfl
  cases value with
  | ok x =>
    obtain ⟨hplace, hdepth⟩ := hat x rfl
    exact .ok rolls ⟨hplace.coherent, hplace.index, hplace.symbols⟩ hpos hdepth hrolls htokens hrun
  | error e => exact .error rolls hrolls htokens fun rest _ => ⟨d.index, hrun rest⟩

/-- A value that may be put on the stack. -/
theorem simulates_value (h : At s d) (hpos : 0 < d.index) {r : Except EvalError Number}
    {action : Action} {rest : List Number}
    (hperform : ∀ tray : Tray σ, Step.perform ⟨action, d.index⟩ stack tray =
      ⟨r.map (· :: rest), [], d.index, tray⟩) :
    Simulates (value r) (· :: rest) s stack (Descent.take action) d := by
  cases r with
  | ok x =>
    exact simulates_take (b := { result := .ok x, state := s }) [] rfl (hperform s.tray)
      (List.append_nil _).symm rfl (fun _ _ => ⟨h, rfl⟩) hpos
  | error e =>
    exact simulates_take (b := { result := .error e, state := s.blame e }) [] rfl (hperform s.tray)
      (List.append_nil _).symm rfl (fun _ hx => by cases hx) hpos

/-- A roll, the sum of which may be put on the stack. -/
theorem simulates_roll (h : At s d) (hpos : 0 < d.index) (index : Nat) (quantity sides : Number)
    (rest : List Number) :
    Simulates (roll index quantity sides >>= fun x => value (finite x)) (· :: rest) s
      (sides :: quantity :: rest) (Descent.take (.roll index)) d := by
  rcases hroll : s.tray.roll quantity sides with ⟨result, tray⟩
  cases result with
  | error e =>
    have hrun : ∃ trace, roll index quantity sides s =
        some ⟨.error (.roll index e), State.blame { s with tray } (.roll index e), trace⟩ := by
      refine ⟨[.made (.roll index quantity sides) s], ?_⟩
      simp only [roll, watched, hroll]
      rfl
    obtain ⟨trace, hrun⟩ := hrun
    refine simulates_take [] (bind_of_error hrun) ?_ (List.append_nil _).symm rfl
      (fun _ hx => by cases hx) hpos
    rw [Step.perform_roll, Tray.rollAt_of_error hroll]
    rfl
  | ok faces =>
    let rolled : State σ := State.attach { s with tray } index ⟨sides, faces⟩
    let event : RollEvent := ⟨index, d.index - 1, ⟨sides, faces⟩⟩
    have hrun : ∃ trace, roll index quantity sides s =
        some ⟨.ok (RollRecord.sum ⟨sides, faces⟩), rolled, trace⟩ := by
      refine ⟨.made (.roll index quantity sides) s ::
        ([] ++ [.done (.roll index quantity sides) s rolled]), ?_⟩
      simp only [roll, watched, hroll]
      rfl
    obtain ⟨trace, hrun⟩ := hrun
    have hperform : Step.perform ⟨.roll index, d.index⟩ (sides :: quantity :: rest) s.tray =
        ⟨(finite (RollRecord.sum ⟨sides, faces⟩)).map (· :: rest), [event], d.index, tray⟩ := by
      rw [Step.perform_roll, Tray.rollAt_of_ok hroll]
      rfl
    have htokens : rolled.tokens = annotateRoll s.tokens event := by
      simp only [rolled, State.attach, h.last hpos]
      rfl
    have hat : At rolled d := h.congr (h.coherent.attach tray index _) rfl
      (State.map_attach (fun _ _ => rfl) (fun _ _ => rfl) _ index _)
    cases hsum : finite (RollRecord.sum ⟨sides, faces⟩) with
    | ok x =>
      have hvalue : (roll index quantity sides >>= fun x => value (finite x)) s =
          some ⟨.ok x, rolled, trace ++ []⟩ := by
        rw [bind_of_ok hrun, hsum]
        rfl
      exact simulates_take [event] hvalue (hsum ▸ hperform) rfl htokens (fun _ _ => ⟨hat, rfl⟩) hpos
    | error e =>
      have hvalue : (roll index quantity sides >>= fun x => value (finite x)) s =
          some ⟨.error e, rolled.blame e, trace ++ []⟩ := by
        rw [bind_of_ok hrun, hsum]
        rfl
      exact simulates_take [event] hvalue (hsum ▸ hperform) rfl
        (congrArg (annotateError · e) htokens) (fun _ hx => by cases hx) hpos

/-- A number that is handed on. -/
theorem Simulates.handOn {y : Number} {out : Number → List Number} {m : Routine σ Unit}
    (h : Simulates m (fun _ => out y) s stack r d) (hy : Fine y) :
    Simulates (m >>= fun _ => value (finite y)) out s stack r d := by
  intro result d' hrun
  obtain ⟨b, new, hb, hevents, hmatch⟩ := h result d' hrun
  cases hmatch with
  | @ok x s' trace rolls hat hpos hdepth hrolls htokens hprogram =>
    have hvalue : (m >>= fun _ => value (finite y)) s = some ⟨.ok y, s', trace ++ []⟩ := by
      rw [bind_of_ok hb, hy]
      rfl
    exact ⟨_, new, hvalue, hevents, .ok rolls hat hpos hdepth hrolls htokens hprogram⟩
  | error rolls hrolls htokens hprogram =>
    exact ⟨_, new, bind_of_error hb, hevents, .error rolls hrolls htokens hprogram⟩

/-- A number that is put on the stack before. -/
theorem Simulates.push {x : Number} (hx : Fine x)
    (h : ∀ log, Simulates m out s (x :: stack) r { d with events := log }) :
    Simulates m out s stack (Descent.take (.push x) >>= fun _ => r) d := by
  intro result d' hrun
  obtain ⟨b, new, hb, hevents, hmatch⟩ :=
    h (d.events ++ [Event.take ⟨.push x, d.index⟩]) result d' hrun
  have hprogram : ∀ rest : Program,
      (program rest (.take ⟨.push x, d.index⟩ :: new)).runOn stack s.tray =
        (program rest new).runOn (x :: stack) s.tray := by
    intro rest
    have hperform : Step.perform ⟨.push x, d.index⟩ stack s.tray =
        ⟨.ok (x :: stack), [], d.index, s.tray⟩ := by
      show (⟨(finite x).map (· :: stack), [], d.index, s.tray⟩ : Run σ (List Number)) = _
      rw [hx]
      rfl
    show ((program rest new).after [⟨.push x, d.index⟩]).runOn stack s.tray = _
    rw [Program.runOn_after_cons, hperform]
    rfl
  exact ⟨b, .take ⟨.push x, d.index⟩ :: new, hb, by simpa using hevents, hmatch.rephrase hprogram⟩

/-! ## The routines -/

/-- Expressions are evaluated along with descent, if this many calls may be in progress. -/
def ExpressionSimulates (σ : Type) [Roller σ] (calls : Nat) : Prop :=
  ∀ {s : State σ} {d : Descent.State} {level : Nat}, At s d → s.depth + 1 = level →
    ∀ power stack, Simulates (expression calls power) (· :: stack) s stack
      (Descent.expression calls power level) d

/-- What follows an operand is evaluated along with descent, if this many calls
may be in progress. -/
def FoldSimulates (σ : Type) [Roller σ] (calls : Nat) : Prop :=
  ∀ {s : State σ} {d : Descent.State} {level : Nat}, At s d → 0 < d.index → s.depth = level →
    ∀ left power stack, Simulates (fold calls left power) (· :: stack) s (left :: stack)
      (Descent.continueOperand calls power level) d

variable {calls level : Nat}

/-- An expression and what is done with its value. -/
theorem simulates_operand (hexpression : ExpressionSimulates σ calls) (h : At s d)
    (hlevel : s.depth = level) {power : Nat} {next : Number → Routine σ α} {r' : Reader Unit}
    (hgrows : Descent.Grows r')
    (hnext : ∀ x s' d', Fine x → At s' d' → 0 < d'.index → s'.depth = level →
      Simulates (next x) out s' (x :: stack) r' d') :
    Simulates (expression calls power >>= next) out s stack
      (Descent.expression calls power (level + 1) >>= fun _ => r') d := by
  refine (hexpression h (congrArg (· + 1) hlevel) power stack).bind hgrows ?_
  intro x s' trace d' hb hat hpos hdepth
  exact hnext x s' d' (yields_expression calls power s _ x hb rfl) hat hpos (hdepth.trans hlevel)

theorem simulates_asPrefix (hexpression : ExpressionSimulates σ calls) (h : At s d)
    (hpos : 0 < d.index) (hlevel : s.depth = level) (symbol : Option Symbol) (index : Nat)
    (stack : List Number) :
    Simulates (asPrefix (calls + 1) symbol index) (· :: stack) s stack
      (Descent.openOperand (calls + 1) symbol index level) d := by
  rw [asPrefix.eq_def, Descent.openOperand.eq_def]
  refine Simulates.watched (Simulates.record (fun _ _ => rfl) ?_) _
  replace h := h.logged (d.events ++ [.opening symbol])
  rcases symbol with _ | x | op
  · exact simulates_unexpected h hpos
  · exact simulates_value h hpos fun _ => rfl
  · cases op with
    | sub =>
      exact simulates_operand hexpression h hlevel (Descent.grows_take _)
        fun x s' d' _ hat hpos' _ => simulates_value hat hpos' fun _ => rfl
    | leftParen =>
      exact simulates_operand hexpression h hlevel (Descent.grows_close _)
        fun x s' d' hx hat _ _ => (simulates_close hat index).handOn hx
    | dice upper =>
      refine Simulates.push rfl fun log => ?_
      exact simulates_operand hexpression (h.logged log) hlevel (Descent.grows_take _)
        fun sides s' d' _ hat hpos' _ => simulates_roll hat hpos' index _ sides stack
    | add | mul | div | pow | rightParen => exact simulates_unexpected h hpos

/-- What descent never comes to. -/
theorem simulates_missing (out : Number → List Number) (s : State σ) (stack : List Number)
    (d : Descent.State) :
    Simulates (fail .missingOperand) out s stack (throw .missingOperand) d := by
  intro result d' hrun
  cases hrun
  exact ⟨_, [], rfl, (List.append_nil _).symm, Matches.failed rfl rfl rfl fun _ => rfl⟩

theorem simulates_asInfix (hexpression : ExpressionSimulates σ calls)
    (hfold : FoldSimulates σ calls) (h : At s d) (hlevel : s.depth = level)
    (symbol : Option Symbol) (index : Nat) (left : Number) (stack : List Number) :
    Simulates (asInfix (calls + 1) symbol index left) (· :: stack) s (left :: stack)
      (Descent.joinOperand (calls + 1) symbol index level) d := by
  rw [asInfix.eq_def, Descent.joinOperand.eq_def]
  refine Simulates.watched (Simulates.record (fun _ _ => rfl) ?_) _
  replace h := h.logged (d.events ++ [.continuing symbol])
  rcases symbol with _ | x | op
  · exact simulates_missing _ _ _ _
  · exact simulates_missing _ _ _ _
  · cases op with
    | rightParen => exact simulates_missing _ _ _ _
    | dice upper =>
      exact simulates_operand hexpression h hlevel (Descent.grows_take _)
        fun sides s' d' _ hat hpos' _ => simulates_roll hat hpos' index left sides stack
    | leftParen =>
      have hcontinue := (Descent.grows calls).2.2.1 productPower level
      refine simulates_operand hexpression h hlevel ((Descent.grows_close _).bind fun _ =>
        hcontinue.bind fun _ => Descent.grows_take _) fun inner s₁ d₁ _ hat₁ _ hlevel₁ => ?_
      refine (simulates_close hat₁ index).bind (hcontinue.bind fun _ => Descent.grows_take _) ?_
      intro _ s₂ _ d₂ _ hat₂ hpos₂ hdepth₂
      have hwatched := (hfold hat₂ hpos₂ (hdepth₂.trans hlevel₁) inner productPower
        (left :: stack)).watched (.continueExpression inner productPower)
      refine hwatched.bind (Descent.grows_take _) ?_
      exact fun right s₃ _ d₃ _ hat₃ hpos₃ _ => simulates_value hat₃ hpos₃ fun _ => rfl
    | add | sub | mul | div | pow =>
      refine simulates_operand hexpression h hlevel (Descent.grows_take _)
        fun right s' d' _ hat hpos' _ => ?_
      exact (simulates_value hat hpos' fun _ => rfl).congr (value_bind _ _ _) rfl

theorem simulates_fold
    (hjoin : ∀ {s : State σ} {d : Descent.State} {level : Nat}, At s d → s.depth = level →
      ∀ symbol index left stack, Simulates (asInfix calls symbol index left) (· :: stack) s
        (left :: stack) (Descent.joinOperand calls symbol index level) d)
    (hfold : FoldSimulates σ calls) : FoldSimulates σ (calls + 1) := by
  intro s d level h hpos hlevel left power stack
  rw [fold.eq_def, Descent.continueOperand.eq_def]
  refine Simulates.congr ?_ (state_bind _ s) (get_run _ d)
  rw [h.nextPower?_eq, h.symbol?_eq, ← h.index]
  cases leftPower? s.current with
  | none => exact simulates_unexpected h hpos
  | some next =>
    by_cases hends : next ≤ power
    · simp only [if_pos hends]
      intro result d' hrun
      cases hrun
      exact ⟨_, [], rfl, (List.append_nil _).symm, .ok [] h hpos rfl (List.append_nil _).symm rfl
        fun _ => rfl⟩
    · simp only [if_neg hends]
      have hcontinue := (Descent.grows calls).2.2.1 power level
      refine (simulates_advance h).bind
        (((Descent.grows calls).2.2.2 _ _ _).bind fun _ => hcontinue) ?_
      intro _ s₁ _ d₁ _ hat₁ _ hdepth₁
      refine (hjoin hat₁ (hdepth₁.trans hlevel) _ _ left stack).bind hcontinue ?_
      intro x s₂ _ d₂ _ hat₂ hpos₂ hdepth₂
      exact hfold hat₂ hpos₂ (hdepth₂.trans (hdepth₁.trans hlevel)) x power stack

theorem simulates_expression
    (hopen : ∀ {s : State σ} {d : Descent.State} {level : Nat}, At s d → 0 < d.index →
      s.depth = level → ∀ symbol index stack, Simulates (asPrefix calls symbol index) (· :: stack) s
        stack (Descent.openOperand calls symbol index level) d)
    (hfold : FoldSimulates σ calls) : ExpressionSimulates σ (calls + 1) := by
  intro s d level h hlevel power stack
  rw [expression, Descent.expression]
  refine Simulates.watched (Simulates.congr ?_ rfl (get_run _ d)) _
  rw [h.symbol?_eq, ← h.index]
  have hopened := (Descent.grows calls).2.1 s.current s.index level
  have hcontinue := (Descent.grows calls).2.2.1 power level
  have hleave := hcontinue.bind fun _ => Descent.grows_record .leave
  by_cases hdeep : s.depth < levelLimit
  · have henter : ∀ rest new, program rest (.enter s.index level :: new) = program rest new := by
      intro rest new
      rw [program, if_pos (by omega)]
    refine Simulates.record henter (Simulates.nested hdeep ?_)
    refine Simulates.congr ?_ (state_bind _ _) rfl
    have hat : At { s with depth := s.depth + 1 }
        { d with events := d.events ++ [.enter s.index level] } :=
      (h.logged _).congr (h.coherent.congr rfl rfl rfl rfl rfl) rfl rfl
    refine (simulates_advance hat).bind (hopened.bind fun _ => hleave) ?_
    intro _ s₁ _ d₁ _ hat₁ hpos₁ hdepth₁
    refine (hopen hat₁ hpos₁ (hdepth₁.trans hlevel) _ _ stack).bind hleave ?_
    intro left s₂ _ d₂ _ hat₂ hpos₂ hdepth₂
    have hlevel₂ : s₂.depth = level := hdepth₂.trans (hdepth₁.trans hlevel)
    exact ((hfold hat₂ hpos₂ hlevel₂ left power stack).watched _).leave
  · -- The program stops here, wherever descent goes on to.
    intro result d' hrun
    have hgrows := Descent.grows_advance.bind fun _ => hopened.bind fun _ => hleave
    obtain ⟨new, hnew⟩ := hgrows { d with events := d.events ++ [.enter s.index level] }
      result d' hrun
    refine ⟨_, .enter s.index level :: new, if_neg hdeep, by simp [← hnew], ?_⟩
    refine .error [] (List.append_nil _).symm rfl fun rest _ => ⟨s.index, ?_⟩
    rw [program, if_neg (by omega)]
    rfl

/-- **Every routine** does what the program of descent does. -/
theorem simulates (calls : Nat) :
    ExpressionSimulates σ calls ∧ FoldSimulates σ calls ∧
      (∀ {s : State σ} {d : Descent.State} {level : Nat}, At s d → 0 < d.index → s.depth = level →
        ∀ symbol index stack, Simulates (asPrefix calls symbol index) (· :: stack) s stack
          (Descent.openOperand calls symbol index level) d) ∧
      ∀ {s : State σ} {d : Descent.State} {level : Nat}, At s d → s.depth = level →
        ∀ symbol index left stack, Simulates (asInfix calls symbol index left) (· :: stack) s
          (left :: stack) (Descent.joinOperand calls symbol index level) d := by
  induction calls with
  | zero =>
    simp only [ExpressionSimulates, FoldSimulates, Descent.expression_zero,
      Descent.openOperand_zero, Descent.continueOperand_zero, Descent.joinOperand_zero,
      simulates_endless, implies_true, and_self]
  | succ calls ih =>
    obtain ⟨hexpression, hfold, hopen, hjoin⟩ := ih
    exact ⟨simulates_expression hopen hfold, simulates_fold hjoin hfold,
      fun h hpos hlevel => simulates_asPrefix hexpression h hpos hlevel,
      fun h hlevel => simulates_asInfix hexpression hfold h hlevel⟩

end DiceNotation.Evaluator
