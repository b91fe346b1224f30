import DiceNotation.Proofs.Descent

/-!
# DiceNotation.Proofs.Descent.Reading

Recursive descent comes to an end, and to the program that is read.

* `Does`: a reader comes to an end, and in a certain way;
* `Passage`: what holds of all that a reader does, from one place in the tokens to a later one.
  Passages are put together, so it is enough to look at the events one by one;
* `expressionReads`: an expression that is read by descent, and what the reader of frames reads from
  the same place;
* `extends_succ`: more calls change no answer;
* `exists_read`: an account of any expression.

The induction is on the number of tokens that are left, for all functions together: an expression is
begun or gone on with after a token was consumed, two calls later at most, so that twice as many
calls as there are tokens are enough. The frames are those of the calls in progress, so that a level
is the number of levels that the frames make.
-/

namespace DiceNotation.Descent

/-! ## Readers that come to an end -/

section

variable {α β : Type}

/-- A reader comes to an end, and as `post` says. -/
def Does (reader : Reader α) (s : State) (post : Except EvalError α → State → Prop) : Prop :=
  ∃ result s', reader.run.run s = some (result, s') ∧ post result s'

theorem Does.mono {reader : Reader α} {s : State} {post post' : Except EvalError α → State → Prop}
    (h : Does reader s post) (hpost : ∀ result s', post result s' → post' result s') :
    Does reader s post' := by
  obtain ⟨result, s', hrun, hdone⟩ := h
  exact ⟨result, s', hrun, hpost result s' hdone⟩

theorem run_bind (reader : Reader α) (next : α → Reader β) (s : State) :
    (reader >>= next).run.run s = (reader.run.run s).bind fun (result, s') =>
      match result with
      | .ok a => (next a).run.run s'
      | .error e => some (.error e, s') := by
  show (reader.run.run s).bind _ = _
  congr 1
  funext x
  obtain ⟨result, s'⟩ := x
  cases result <;> rfl

/-- A reader goes on with another if it does not fail. -/
theorem Does.bind {reader : Reader α} {next : α → Reader β} {s : State}
    {post : Except EvalError β → State → Prop}
    (h : Does reader s fun result s' =>
      match result with
      | .ok a => Does (next a) s' post
      | .error e => post (.error e) s') : Does (reader >>= next) s post := by
  obtain ⟨result, s', hrun, hnext⟩ := h
  cases result with
  | error e => exact ⟨.error e, s', by rw [run_bind, hrun]; rfl, hnext⟩
  | ok a =>
    obtain ⟨result, s'', hrun', hpost⟩ := hnext
    exact ⟨result, s'', by rw [run_bind, hrun]; exact hrun', hpost⟩

end

/-! ## Passages -/

/-- Whether the level of every expression that is begun is the number of expressions in progress,
itself among them, if there are `depth` of them in the beginning. -/
def Levelled : Nat → List Event → Prop
  | _, [] => True
  | depth, event :: events =>
    (∀ index level, event = .enter index level → level = depth + 1) ∧
      Levelled (event.depth depth) events

theorem levelled_append {depth : Nat} {first second : List Event} :
    Levelled depth (first ++ second) ↔
      Levelled depth first ∧ Levelled (first.foldl Event.depth depth) second := by
  induction first generalizing depth with
  | nil => simp [Levelled]
  | cons event first ih => simp [Levelled, ih, and_assoc]

/-- What tokens are asked for: to begin an operand if they are tokens, and to go
on with one if they are operators that can. -/
def Event.Expected : Event → Prop
  | .opening symbol => symbol ≠ none
  | .continuing symbol => ∃ op, symbol = some (.operator op) ∧ op ≠ .rightParen
  | .enter _ _ | .leave | .advance _ | .take _ => True

/-- Whether recursive descent can fail with an error: it looks at tokens, and neither at the number
of expressions in progress nor at values. -/
def Findable (tokens : List Token) : EvalError → Prop
  | .unexpectedValue _ | .unexpectedEnd | .unclosedGroup _ => True
  | .lexical text => ∃ token ∈ tokens, token.symbol = .error (.lexical text)
  | .unreadable => ∃ token ∈ tokens, token.symbol = .error .unreadable
  | .zeroDivision _ | .roll _ _ | .tooDeep | .notFinite | .missingOperand => False

theorem findable_of_symbol {token : Token} {tokens : List Token} {e : EvalError}
    (hmem : token ∈ tokens) (h : token.symbol = .error e) : Findable tokens e := by
  have herror := h
  unfold Token.symbol at herror
  split at herror
  · cases herror
    exact ⟨token, hmem, h⟩
  · split at herror <;> cases herror
    exact ⟨token, hmem, h⟩

theorem Findable.mono {tokens tokens' : List Token} {e : EvalError} (h : Findable tokens e)
    (hsubset : tokens ⊆ tokens') : Findable tokens' e := by
  cases e with
  | lexical _ | unreadable =>
    obtain ⟨token, hmem, hsymbol⟩ := h
    exact ⟨token, hsubset hmem, hsymbol⟩
  | unexpectedValue _ | unexpectedEnd | unclosedGroup _ => trivial
  | zeroDivision _ | roll _ _ | tooDeep | notFinite | missingOperand => exact h.elim

theorem findable_of_obstacle? {tokens : List Token} {e : EvalError}
    (h : obstacle? tokens = some e) : Findable tokens e := by
  rcases tokens with _ | ⟨token, rest⟩
  · cases h
  · simp only [obstacle?] at h
    split at h
    · next hsymbol =>
      cases h
      exact findable_of_symbol List.mem_cons_self hsymbol
    · cases h

/-- What is done between two states, with `depth` expressions in progress at the first. -/
structure Passage (depth : Nat) (s : State) (new : List Event) (result : Except EvalError Unit)
    (s' : State) : Prop where
  events : s'.events = s.events ++ new
  index_le : s.index ≤ s'.index
  length : s'.index + s'.tokens.length = s.index + s.tokens.length
  suffix : s'.tokens <:+ s.tokens
  /-- The cursor goes from token to token. It may be moved once more at the end
  of all tokens, where it stays, and that fails. -/
  positions : ∃ stuck,
    Descent.positions new = List.range' (s.index + 1) (s'.index - s.index) ++ stuck ∧
    (stuck = [] ∨ stuck = [s'.index] ∧ result ≠ .ok ())
  levelled : Levelled depth new
  depth : result = .ok () → new.foldl Event.depth depth = depth
  expected : ∀ event ∈ new, event.Expected
  findable : ∀ e, result = .error e → Findable s.tokens e

theorem Passage.trans {depth : Nat} {s s' s'' : State} {new new' : List Event}
    {result : Except EvalError Unit} (h : Passage depth s new (.ok ()) s')
    (h' : Passage depth s' new' result s'') : Passage depth s (new ++ new') result s'' where
  events := by rw [h'.events, h.events, List.append_assoc]
  index_le := Nat.le_trans h.index_le h'.index_le
  length := h'.length.trans h.length
  suffix := h'.suffix.trans h.suffix
  positions := by
    obtain ⟨stuck, hpositions, hstuck⟩ := h.positions
    obtain ⟨stuck', hpositions', hstuck'⟩ := h'.positions
    obtain rfl : stuck = [] := hstuck.resolve_right fun hfailed => hfailed.2 rfl
    have hle := h.index_le
    have hle' := h'.index_le
    refine ⟨stuck', ?_, hstuck'⟩
    have hrange : List.range' (s.index + 1) (s''.index - s.index) =
        List.range' (s.index + 1) (s'.index - s.index) ++
          List.range' (s'.index + 1) (s''.index - s'.index) := by
      have hsplit : s''.index - s.index = (s'.index - s.index) + (s''.index - s'.index) := by omega
      have hstart : s'.index + 1 = s.index + 1 + 1 * (s'.index - s.index) := by omega
      rw [hsplit, hstart, List.range'_append]
    rw [positions_append, hpositions, hpositions', hrange, List.append_nil, List.append_assoc]
  levelled := levelled_append.2 ⟨h.levelled, (h.depth rfl).symm ▸ h'.levelled⟩
  depth hok := by rw [List.foldl_append, h.depth rfl, h'.depth hok]
  expected := List.forall_mem_append.2 ⟨h.expected, h'.expected⟩
  findable e herror := (h'.findable e herror).mono h.suffix.subset

/-- A reader makes a passage, with events, a result and a state as `post` says. -/
def Passes (depth : Nat) (s : State) (reader : Reader Unit)
    (post : List Event → Except EvalError Unit → State → Prop) : Prop :=
  Does reader s fun result s' => ∃ new, Passage depth s new result s' ∧ post new result s'

variable {depth : Nat} {s : State} {post : List Event → Except EvalError Unit → State → Prop}

/-- A passage goes on with the passage of the next reader. -/
theorem Passes.bind {reader next : Reader Unit}
    (h : Passes depth s reader fun new result s' =>
      match result with
      | .ok () => Passes depth s' next fun new' result s'' => post (new ++ new') result s''
      | .error e => post new (.error e) s') :
    Passes depth s (reader >>= fun _ => next) post := by
  refine Does.bind (h.mono ?_)
  rintro (e | ⟨⟨⟩⟩) s' ⟨new, hpassage, hnext⟩
  · exact ⟨new, hpassage, hnext⟩
  · refine Does.mono hnext ?_
    rintro result s'' ⟨new', hpassage', hpost⟩
    exact ⟨new ++ new', hpassage.trans hpassage', hpost⟩

theorem Passes.mono {reader : Reader Unit}
    {post' : List Event → Except EvalError Unit → State → Prop} (h : Passes depth s reader post)
    (hpost : ∀ new result s', post new result s' → post' new result s') :
    Passes depth s reader post' :=
  Does.mono h fun result s' ⟨new, hpassage, hdone⟩ => ⟨new, hpassage, hpost new result s' hdone⟩

theorem passage_still {result : Except EvalError Unit}
    (hfindable : ∀ e, result = .error e → Findable s.tokens e) : Passage depth s [] result s where
  events := (List.append_nil _).symm
  index_le := Nat.le_refl _
  length := rfl
  suffix := List.suffix_rfl
  positions := ⟨[], by rw [Nat.sub_self]; rfl, .inl rfl⟩
  levelled := trivial
  depth _ := rfl
  expected := List.forall_mem_nil _
  findable := hfindable

/-- A reader that does nothing but to succeed or fail. -/
theorem passes_still {reader : Reader Unit} {result : Except EvalError Unit}
    (hrun : reader.run.run s = some (result, s))
    (hfindable : ∀ e, result = .error e → Findable s.tokens e) (hpost : post [] result s) :
    Passes depth s reader post :=
  ⟨result, s, hrun, [], passage_still hfindable, hpost⟩

/-- A reader that does nothing but to fail. -/
theorem passes_throw {reader : Reader Unit} {e : EvalError}
    (hrun : reader.run.run s = some (.error e, s)) (hfindable : Findable s.tokens e)
    (hpost : post [] (.error e) s) : Passes depth s reader post :=
  passes_still hrun (fun _ h => by cases h; exact hfindable) hpost

theorem passes_get {next : State → Reader Unit} (h : Passes depth s (next s) post) :
    Passes depth s (get >>= next) post := h

theorem passage_record {event : Event} (hposition : event.position? = none)
    (hdepth : ∀ d, event.depth d = d) (hlevel : ∀ index level, event ≠ .enter index level)
    (hexpected : event.Expected) :
    Passage depth s [event] (.ok ()) { s with events := s.events ++ [event] } where
  events := rfl
  index_le := Nat.le_refl _
  length := rfl
  suffix := List.suffix_rfl
  positions := ⟨[], by simp [positions, hposition], .inl rfl⟩
  levelled := ⟨fun index level h => absurd h (hlevel index level), trivial⟩
  depth _ := hdepth depth
  expected := List.forall_mem_singleton.2 hexpected
  findable := nofun

/-- A reader that adds an event which neither moves the cursor nor begins or ends an expression. -/
theorem passes_record {event : Event} (hposition : event.position? = none)
    (hdepth : ∀ d, event.depth d = d) (hlevel : ∀ index level, event ≠ .enter index level)
    (hexpected : event.Expected)
    (hpost : post [event] (.ok ()) { s with events := s.events ++ [event] }) :
    Passes depth s (record event) post :=
  ⟨.ok (), _, rfl, [event], passage_record hposition hdepth hlevel hexpected, hpost⟩

/-- Reading goes on after such an event with a longer log. -/
theorem passes_record_bind {event : Event} {next : Reader Unit} (hposition : event.position? = none)
    (hdepth : ∀ d, event.depth d = d) (hlevel : ∀ index level, event ≠ .enter index level)
    (hexpected : event.Expected)
    (hnext : ∀ log, Passes depth ⟨s.index, s.tokens, log⟩ next fun new => post (event :: new)) :
    Passes depth s (record event >>= fun _ => next) post :=
  Passes.bind (passes_record hposition hdepth hlevel hexpected (hnext _))

theorem passes_take {action : Action}
    (hpost : ∀ log, post [.take ⟨action, s.index⟩] (.ok ()) ⟨s.index, s.tokens, log⟩) :
    Passes depth s (take action) post :=
  passes_record rfl (fun _ => rfl) nofun trivial (hpost _)

theorem look_run (s : State) :
    look.run.run s = some ((obstacle? s.tokens).elim (.ok ()) .error, s) := by
  have hget : (get : Reader State).run.run s = some (.ok s, s) := rfl
  rw [look, run_bind, hget]
  dsimp only [Option.bind]
  cases obstacle? s.tokens <;> rfl

theorem advance_run_nil (index : Nat) (log : List Event) :
    advance.run.run ⟨index, [], log⟩ =
      some (.error .unexpectedEnd, ⟨index, [], log ++ [.advance index]⟩) := rfl

theorem advance_run_cons (index : Nat) (token : Token) (rest : List Token) (log : List Event) :
    advance.run.run ⟨index, token :: rest, log⟩ =
      some ((obstacle? rest).elim (.ok ()) .error,
        ⟨index + 1, rest, log ++ [.advance (index + 1)]⟩) := by
  let moved : State := ⟨index + 1, rest, log ++ [.advance (index + 1)]⟩
  have hrun : advance.run.run ⟨index, token :: rest, log⟩ = look.run.run moved := rfl
  exact hrun.trans (look_run moved)

theorem close_run_of_paren (h : symbol? s.tokens = some (.operator .rightParen)) (opening : Nat) :
    (close opening).run.run s = advance.run.run s := by
  have hget : (get : Reader State).run.run s = some (.ok s, s) := rfl
  rw [close, run_bind, hget]
  dsimp only [Option.bind]
  rw [h]

theorem close_run_of_ne (h : symbol? s.tokens ≠ some (.operator .rightParen)) (opening : Nat) :
    (close opening).run.run s = some (.error (.unclosedGroup opening), s) := by
  have hget : (get : Reader State).run.run s = some (.ok s, s) := rfl
  rw [close, run_bind, hget]
  dsimp only [Option.bind]
  split
  · contradiction
  · rfl

/-- At the end of all tokens the cursor stays. -/
theorem passage_advance_nil (index : Nat) (log : List Event) :
    Passage depth ⟨index, [], log⟩ [.advance index] (.error .unexpectedEnd)
      ⟨index, [], log ++ [.advance index]⟩ where
  events := rfl
  index_le := Nat.le_refl _
  length := rfl
  suffix := List.suffix_rfl
  positions := by
    refine ⟨[index], ?_, .inr ⟨rfl, nofun⟩⟩
    rw [Nat.sub_self]
    rfl
  levelled := ⟨nofun, trivial⟩
  depth := nofun
  expected := List.forall_mem_singleton.2 trivial
  findable e h := by cases h; trivial

/-- The cursor goes on to what follows a token. -/
theorem passage_advance_cons (index : Nat) (token : Token) (rest : List Token) (log : List Event) :
    Passage depth ⟨index, token :: rest, log⟩ [.advance (index + 1)]
      ((obstacle? rest).elim (.ok ()) .error)
      ⟨index + 1, rest, log ++ [.advance (index + 1)]⟩ where
  events := rfl
  index_le := Nat.le_succ _
  length := by
    show index + 1 + rest.length = index + (token :: rest).length
    rw [List.length_cons]
    omega
  suffix := List.suffix_cons _ _
  positions := by
    refine ⟨[], ?_, .inl rfl⟩
    show [index + 1] = List.range' (index + 1) (index + 1 - index) ++ []
    rw [Nat.add_sub_cancel_left]
    rfl
  levelled := ⟨nofun, trivial⟩
  depth _ := rfl
  expected := List.forall_mem_singleton.2 trivial
  findable e h := by
    cases hobstacle : obstacle? rest with
    | none =>
      rw [hobstacle] at h
      cases h
    | some found =>
      rw [hobstacle] at h
      cases h
      exact (findable_of_obstacle? hobstacle).mono (List.subset_cons_self _ _)

/-- The cursor is moved to the next token, which may not be readable. At the end
it cannot be moved. -/
theorem passes_advance {index : Nat} {tokens : List Token} {log : List Event}
    (hend : tokens = [] → ∀ log, post [.advance index] (.error .unexpectedEnd) ⟨index, [], log⟩)
    (hnext : ∀ token rest, tokens = token :: rest → ∀ log,
      post [.advance (index + 1)] ((obstacle? rest).elim (.ok ()) .error) ⟨index + 1, rest, log⟩) :
    Passes depth ⟨index, tokens, log⟩ advance post := by
  rcases tokens with _ | ⟨token, rest⟩
  · exact ⟨_, _, advance_run_nil index log, _, passage_advance_nil index log, hend rfl _⟩
  · exact ⟨_, _, advance_run_cons index token rest log, _,
      passage_advance_cons index token rest log, hnext token rest rfl _⟩

/-! ## Descent and frames -/

/-- What is left to read after a passage: nothing if it failed, and else `rest`. -/
def ending (result : Except EvalError Unit) (s : State) (rest : Program) : Program :=
  match result with
  | .ok () => rest
  | .error e => .stop e s.index

/-- What `start` reads with frames is what events say, and what is read with the
same frames from where they end. It is enough to look at frames that make
`depth` expressions and hold an operand with `power`. -/
def ReadsOn (power depth : Nat) (start : Scope → List Frame → Program) (new : List Event)
    (result : Except EvalError Unit) (s' : State) : Prop :=
  ∀ scope frames, scope.holding frames = power → scope.level + Frame.levels frames = depth →
    start scope frames =
      program (ending result s' (Program.readOperator scope frames s'.index s'.tokens)) new

/-- What failed did not succeed. -/
theorem of_error_eq_ok {e : EvalError} {p : Prop}
    (h : (Except.error e : Except EvalError Unit) = .ok ()) : p := by
  cases h

/-- What follows is no token that cannot follow an operand, and binds no more
tightly than `power`. -/
def Ends (power : Nat) (tokens : List Token) : Prop :=
  ∃ next, nextPower? tokens = some next ∧ next ≤ power

/-- Expressions are read by descent as they are with frames, where `count` tokens are left. -/
def ExpressionReads (count : Nat) : Prop :=
  ∀ (calls index : Nat) (tokens : List Token) (log : List Event) (power depth : Nat),
    2 * count < calls → tokens.length = count → obstacle? tokens = none →
    Passes depth ⟨index, tokens, log⟩ (expression calls power (depth + 1)) fun new result s' =>
      (result = .ok () → s'.tokens.length < tokens.length ∧ Ends power s'.tokens) ∧
        ReadsOn power depth (fun scope frames => Program.readOperand scope frames index tokens) new
          result s'

/-- What follows an operand is read by descent as it is with frames, where
`count` tokens are left. -/
def ContinueReads (count : Nat) : Prop :=
  ∀ (calls index : Nat) (tokens : List Token) (log : List Event) (power depth : Nat),
    2 * count < calls → tokens.length = count → obstacle? tokens = none →
    Passes (depth + 1) ⟨index, tokens, log⟩ (continueOperand calls power (depth + 1))
      fun new result s' =>
      (result = .ok () → s'.tokens.length ≤ tokens.length ∧ Ends power s'.tokens) ∧
        ReadsOn power depth (fun scope frames => Program.readOperator scope frames index tokens) new
          result s'

variable {calls index : Nat} {tokens : List Token} {log : List Event}

theorem Ends.obstacle? {power : Nat} {tokens : List Token} (h : Ends power tokens) :
    obstacle? tokens = none :=
  obstacle?_of_nextPower? h.choose_spec.1

theorem yields_of_action? (frame : Frame) {action : Action} (h : frame.action? = some action)
    {power : Nat} (hpower : power ≤ frame.power) : frame.yields power = true := by
  cases frame with
  | group _ | product _ => cases h
  | _ => exact decide_eq_true hpower

/-- An operand of an operator, and the step that takes it. -/
theorem passes_operand (frame : Frame) {action : Action} (haction : frame.action? = some action)
    (hdeepens : frame.deepens = true) (h : ExpressionReads tokens.length)
    (hcalls : 2 * tokens.length < calls) (hfree : obstacle? tokens = none) (depth : Nat) :
    Passes (depth + 1) ⟨index, tokens, log⟩
      (do
        expression calls frame.power (depth + 1 + 1)
        take action) fun new result s' =>
      (result = .ok () → s'.tokens.length < tokens.length ∧ obstacle? s'.tokens = none) ∧
        ∀ scope frames, scope.level + Frame.levels frames = depth →
          Program.readOperand scope (frame :: frames) index tokens =
            program (ending result s' (Program.readOperator scope frames s'.index s'.tokens))
              new := by
  have hlevels : ∀ scope frames, Scope.level scope + Frame.levels frames = depth →
      scope.level + Frame.levels (frame :: frames) = depth + 1 := by
    intro scope frames hdepth
    rw [Frame.levels_cons, hdeepens, if_pos rfl]
    omega
  refine Passes.bind ((h calls index tokens log frame.power (depth + 1) hcalls rfl hfree).mono ?_)
  rintro new (e | ⟨⟨⟩⟩) s' ⟨hends, hreads⟩
  · exact ⟨of_error_eq_ok, fun scope frames hdepth =>
      hreads scope _ rfl (hlevels scope frames hdepth)⟩
  · obtain ⟨hshorter, hends⟩ := hends rfl
    refine passes_take fun _ =>
      ⟨fun _ => ⟨hshorter, hends.obstacle?⟩, fun scope frames hdepth => ?_⟩
    obtain ⟨next, hnext, hpower⟩ := hends
    have hsteps : Frame.steps s'.index [frame] = [⟨action, s'.index⟩] := by
      simp [Frame.steps, haction]
    refine (hreads scope _ rfl (hlevels scope frames hdepth)).trans ?_
    rw [program_append]
    show program (Program.readOperator scope (frame :: frames) s'.index s'.tokens) new = _
    rw [Program.readOperator_release hnext (yields_of_action? frame haction hpower), hsteps]
    rfl

/-- A token that can be looked at has a meaning. -/
theorem exists_symbol {token : Token} {rest : List Token} (h : obstacle? (token :: rest) = none) :
    ∃ symbol, token.symbol = .ok symbol := by
  cases hsymbol : token.symbol with
  | error e => simp [obstacle?, hsymbol] at h
  | ok symbol => exact ⟨symbol, rfl⟩

theorem symbol?_cons {token : Token} {symbol : Symbol} (h : token.symbol = .ok symbol)
    (rest : List Token) : symbol? (token :: rest) = some symbol := by
  rw [symbol?, h]
  rfl

/-- A closing parenthesis is all that ends a group and is not the end. -/
theorem symbol_of_ends {token : Token} {rest : List Token} (h : Ends 0 (token :: rest)) :
    token.symbol = .ok (.operator .rightParen) := by
  obtain ⟨next, hnext, hpower⟩ := h
  obtain rfl : next = 0 := Nat.le_zero.1 hpower
  unfold nextPower? at hnext
  dsimp only at hnext
  split at hnext
  · next op hsymbol =>
    rw [hsymbol]
    cases op <;> first | rfl | cases hnext
  · cases hnext

/-- After the content of a group comes its parenthesis, or the end. -/
theorem passes_close {opening : Nat} (h : Ends 0 tokens)
    (hend : tokens = [] → post [] (.error (.unclosedGroup opening)) ⟨index, [], log⟩)
    (hnext : ∀ token rest, tokens = token :: rest → token.symbol = .ok (.operator .rightParen) →
      ∀ log, post [.advance (index + 1)] ((obstacle? rest).elim (.ok ()) .error)
        ⟨index + 1, rest, log⟩) :
    Passes depth ⟨index, tokens, log⟩ (close opening) post := by
  rcases tokens with _ | ⟨token, rest⟩
  · exact passes_throw rfl trivial (hend rfl)
  · have hsymbol : token.symbol = .ok (.operator .rightParen) := symbol_of_ends h
    rw [close]
    refine passes_get ?_
    rw [symbol?_cons hsymbol]
    refine passes_advance (fun htokens => by cases htokens) fun token' rest' htokens => ?_
    cases htokens
    exact hnext token rest rfl hsymbol

/-- A frame that is a group holds on to its content. -/
theorem held_of_close? {frame : Frame} {frames outer : List Frame}
    (h : Frame.close? (frame :: frames) = some outer) :
    Frame.held 0 (frame :: frames) = frame :: frames ∧ Frame.released 0 (frame :: frames) = [] ∧
      frame.power = 0 ∧ frame.deepens = true := by
  cases frame with
  | group _ | product _ => exact ⟨rfl, rfl, rfl, rfl⟩
  | factor _ | negation | dice _ | binary _ _ => cases h

/-- The content of a group, and the parenthesis that closes it. -/
theorem passes_group (frame : Frame) (outer : List Frame → List Frame) {opening : Nat}
    (hclose : ∀ frames, Frame.close? (frame :: frames) = some (outer frames))
    (hunclosed : ∀ frames, Frame.unclosed? (frame :: frames) = some opening)
    (h : ExpressionReads tokens.length) (hcalls : 2 * tokens.length < calls)
    (hfree : obstacle? tokens = none) (depth : Nat) :
    Passes (depth + 1) ⟨index, tokens, log⟩
      (do
        expression calls 0 (depth + 1 + 1)
        close opening) fun new result s' =>
      (result = .ok () → s'.tokens.length < tokens.length ∧ obstacle? s'.tokens = none) ∧
        ∀ scope frames, scope.level + Frame.levels frames = depth →
          Program.readOperand scope (frame :: frames) index tokens =
            program (ending result s'
              (Program.readOperator scope (outer frames) s'.index s'.tokens)) new := by
  obtain ⟨-, -, hpower, hdeepens⟩ := held_of_close? (hclose [])
  have hlevels : ∀ scope frames, Scope.level scope + Frame.levels frames = depth →
      scope.level + Frame.levels (frame :: frames) = depth + 1 := by
    intro scope frames hdepth
    rw [Frame.levels_cons, hdeepens, if_pos rfl]
    omega
  refine Passes.bind ((h calls index tokens log 0 (depth + 1) hcalls rfl hfree).mono ?_)
  rintro new (e | ⟨⟨⟩⟩) ⟨index', tokens', log'⟩ ⟨hends, hreads⟩
  · exact ⟨of_error_eq_ok, fun scope frames hdepth =>
      hreads scope _ hpower (hlevels scope frames hdepth)⟩
  · obtain ⟨hshorter, hends⟩ := hends rfl
    have hcontent : ∀ scope frames, Scope.level scope + Frame.levels frames = depth →
        Program.readOperand scope (frame :: frames) index tokens =
          program (Program.readOperator scope (frame :: frames) index' tokens') new :=
      fun scope frames hdepth => hreads scope _ hpower (hlevels scope frames hdepth)
    refine passes_close hends ?_ ?_
    · rintro rfl
      refine ⟨of_error_eq_ok, fun scope frames hdepth => ?_⟩
      obtain ⟨hheld, hreleased, -, -⟩ := held_of_close? (hclose frames)
      have hopen : Program.readOperator scope (frame :: frames) index' [] =
          .stop (.unclosedGroup opening) index' := by
        rw [Program.readOperator, hheld, hreleased, hunclosed]
        rfl
      rw [List.append_nil, hcontent scope frames hdepth, hopen]
      rfl
    · rintro token rest rfl hsymbol log
      refine ⟨fun hok => ?_, fun scope frames hdepth => ?_⟩
      · cases hobstacle : obstacle? rest with
        | some e => simp [hobstacle] at hok
        | none =>
          rw [List.length_cons] at hshorter
          exact ⟨Nat.lt_of_succ_lt hshorter, rfl⟩
      · obtain ⟨hheld, hreleased, -, -⟩ := held_of_close? (hclose frames)
        have hclosed : Program.readOperator scope (frame :: frames) index' (token :: rest) =
            ending ((obstacle? rest).elim (.ok ()) .error) ⟨index' + 1, rest, log⟩
              (Program.readOperator scope (outer frames) (index' + 1) rest) := by
          simp only [Program.readOperator, hsymbol, Operator.continuing?, hheld, hreleased, hclose]
          cases obstacle? rest with
          | some e => rfl
          | none => rfl
        rw [hcontent scope frames hdepth, program_append, hclosed]
        rfl

/-! ## The functions -/

/-- What a symbol does where an operand is expected, the token after it having been looked at. -/
theorem passes_openOperand {token : Token} {symbol : Symbol} (hsymbol : token.symbol = .ok symbol)
    (hfree : obstacle? tokens = none) (h : ExpressionReads tokens.length)
    (hcalls : 2 * tokens.length < calls) (depth : Nat) :
    Passes (depth + 1) ⟨index + 1, tokens, log⟩
      (openOperand (calls + 1) (some symbol) index (depth + 1)) fun new result s' =>
        (result = .ok () → s'.tokens.length ≤ tokens.length ∧ obstacle? s'.tokens = none) ∧
          ∀ scope frames, scope.level + Frame.levels frames = depth → scope.admits frames = true →
            Program.readOperand scope frames index (token :: tokens) =
              program (ending result s' (Program.readOperator scope frames s'.index s'.tokens))
                new := by
  rw [openOperand.eq_def]
  dsimp only
  refine passes_record_bind rfl (fun _ => rfl) nofun nofun fun log => ?_
  cases symbol with
  | number x =>
    refine passes_take fun _ => ⟨fun _ => ⟨Nat.le_refl _, hfree⟩, fun scope frames _ hadmits => ?_⟩
    rw [Program.readOperand_number hadmits hsymbol hfree]
    rfl
  | operator op =>
    have hopening : ∀ {actions frame} scope frames, op.opening? index = some (actions, frame) →
        scope.admits frames = true →
        Program.readOperand scope frames index (token :: tokens) =
          (Program.readOperand scope (frame :: frames) (index + 1) tokens).after
            (actions.map (⟨·, index + 1⟩)) :=
      fun scope frames hop hadmits => Program.readOperand_open hadmits hsymbol hop hfree
    cases op with
    | sub =>
      refine Passes.mono (passes_operand .negation rfl rfl h hcalls hfree depth) ?_
      rintro new result s' ⟨hends, hreads⟩
      refine ⟨fun hok => ⟨Nat.le_of_lt (hends hok).1, (hends hok).2⟩,
        fun scope frames hdepth hadmits => ?_⟩
      rw [hopening scope frames rfl hadmits]
      exact hreads scope frames hdepth
    | leftParen =>
      refine Passes.mono
        (passes_group (.group index) id (fun _ => rfl) (fun _ => rfl) h hcalls hfree depth) ?_
      rintro new result s' ⟨hends, hreads⟩
      refine ⟨fun hok => ⟨Nat.le_of_lt (hends hok).1, (hends hok).2⟩,
        fun scope frames hdepth hadmits => ?_⟩
      rw [hopening scope frames rfl hadmits]
      exact hreads scope frames hdepth
    | dice upper =>
      refine passes_record_bind rfl (fun _ => rfl) nofun trivial fun log => ?_
      refine Passes.mono (passes_operand (.dice index) rfl rfl h hcalls hfree depth) ?_
      rintro new result s' ⟨hends, hreads⟩
      refine ⟨fun hok => ⟨Nat.le_of_lt (hends hok).1, (hends hok).2⟩,
        fun scope frames hdepth hadmits => ?_⟩
      rw [hopening scope frames rfl hadmits]
      exact congrArg (Program.after · _) (hreads scope frames hdepth)
    | add | mul | div | pow | rightParen =>
      refine passes_throw rfl trivial ⟨of_error_eq_ok, fun scope frames _ hadmits => ?_⟩
      simp [Program.readOperand, hadmits, hsymbol, hfree, Operator.opening?, ending, program]

theorem readOperator_join {token : Token} {op : Operator} {next power depth : Nat} {frame : Frame}
    (hsymbol : token.symbol = .ok (.operator op)) (hop : op.continuing? index = some (next, frame))
    (hpower : power < next) (hfree : obstacle? tokens = none) {new : List Event}
    {result : Except EvalError Unit} {s' : State}
    (h : ∀ scope frames, scope.level + Frame.levels frames = depth →
      Program.readOperand scope (frame :: frames) (index + 1) tokens =
        program (ending result s' (Program.readOperator scope frames s'.index s'.tokens)) new) :
    ReadsOn power depth
      (fun scope frames => Program.readOperator scope frames index (token :: tokens))
      new result s' := by
  intro scope frames hholding hdepth
  rw [← h scope frames hdepth]
  exact Program.readOperator_continue hsymbol hop (hholding ▸ hpower) hfree

/-- What an operator does after an operand, the token after it having been looked at. -/
theorem passes_joinOperand {token : Token} {op : Operator} {next power : Nat} {frame : Frame}
    (hsymbol : token.symbol = .ok (.operator op)) (hop : op.continuing? index = some (next, frame))
    (hpower : power < next) (hfree : obstacle? tokens = none) (h : ExpressionReads tokens.length)
    (hcontinue : ∀ count < tokens.length, ContinueReads count) (hcalls : 2 * tokens.length < calls)
    (depth : Nat) :
    Passes (depth + 1) ⟨index + 1, tokens, log⟩
      (joinOperand (calls + 1) (some (.operator op)) index (depth + 1)) fun new result s' =>
        (result = .ok () → s'.tokens.length < tokens.length ∧ obstacle? s'.tokens = none) ∧
          ReadsOn power depth
            (fun scope frames => Program.readOperator scope frames index (token :: tokens)) new
            result s' := by
  have hframe : ∀ {action}, frame.action? = some action → frame.deepens = true → ∀ log,
      Passes (depth + 1) ⟨index + 1, tokens, log⟩
        (do
          expression calls frame.power (depth + 1 + 1)
          take action) fun new result s' =>
        (result = .ok () → s'.tokens.length < tokens.length ∧ obstacle? s'.tokens = none) ∧
          ReadsOn power depth
            (fun scope frames => Program.readOperator scope frames index (token :: tokens)) new
            result s' := by
    intro action haction hdeepens log
    refine (passes_operand frame haction hdeepens h hcalls hfree depth).mono ?_
    rintro new result s' ⟨hends, hreads⟩
    exact ⟨hends, readOperator_join hsymbol hop hpower hfree hreads⟩
  rw [joinOperand.eq_def]
  dsimp only
  have hexpected : op ≠ .rightParen := by
    rintro rfl
    cases hop
  refine passes_record_bind rfl (fun _ => rfl) nofun ⟨op, rfl, hexpected⟩ fun log => ?_
  cases op with
  | add | sub | mul | div | pow | dice upper =>
    cases hop
    exact hframe rfl rfl log
  | rightParen => cases hop
  | leftParen =>
    cases hop
    show Passes _ _ (expression calls 0 (depth + 1 + 1) >>= fun _ => close index >>= fun _ => _) _
    rw [← bind_assoc]
    refine Passes.bind (Passes.mono (passes_group (.product index) (.factor index :: ·)
      (fun _ => rfl) (fun _ => rfl) h hcalls hfree depth) ?_)
    rintro new (e | ⟨⟨⟩⟩) ⟨index', tokens', log'⟩ ⟨hends, hreads⟩
    · exact ⟨of_error_eq_ok, readOperator_join hsymbol rfl hpower hfree hreads⟩
    · obtain ⟨hshorter, hfree'⟩ := hends rfl
      have hcalls' : 2 * tokens'.length < calls :=
        Nat.lt_of_le_of_lt (Nat.mul_le_mul_left 2 (Nat.le_of_lt hshorter)) hcalls
      refine Passes.bind (Passes.mono
        (hcontinue tokens'.length hshorter calls index' tokens' log' productPower depth hcalls' rfl
          hfree') ?_)
      rintro new' result s' ⟨hends', hreads'⟩
      -- The factor makes no level: what follows it is read in the expression around it.
      have hfactor : ∀ scope frames, Scope.level scope + Frame.levels frames = depth →
          Program.readOperand scope (.product index :: frames) (index + 1) tokens =
            program (ending result s'
              (Program.readOperator scope (.factor index :: frames) s'.index s'.tokens))
              (new ++ new') := by
        intro scope frames hdepth
        rw [program_append]
        refine (hreads scope frames hdepth).trans (congrArg (program · new) ?_)
        exact hreads' scope (.factor index :: frames) rfl
          (by rw [Frame.levels_cons]; simpa [Frame.deepens] using hdepth)
      cases result with
      | error e => exact ⟨of_error_eq_ok, readOperator_join hsymbol rfl hpower hfree hfactor⟩
      | ok done =>
        obtain ⟨hshorter', hends'⟩ := hends' rfl
        refine passes_take fun _ => ⟨
          fun _ => ⟨Nat.lt_of_le_of_lt hshorter' hshorter, hends'.obstacle?⟩,
          readOperator_join hsymbol rfl hpower hfree fun scope frames hdepth => ?_⟩
        obtain ⟨next, hnext, hnextPower⟩ := hends'
        refine (hfactor scope frames hdepth).trans ?_
        rw [← List.append_assoc]
        refine Eq.trans ?_ (program_append _ (new ++ new') _).symm
        exact congrArg (program · (new ++ new'))
          (Program.readOperator_release hnext
            (yields_of_action? (.factor index) rfl hnextPower) frames s'.index)

/-- **The loop over the operators after an operand.** -/
theorem continueReads {count : Nat} (h : ∀ less < count, ExpressionReads less)
    (hcontinue : ∀ less < count, ContinueReads less) : ContinueReads count := by
  rintro calls index tokens log power depth hcalls rfl hfree
  obtain ⟨calls, rfl⟩ : ∃ less, calls = less + 1 := ⟨calls - 1, by omega⟩
  rw [continueOperand.eq_def]
  refine passes_get ?_
  dsimp only
  rcases tokens with _ | ⟨token, rest⟩
  · exact passes_still rfl (fun _ h => by cases h)
      ⟨fun _ => ⟨Nat.le_refl _, 0, rfl, Nat.zero_le power⟩, fun _ _ _ _ => rfl⟩
  · obtain ⟨symbol, hsymbol⟩ := exists_symbol hfree
    cases symbol with
    | number x =>
      have hnext : nextPower? (token :: rest) = none := by simp [nextPower?, hsymbol]
      rw [hnext]
      refine passes_throw rfl trivial ⟨of_error_eq_ok, fun scope frames _ _ => ?_⟩
      simp [Program.readOperator, hsymbol, ending, program]
    | operator op =>
      have hnext : nextPower? (token :: rest) = some ((op.continuing? index).elim 0 Prod.fst) := by
        rw [Operator.continuing?_power]
        simp [nextPower?, hsymbol]
      rw [hnext]
      show Passes _ _ (if _ then _ else _) _
      split
      case isTrue hends =>
        exact passes_still rfl (fun _ h => by cases h)
          ⟨fun _ => ⟨Nat.le_refl _, _, hnext, hends⟩, fun _ _ _ _ => rfl⟩
      case isFalse hbinds =>
        -- An operator that binds more tightly than something can go on with an operand.
        obtain ⟨next, frame, hop⟩ : ∃ next frame, op.continuing? index = some (next, frame) := by
          cases hop : op.continuing? index with
          | none => simp [hop] at hbinds
          | some found => exact ⟨found.1, found.2, rfl⟩
        have hpower : power < next := by simpa [hop] using hbinds
        refine Passes.bind (passes_advance (fun h => by cases h) ?_)
        rintro token' rest' ⟨⟩ log
        cases hrest : obstacle? rest with
        | some e =>
          refine ⟨of_error_eq_ok, fun scope frames hholding _ => ?_⟩
          have hbelow : scope.holding frames < next := hholding ▸ hpower
          have hinside : Frame.held next frames = [] → scope.power < next := by
            rw [Frame.held_eq_self hbelow]
            rintro rfl
            exact hbelow
          have hblocked := Program.read_of_halt (.blockedOperator hsymbol hop hinside hrest)
          rw [Frame.released_eq_nil hbelow] at hblocked
          exact hblocked
        | none =>
          rw [symbol?_cons hsymbol]
          rw [List.length_cons] at hcalls
          obtain ⟨calls, rfl⟩ : ∃ less, calls = less + 1 := ⟨calls - 1, by omega⟩
          refine Passes.bind (Passes.mono (passes_joinOperand hsymbol hop hpower hrest
            (h _ (Nat.lt_succ_self _))
            (fun less hless => hcontinue less (Nat.lt_succ_of_lt hless)) (by omega) depth) ?_)
          rintro new (e | ⟨⟨⟩⟩) ⟨index', tokens', log'⟩ ⟨hends, hreads⟩
          · exact ⟨of_error_eq_ok, hreads⟩
          · obtain ⟨hshorter, hfree'⟩ := hends rfl
            replace hshorter : tokens'.length < rest.length := hshorter
            refine Passes.mono (hcontinue tokens'.length (Nat.lt_succ_of_lt hshorter) _ index'
              tokens' log' power depth (by omega) rfl hfree') ?_
            rintro new' result s' ⟨hends', hreads'⟩
            refine ⟨fun hok => ⟨?_, (hends' hok).2⟩, fun scope frames hholding hdepth => ?_⟩
            · exact Nat.le_of_lt (Nat.lt_succ_of_lt (Nat.lt_of_le_of_lt (hends' hok).1 hshorter))
            · refine (hreads scope frames hholding hdepth).trans ?_
              refine Eq.trans ?_ (program_append _ new new').symm
              exact congrArg (program · new) (hreads' scope frames hholding hdepth)

/-- An expression that fails does so while it is in progress. -/
theorem Passage.failed {e : EvalError} {new : List Event} {s' : State}
    (h : Passage (depth + 1) ⟨s.index, s.tokens, s.events ++ [.enter s.index (depth + 1)]⟩ new
      (.error e) s') :
    Passage depth s (.enter s.index (depth + 1) :: new) (.error e) s' where
  events := by
    rw [h.events, List.append_assoc]
    rfl
  index_le := h.index_le
  length := h.length
  suffix := h.suffix
  positions := h.positions
  levelled := ⟨fun index level hevent => by cases hevent; rfl, h.levelled⟩
  depth := nofun
  expected := List.forall_mem_cons.2 ⟨trivial, h.expected⟩
  findable := h.findable

/-- An expression that is complete is no longer in progress. -/
theorem Passage.completed {new : List Event} {s' : State}
    (h : Passage (depth + 1) ⟨s.index, s.tokens, s.events ++ [.enter s.index (depth + 1)]⟩ new
      (.ok ()) s') :
    Passage depth s (.enter s.index (depth + 1) :: (new ++ [.leave])) (.ok ())
      ⟨s'.index, s'.tokens, s'.events ++ [.leave]⟩ where
  events := by
    rw [h.events]
    simp
  index_le := h.index_le
  length := h.length
  suffix := h.suffix
  positions := by
    obtain ⟨stuck, hpositions, hstuck⟩ := h.positions
    refine ⟨stuck, ?_, hstuck⟩
    rw [← hpositions]
    show Descent.positions (new ++ [.leave]) = _
    rw [positions_append]
    exact List.append_nil _
  levelled := ⟨fun index level hevent => by cases hevent; rfl,
    levelled_append.2 ⟨h.levelled, nofun, trivial⟩⟩
  depth _ := by
    show (new ++ [Event.leave]).foldl Event.depth (depth + 1) = depth
    rw [List.foldl_append, h.depth rfl]
    rfl
  expected := List.forall_mem_cons.2
    ⟨trivial, List.forall_mem_append.2 ⟨h.expected, List.forall_mem_singleton.2 trivial⟩⟩
  findable := nofun

/-- The calls between the beginning of an expression and its end. -/
theorem passes_within {body : Reader Unit}
    (hbody : ∀ log, Passes (depth + 1) ⟨s.index, s.tokens, log⟩ body fun new result s' =>
      match result with
      | .ok () => ∀ log, post (.enter s.index (depth + 1) :: (new ++ [.leave])) (.ok ())
          ⟨s'.index, s'.tokens, log⟩
      | .error e => post (.enter s.index (depth + 1) :: new) (.error e) s') :
    Passes depth s
      (do
        record (.enter s.index (depth + 1))
        body
        record .leave) post := by
  obtain ⟨result, s', hrun, new, hpassage, hpost⟩ :=
    hbody (s.events ++ [.enter s.index (depth + 1)])
  refine Does.bind ⟨.ok (), _, rfl, Does.bind ⟨result, s', hrun, ?_⟩⟩
  cases result with
  | error e => exact ⟨_, hpassage.failed, hpost⟩
  | ok done => exact ⟨.ok (), _, rfl, _, hpassage.completed, hpost _⟩

/-- An expression that may still be begun. -/
theorem passes_body {power : Nat} (h : ∀ less < tokens.length, ExpressionReads less)
    (hcontinue : ∀ less < tokens.length, ContinueReads less) (hcalls : 2 * tokens.length ≤ calls)
    (hfree : obstacle? tokens = none) :
    Passes (depth + 1) ⟨index, tokens, log⟩
      (do
        advance
        openOperand calls (symbol? tokens) index (depth + 1)
        continueOperand calls power (depth + 1)) fun new result s' =>
      (result = .ok () → s'.tokens.length < tokens.length ∧ Ends power s'.tokens) ∧
        ∀ scope frames, scope.holding frames = power → scope.level + Frame.levels frames = depth →
          scope.admits frames = true →
          Program.readOperand scope frames index tokens =
            program (ending result s' (Program.readOperator scope frames s'.index s'.tokens))
              new := by
  refine Passes.bind (passes_advance ?_ ?_)
  · rintro rfl log
    exact ⟨of_error_eq_ok, fun scope frames _ _ hadmits => Program.read_of_halt (.lacking hadmits)⟩
  · rintro token rest rfl log
    obtain ⟨symbol, hsymbol⟩ := exists_symbol hfree
    cases hrest : obstacle? rest with
    | some e =>
      exact ⟨of_error_eq_ok, fun scope frames _ _ hadmits =>
        Program.read_of_halt (.blocked hadmits hsymbol hrest)⟩
    | none =>
      rw [symbol?_cons hsymbol]
      rw [List.length_cons] at hcalls
      obtain ⟨calls, rfl⟩ : ∃ less, calls = less + 1 := ⟨calls - 1, by omega⟩
      refine Passes.bind (Passes.mono
        (passes_openOperand hsymbol hrest (h _ (Nat.lt_succ_self _)) (by omega) depth) ?_)
      rintro new (e | ⟨⟨⟩⟩) ⟨index', tokens', log'⟩ ⟨hends, hreads⟩
      · exact ⟨of_error_eq_ok, fun scope frames _ hdepth hadmits =>
          hreads scope frames hdepth hadmits⟩
      · obtain ⟨hshorter, hfree'⟩ := hends rfl
        replace hshorter : tokens'.length ≤ rest.length := hshorter
        refine Passes.mono (hcontinue tokens'.length (Nat.lt_succ_of_le hshorter) _ index'
          tokens' log' power depth (by omega) rfl hfree') ?_
        rintro new' result s' ⟨hends', hreads'⟩
        refine ⟨
          fun hok => ⟨Nat.lt_succ_of_le (Nat.le_trans (hends' hok).1 hshorter), (hends' hok).2⟩,
          fun scope frames hholding hdepth hadmits => ?_⟩
        refine (hreads scope frames hdepth hadmits).trans ?_
        refine Eq.trans ?_ (program_append _ new new').symm
        exact congrArg (program · new) (hreads' scope frames hholding hdepth)

/-- **An expression.** Its level is looked at before anything is read. -/
theorem expressionReads {count : Nat} (h : ∀ less < count, ExpressionReads less)
    (hcontinue : ∀ less < count, ContinueReads less) : ExpressionReads count := by
  rintro calls index tokens log power depth hcalls rfl hfree
  obtain ⟨calls, rfl⟩ : ∃ less, calls = less + 1 := ⟨calls - 1, by omega⟩
  have hbody : expression (calls + 1) power (depth + 1) = (do
      let s ← get
      record (.enter s.index (depth + 1))
      (do
        advance
        openOperand calls (symbol? s.tokens) s.index (depth + 1)
        continueOperand calls power (depth + 1))
      record .leave) := by
    rw [expression]
    simp only [bind_assoc]
  have hlevel : ∀ {scope frames new} (rest : Program),
      Scope.level scope + Frame.levels frames = depth →
      (scope.admits frames = true →
        Program.readOperand scope frames index tokens = program rest new) →
      Program.readOperand scope frames index tokens =
        program rest (.enter index (depth + 1) :: new) := by
    intro scope frames new rest hdepth hreads
    have hadmits : scope.admits frames = decide (depth + 1 ≤ levelLimit) := by rw [← hdepth]; rfl
    by_cases hle : depth + 1 ≤ levelLimit
    · rw [program, if_pos hle, hreads (by simpa [hadmits] using hle)]
    · have hdeep : scope.admits frames = false := by simpa [hadmits] using hle
      rw [program, if_neg hle]
      exact Program.read_of_halt (.tooDeep hdeep)
  rw [hbody]
  refine passes_within fun log =>
    (passes_body h hcontinue (Nat.le_of_lt_succ hcalls) hfree).mono ?_
  rintro new (e | ⟨⟨⟩⟩) s' ⟨hends, hreads⟩
  · exact ⟨of_error_eq_ok, fun scope frames hholding hdepth =>
      hlevel _ hdepth (hreads scope frames hholding hdepth)⟩
  · refine fun _ => ⟨hends, fun scope frames hholding hdepth => hlevel _ hdepth fun hadmits => ?_⟩
    rw [program_append]
    exact hreads scope frames hholding hdepth hadmits

/-- Expressions are read by descent as they are with frames. -/
theorem reads (count : Nat) : ExpressionReads count ∧ ContinueReads count := by
  induction count using Nat.strongRecOn with
  | ind count ih =>
    have hexpression : ExpressionReads count :=
      expressionReads (fun less hless => (ih less hless).1) fun less hless => (ih less hless).2
    exact ⟨hexpression,
      continueReads (fun less hless => (ih less hless).1) fun less hless => (ih less hless).2⟩

/-! ## More calls -/

section

variable {α β : Type}

/-- Where a reader has an answer, another has the same. -/
def Extends (reader reader' : Reader α) : Prop :=
  ∀ s answer, reader.run.run s = some answer → reader'.run.run s = some answer

theorem Extends.refl (reader : Reader α) : Extends reader reader := fun _ _ h => h

theorem extends_endless (reader : Reader Unit) : Extends endless reader := fun _ _ h => by cases h

theorem Extends.bind {reader reader' : Reader α} {next next' : α → Reader β}
    (h : Extends reader reader') (hnext : ∀ a, Extends (next a) (next' a)) :
    Extends (reader >>= next) (reader' >>= next') := by
  intro s answer hrun
  rw [run_bind] at hrun ⊢
  obtain ⟨⟨result, s'⟩, hfirst, hrest⟩ := Option.bind_eq_some_iff.1 hrun
  rw [h s _ hfirst]
  cases result with
  | ok a => exact hnext a s' answer hrest
  | error e => exact hrest

theorem Extends.next (reader : Reader α) {next next' : α → Reader β}
    (h : ∀ a, Extends (next a) (next' a)) : Extends (reader >>= next) (reader >>= next') :=
  (Extends.refl reader).bind h

end

/-- **More calls change no answer.** -/
theorem extends_succ (calls : Nat) :
    (∀ power level, Extends (expression calls power level) (expression (calls + 1) power level)) ∧
    (∀ symbol index level,
      Extends (openOperand calls symbol index level) (openOperand (calls + 1) symbol index level)) ∧
    (∀ power level,
      Extends (continueOperand calls power level) (continueOperand (calls + 1) power level)) ∧
    ∀ symbol index level,
      Extends (joinOperand calls symbol index level)
        (joinOperand (calls + 1) symbol index level) := by
  induction calls with
  | zero =>
    simp only [expression_zero, openOperand_zero, continueOperand_zero, joinOperand_zero,
      extends_endless, implies_true, and_self]
  | succ calls ih =>
    obtain ⟨hexpression, hopen, hcontinue, hjoin⟩ := ih
    refine ⟨fun power level => ?_, fun symbol index level => ?_, fun power level => ?_,
      fun symbol index level => ?_⟩
    · rw [expression.eq_def (calls + 1), expression.eq_def (calls + 1 + 1)]
      refine .next _ fun s => .next _ fun _ => .next _ fun _ => ?_
      exact (hopen _ _ _).bind fun _ => (hcontinue _ _).bind fun _ => .refl _
    · rw [openOperand.eq_def (calls + 1), openOperand.eq_def (calls + 1 + 1)]
      refine .next _ fun _ => ?_
      rcases symbol with _ | _ | op
      · exact .refl _
      · exact .refl _
      · cases op with
        | sub => exact (hexpression _ _).bind fun _ => .refl _
        | leftParen => exact (hexpression _ _).bind fun _ => .refl _
        | dice upper => exact .next _ fun _ => (hexpression _ _).bind fun _ => .refl _
        | add | mul | div | pow | rightParen => exact .refl _
    · rw [continueOperand.eq_def (calls + 1), continueOperand.eq_def (calls + 1 + 1)]
      refine .next _ fun s => ?_
      cases nextPower? s.tokens with
      | none => exact .refl _
      | some next =>
        by_cases hends : next ≤ power
        · simp only [if_pos hends]
          exact .refl _
        · simp only [if_neg hends]
          exact .next _ fun _ => (hjoin _ _ _).bind fun _ => hcontinue _ _
    · rw [joinOperand.eq_def (calls + 1), joinOperand.eq_def (calls + 1 + 1)]
      refine .next _ fun _ => ?_
      rcases symbol with _ | _ | op
      · exact .refl _
      · exact .refl _
      · cases op with
        | leftParen =>
          exact (hexpression _ _).bind fun _ => .next _ fun _ =>
            (hcontinue _ _).bind fun _ => .refl _
        | rightParen => exact .refl _
        | add | sub | mul | div | pow | dice _ => exact (hexpression _ _).bind fun _ => .refl _

theorem expression_extends {calls more : Nat} (h : calls ≤ more) (power level : Nat) :
    Extends (expression calls power level) (expression more power level) := by
  induction h with
  | refl => exact .refl _
  | step _ ih => exact fun s answer hrun =>
      (extends_succ _).1 power level s answer (ih s answer hrun)

/-! ## Accounts -/

/-- What the account of an expression says. -/
structure Account.Of (a : Account) (tokens : List Token) : Prop where
  program : a.program = Program.ofTokens tokens
  seen_le : a.seen ≤ tokens.length
  /-- The cursor goes from token to token. It may be moved once more at the end, where it stays. -/
  positions : Descent.positions a.events = List.range (a.seen + 1) ∨
    Descent.positions a.events = List.range (a.seen + 1) ++ [a.seen]
  levelled : Levelled 0 a.events
  balanced : a.verdict = .ok () → Descent.depth a.events = 0
  expected : ∀ event ∈ a.events, event.Expected
  findable : ∀ e, a.verdict = .error e → Findable tokens e

theorem read_of_obstacle {tokens : List Token} {e : EvalError} (h : obstacle? tokens = some e)
    (calls : Nat) : read calls tokens = some ⟨.error e, 0, [.advance 0]⟩ := by
  have hlook : look.run.run ⟨0, tokens, [.advance 0]⟩ =
      some (.error e, ⟨0, tokens, [.advance 0]⟩) := by
    rw [look_run, h]
    rfl
  have hread : (look >>= fun _ => expression calls 0 1).run.run ⟨0, tokens, [.advance 0]⟩ =
      some (.error e, ⟨0, tokens, [.advance 0]⟩) := by
    rw [run_bind, hlook]
    rfl
  exact congrArg (Option.map _) hread

theorem read_of_free {tokens : List Token} (h : obstacle? tokens = none) (calls : Nat) :
    read calls tokens = ((expression calls 0 1).run.run ⟨0, tokens, [.advance 0]⟩).map
      fun (verdict, s) => ⟨verdict, s.index, s.events⟩ := by
  have hlook : look.run.run ⟨0, tokens, [.advance 0]⟩ =
      some (.ok (), ⟨0, tokens, [.advance 0]⟩) := by
    rw [look_run, h]
    rfl
  have hread : (look >>= fun _ => expression calls 0 1).run.run ⟨0, tokens, [.advance 0]⟩ =
      (expression calls 0 1).run.run ⟨0, tokens, [.advance 0]⟩ := by
    rw [run_bind, hlook]
    rfl
  exact congrArg (Option.map _) hread

/-- Where the first token cannot be read, that is the whole account. -/
theorem Account.of_obstacle {tokens : List Token} {e : EvalError}
    (h : obstacle? tokens = some e) : (⟨.error e, 0, [.advance 0]⟩ : Account).Of tokens where
  program := by
    obtain ⟨token, rest, rfl, hsymbol⟩ : ∃ token rest, tokens = token :: rest ∧
        token.symbol = .error e := by
      rcases tokens with _ | ⟨token, rest⟩
      · cases h
      · cases hsymbol : token.symbol with
        | error e' =>
          simp only [obstacle?, hsymbol, Option.some.injEq] at h
          exact ⟨token, rest, rfl, by rw [hsymbol, h]⟩
        | ok symbol => simp [obstacle?, hsymbol] at h
    have hhalt : Program.Halt .whole [] 0 .operand (token :: rest) (.stop e 0) :=
      .unreadable (fun _ => rfl) hsymbol
    exact (Program.read_of_halt hhalt).symm
  seen_le := Nat.zero_le _
  positions := .inl rfl
  levelled := ⟨nofun, trivial⟩
  balanced := nofun
  expected := List.forall_mem_singleton.2 trivial
  findable e' he' := by
    cases he'
    exact findable_of_obstacle? h

/-- A passage through the tokens is an account of them, if it makes their program. -/
theorem Account.of_passage {tokens : List Token} {new : List Event}
    {result : Except EvalError Unit} {s : State}
    (h : Passage 0 ⟨0, tokens, [.advance 0]⟩ new result s)
    (hprogram : Account.program ⟨result, s.index, s.events⟩ = Program.ofTokens tokens) :
    (⟨result, s.index, s.events⟩ : Account).Of tokens where
  program := hprogram
  seen_le := by
    have hlength : s.index + s.tokens.length = 0 + tokens.length := h.length
    show s.index ≤ tokens.length
    omega
  positions := by
    obtain ⟨stuck, hpositions, hstuck⟩ := h.positions
    have hall : Descent.positions ([.advance 0] ++ new) = List.range (s.index + 1) ++ stuck := by
      rw [positions_append, hpositions, List.range_eq_range', List.range'_succ]
      rfl
    rw [h.events]
    rcases hstuck with rfl | ⟨rfl, -⟩
    · exact .inl (hall.trans (List.append_nil _))
    · exact .inr hall
  levelled := by
    rw [h.events]
    exact ⟨nofun, h.levelled⟩
  balanced hok := by
    rw [h.events, depth_append]
    exact h.depth hok
  expected := by
    rw [h.events]
    exact List.forall_mem_cons.2 ⟨trivial, h.expected⟩
  findable := h.findable

/-- **Recursive descent comes to an end**, and to the program that is read. Twice as many calls as
there are tokens, and one, are enough. -/
theorem exists_read (tokens : List Token) :
    ∃ a, (∀ calls, 2 * tokens.length < calls → read calls tokens = some a) ∧ a.Of tokens := by
  cases hfree : obstacle? tokens with
  | some e =>
    exact ⟨_, fun calls _ => read_of_obstacle hfree calls, Account.of_obstacle hfree⟩
  | none =>
    obtain ⟨result, s, hrun, new, hpassage, hends, hreads⟩ :=
      (reads tokens.length).1 (2 * tokens.length + 1) 0 tokens [.advance 0] 0 0
        (Nat.lt_succ_self _) rfl hfree
    refine ⟨_, fun calls hcalls => ?_, Account.of_passage hpassage ?_⟩
    · rw [read_of_free hfree, expression_extends hcalls 0 1 _ _ hrun]
      rfl
    · have hprogram : Program.ofTokens tokens = _ := hreads .whole [] rfl rfl
      rw [hprogram, Account.program, hpassage.events]
      refine congrArg (program · new) ?_
      cases result with
      | error e => rfl
      | ok done =>
        obtain ⟨next, hnext, hpower⟩ := (hends rfl).2
        exact (Program.readOperator_nil hnext hpower s.index).symm

end DiceNotation.Descent
