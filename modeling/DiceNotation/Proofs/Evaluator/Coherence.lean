import DiceNotation.Proofs.Evaluator
import DiceNotation.Proofs.Placement

/-!
# DiceNotation.Proofs.Evaluator.Coherence

What holds of the evaluator's state whenever a call is made or done.

* `Evaluator.State.Coherent`: the parts of the cursor fit together, and nothing
  is wrong with the tokens up to it;
* `Evaluator.Call.Leaves`: what a call has achieved when it is done;
* `Evaluator.Trail`: a trace of which this holds at every point, with the depths
  and the rolls from one point to the next;
* `Evaluator.Keeps`: a routine leaves a trail. One lemma for each part of the evaluator, and from
  them `Evaluator.keeps`, for all calls together, by induction on how many may be in progress.

A move of the cursor onto a token that cannot be looked at breaks coherence. It
fails, so no call is made or done after it.
-/

namespace DiceNotation.Evaluator

variable {σ α β : Type}

/-! ## Coherent states -/

/-- The cursor and the tokens fit together. -/
structure State.Coherent (s : State σ) : Prop where
  /-- The cursor has been put somewhere. -/
  placed : s.position = some s.index
  index_le : s.index ≤ s.tokens.length
  /-- What was looked at last is the token at the cursor; at the end it is nothing. -/
  current : s.tokens[s.index]?.map Token.symbol = s.current.map .ok
  last : s.last = if s.index = 0 then none else some (s.index - 1)
  /-- No token up to the cursor carries an error. -/
  unmarked : ∀ i ≤ s.index, ∀ t ∈ s.tokens[i]?, t.error = none

variable {s s' : State σ}

/-- Nothing is at the cursor exactly if it is at the end. -/
theorem State.Coherent.current_eq_none_iff (h : s.Coherent) :
    s.current = none ↔ s.index = s.tokens.length := by
  have hcurrent := h.current
  have hle := h.index_le
  constructor
  · intro hnone
    rw [hnone] at hcurrent
    have := List.getElem?_eq_none_iff.1 (by simpa using hcurrent)
    omega
  · intro hend
    rw [List.getElem?_eq_none_iff.2 (by omega)] at hcurrent
    simpa using hcurrent.symm

/-- Rolls at tokens do not matter. -/
theorem State.Coherent.congr (h : s.Coherent) (hposition : s'.position = s.position)
    (hcurrent : s'.current = s.current) (hlast : s'.last = s.last)
    (hsymbols : s'.tokens.map Token.symbol = s.tokens.map Token.symbol)
    (herrors : s'.tokens.map Token.error = s.tokens.map Token.error) : s'.Coherent := by
  have hindex : s'.index = s.index := by rw [State.index, hposition, State.index]
  have hlength : s'.tokens.length = s.tokens.length := by simpa using congrArg List.length hsymbols
  refine ⟨by rw [hposition, h.placed, hindex], by rw [hindex, hlength]; exact h.index_le, ?_,
    by rw [hlast, hindex]; exact h.last, fun i hi t ht => ?_⟩
  · rw [hindex, hcurrent, ← List.getElem?_map, hsymbols, List.getElem?_map]
    exact h.current
  · have herror : s.tokens[i]?.map Token.error = some t.error := by
      rw [← List.getElem?_map, ← herrors, List.getElem?_map, ht, Option.map_some]
    obtain ⟨t', ht', heq⟩ := Option.map_eq_some_iff.1 herror
    rw [← heq]
    exact h.unmarked i (hindex ▸ hi) t' ht'

theorem State.map_attach {f : Token → α} (hroll : ∀ t r, f (t.withRoll r) = f t)
    (hresult : ∀ t r, f (t.withRollResult r) = f t) (s : State σ) (index : Nat)
    (record : RollRecord) : (s.attach index record).tokens.map f = s.tokens.map f := by
  have hfirst := map_modify_of_eq (fun t => hroll t record) s.tokens index
  cases hlast : s.last with
  | none => simp [State.attach, hlast, hfirst]
  | some last => simp [State.attach, hlast, map_modify_of_eq fun t => hresult t record, hfirst]

theorem State.Coherent.attach (h : s.Coherent) (tray : Tray σ) (index : Nat) (record : RollRecord) :
    (State.attach { s with tray } index record).Coherent :=
  h.congr rfl rfl rfl (State.map_attach (fun _ _ => rfl) (fun _ _ => rfl) _ index record)
    (State.map_attach (fun _ _ => rfl) (fun _ _ => rfl) _ index record)

/-- A state that a coherent one leads to inside the same expressions. -/
structure State.Forward (s s' : State σ) : Prop where
  coherent : s'.Coherent
  depth : s'.depth = s.depth
  index_le : s.index ≤ s'.index

theorem State.Coherent.forward (h : s.Coherent) : s.Forward s := ⟨h, rfl, Nat.le_refl _⟩

theorem State.Forward.trans {s'' : State σ} (h : s.Forward s') (h' : s'.Forward s'') :
    s.Forward s'' :=
  ⟨h'.coherent, h'.depth.trans h.depth, Nat.le_trans h.index_le h'.index_le⟩

/-- What is at the cursor can follow an operand, and binds no more tightly than `power`. -/
def Ends (power : Nat) (current : Option Symbol) : Prop :=
  ∃ next, leftPower? current = some next ∧ next ≤ power

/-! ## Trails -/

/-- What a call that was made in the state `start` has achieved when it is done. -/
def Call.Leaves : Call → (start s : State σ) → Prop
  | .expression power, start, s => start.index < s.index ∧ Ends power s.current
  | .continueExpression _ power, _, s => Ends power s.current
  | _, _, _ => True

/-- What holds of a point. -/
def Point.Holds : Point σ → Prop
  | .made _ s => s.Coherent
  | .done call start s => s.Coherent ∧ call.Leaves start s

theorem Point.Holds.coherent {p : Point σ} (h : p.Holds) : p.state.Coherent := by
  cases p with
  | made _ _ => exact h
  | done _ _ _ => exact h.1

/-- A trace along which points hold, every depth is the number of expressions in progress, and rolls
come after those that were made before. There are `active` expressions in progress and the given
rolls before it, and `active'` and `rolls'` after it. -/
inductive Trail : Nat → List RollRecord → List (Point σ) → Nat → List RollRecord → Prop
  | nil {active rolls rolls'} : rolls <+: rolls' → Trail active rolls [] active rolls'
  | cons {active rolls p trace active' rolls'} : p.Holds → p.state.depth = p.around active →
      rolls <+: p.state.rolls → Trail (p.active active) p.state.rolls trace active' rolls' →
      Trail active rolls (p :: trace) active' rolls'

section

variable {d d' d'' : Nat} {rolls rolls' rolls'' : List RollRecord} {trace trace' : List (Point σ)}

/-- A trail may begin with fewer rolls. -/
theorem Trail.weaken (h : Trail d rolls' trace d' rolls'') (hrolls : rolls <+: rolls') :
    Trail d rolls trace d' rolls'' := by
  cases h with
  | nil hprefix => exact .nil (hrolls.trans hprefix)
  | cons hp hdepth hprefix hrest => exact .cons hp hdepth (hrolls.trans hprefix) hrest

theorem Trail.append (h : Trail d rolls trace d' rolls') (h' : Trail d' rolls' trace' d'' rolls'') :
    Trail d rolls (trace ++ trace') d'' rolls'' := by
  induction h with
  | nil hrolls => exact h'.weaken hrolls
  | cons hp hdepth hrolls _ ih => exact .cons hp hdepth hrolls (ih h')

theorem Trail.holds (h : Trail d rolls trace d' rolls') : ∀ p ∈ trace, p.Holds := by
  induction h with
  | nil _ => exact List.forall_mem_nil _
  | cons hp _ _ _ ih => exact List.forall_mem_cons.2 ⟨hp, ih⟩

/-- The rolls at a point are those of every point before it, and more. -/
theorem Trail.pairwise (h : Trail d rolls trace d' rolls') :
    (∀ p ∈ trace, rolls <+: p.state.rolls) ∧
      trace.Pairwise fun p q => p.state.rolls <+: q.state.rolls := by
  induction h with
  | nil _ => simp
  | cons _ _ hrolls _ ih =>
    refine ⟨List.forall_mem_cons.2 ⟨hrolls, fun q hq => hrolls.trans (ih.1 q hq)⟩, ?_⟩
    exact List.pairwise_cons.2 ih

/-- The depth at a point is what the points before it come to. -/
theorem Trail.depth (h : Trail d rolls trace d' rolls')
    {before after : List (Point σ)} {p : Point σ}
    (hsplit : trace = before ++ p :: after) :
    p.state.depth = p.around (before.foldl Point.active d) := by
  induction h generalizing before with
  | nil _ => simp at hsplit
  | cons _ hdepth _ _ ih =>
    cases before with
    | nil =>
      obtain ⟨rfl, -⟩ := List.cons.inj hsplit
      exact hdepth
    | cons q before =>
      obtain ⟨rfl, hrest⟩ := List.cons.inj hsplit
      exact ih hrest

end

/-! ## Routines that leave trails -/

/-- A routine leaves a trail, which leads back to the same number of expressions in progress if the
routine succeeds; then its value and its state are as `post` says. -/
def Keeps (d : Nat) (m : Routine σ α) (s : State σ) (post : α → State σ → Prop) : Prop :=
  ∀ a, m s = some a → ∃ d', Trail d s.rolls a.trace d' a.state.rolls ∧
    ∀ x, a.result = .ok x → d' = d ∧ post x a.state

variable {d : Nat} {post : α → State σ → Prop}

theorem Keeps.mono {m : Routine σ α} {post' : α → State σ → Prop} (h : Keeps d m s post)
    (hpost : ∀ x s', post x s' → post' x s') : Keeps d m s post' := by
  intro a ha
  obtain ⟨d', htrail, hdone⟩ := h a ha
  exact ⟨d', htrail, fun x hx => ⟨(hdone x hx).1, hpost x _ (hdone x hx).2⟩⟩

theorem Keeps.bind {m : Routine σ α} {next : α → Routine σ β} {post : β → State σ → Prop}
    (h : Keeps d m s fun x s' => Keeps d (next x) s' post) : Keeps d (m >>= next) s post := by
  intro b hb
  rcases bind_cases hb with ⟨s', trace, x, c, hm, hc, rfl⟩ | ⟨s', trace, e, hm, rfl⟩
  · obtain ⟨d', htrail, hdone⟩ := h _ hm
    obtain ⟨rfl, hnext⟩ := hdone x rfl
    obtain ⟨d'', htrail', hdone'⟩ := hnext c hc
    exact ⟨d'', htrail.append htrail', hdone'⟩
  · obtain ⟨d', htrail, -⟩ := h _ hm
    exact ⟨d', htrail, fun x hx => by cases hx⟩

/-- A routine that calls nothing and does not touch the rolls. -/
theorem keeps_still {m : Routine σ α} {a : Answer σ α} (hrun : m s = some a) (htrace : a.trace = [])
    (hrolls : a.state.rolls = s.rolls) (hpost : ∀ x, a.result = .ok x → post x a.state) :
    Keeps d m s post := by
  intro b hb
  obtain rfl : a = b := Option.some.inj (hrun.symm.trans hb)
  refine ⟨d, ?_, fun x hx => ⟨rfl, hpost x hx⟩⟩
  rw [htrace, hrolls]
  exact .nil List.prefix_rfl

theorem keeps_pure {x : α} (h : post x s) : Keeps d (pure x) s post :=
  keeps_still rfl rfl rfl fun _ hx => by cases hx; exact h

theorem keeps_fail (e : EvalError) : Keeps d (fail e) s post :=
  keeps_still rfl rfl rfl fun _ hx => by cases hx

theorem keeps_value {r : Except EvalError α} (h : ∀ x, post x s) : Keeps d (value r) s post := by
  cases r with
  | ok x => exact keeps_pure (h x)
  | error e => exact keeps_fail e

theorem keeps_endless : Keeps d endless s post := fun _ h => by cases h

theorem keeps_state {next : State σ → Routine σ α} (h : Keeps d (next s) s post) :
    Keeps d (state >>= next) s post :=
  Keeps.bind (keeps_still rfl rfl rfl fun _ hx => by cases hx; exact h)

theorem keeps_unexpected : Keeps d unexpected s post := by
  refine keeps_state ?_
  cases s.last with
  | none => exact keeps_still rfl rfl rfl fun _ hx => by cases hx
  | some last => exact keeps_fail _

/-- The cursor is put at a token with a meaning, or at the end. -/
theorem place_of_symbol {index : Nat} {current : Option Symbol}
    (h : s.tokens[index]?.map Token.symbol = current.map .ok) :
    place index s =
      some { result := .ok ()
             state := { s with position := some index, current := current } } := by
  cases current <;> simp [place, h]

/-- The cursor is put at a token without a meaning. -/
theorem place_of_error {index : Nat} {e : EvalError}
    (h : s.tokens[index]?.map Token.symbol = some (.error e)) :
    place index s = some { result := .error e, state := { s with position := some index } } := by
  simp [place, h]

theorem keeps_place {index : Nat} (hindex : index ≤ s.tokens.length)
    (hlast : s.last = if index = 0 then none else some (index - 1))
    (hunmarked : ∀ i < index, ∀ t ∈ s.tokens[i]?, t.error = none) :
    Keeps d (place index) s fun _ s' => s'.Coherent ∧ s'.depth = s.depth ∧ s'.index = index := by
  have hcoherent : ∀ {current : Option Symbol},
      s.tokens[index]?.map Token.symbol = current.map .ok →
      State.Coherent { s with position := some index, current := current } := by
    intro current hcurrent
    refine ⟨rfl, hindex, hcurrent, hlast, fun i hi t ht => ?_⟩
    rcases Nat.lt_or_eq_of_le hi with hlt | heq
    · exact hunmarked i hlt t ht
    · -- The token at the cursor has a meaning.
      obtain rfl : i = index := heq
      change s.tokens[i]? = some t at ht
      rw [ht] at hcurrent
      obtain ⟨symbol, -, hsymbol⟩ := Option.map_eq_some_iff.1 hcurrent.symm
      exact Token.error_of_symbol hsymbol.symm
  rcases hread : s.tokens[index]?.map Token.symbol with _ | e | symbol
  · have hend : s.tokens[index]?.map Token.symbol = Option.map .ok none := hread
    exact keeps_still (place_of_symbol hend) rfl rfl fun _ _ => ⟨hcoherent hend, rfl, rfl⟩
  · exact keeps_still (place_of_error hread) rfl rfl fun _ hx => by cases hx
  · have hsymbol : s.tokens[index]?.map Token.symbol = Option.map .ok (some symbol) := hread
    exact keeps_still (place_of_symbol hsymbol) rfl rfl fun _ _ => ⟨hcoherent hsymbol, rfl, rfl⟩

/-- The cursor moves on from a token. -/
theorem State.Coherent.advance_of_lt (h : s.Coherent) (hlt : s.index < s.tokens.length) :
    advance s = place (s.index + 1) { s with last := some s.index } := by
  simp [advance, h.placed, hlt]

/-- The cursor stays at the end. -/
theorem State.Coherent.advance_of_end (h : s.Coherent) (hend : ¬ s.index < s.tokens.length) :
    advance s = some { result := .error .unexpectedEnd, state := s } := by
  simp only [advance, h.placed, if_neg hend]
  rfl

/-- **Moving the cursor.** -/
theorem keeps_advance (h : s.Coherent) :
    Keeps d advance s fun _ s' => s.Forward s' ∧ s'.index = s.index + 1 := by
  by_cases hlt : s.index < s.tokens.length
  · have hunmarked : ∀ i < s.index + 1, ∀ t ∈ s.tokens[i]?, t.error = none :=
      fun i hi => h.unmarked i (Nat.le_of_lt_succ hi)
    intro a ha
    obtain ⟨d', htrail, hdone⟩ := @keeps_place σ { s with last := some s.index } d _ hlt (by simp)
      hunmarked a (h.advance_of_lt hlt ▸ ha)
    refine ⟨d', htrail, fun x hx => ?_⟩
    obtain ⟨hd, hcoherent, hdepth, hindex⟩ := hdone x hx
    exact ⟨hd, ⟨hcoherent, hdepth, by omega⟩, hindex⟩
  · exact keeps_still (h.advance_of_end hlt) rfl rfl fun _ hx => by cases hx

/-- The cursor on the first token, or at the end if there is none. -/
theorem keeps_start (tokens : List Token) (tray : Tray σ) :
    Keeps 0 advance (.start tokens tray) fun _ s' => s'.Coherent ∧ s'.depth = 0 := by
  have hplace : Keeps 0 (place 0) (.start tokens tray) fun _ s' =>
      s'.Coherent ∧ s'.depth = 0 ∧ s'.index = 0 :=
    keeps_place (Nat.zero_le _) rfl fun i hi => absurd hi (Nat.not_lt_zero i)
  intro a ha
  obtain ⟨d, htrail, hdone⟩ := hplace a ha
  exact ⟨d, htrail, fun x hx => ⟨(hdone x hx).1, (hdone x hx).2.1, (hdone x hx).2.2.1⟩⟩

/-- A watched call. With `d` expressions in progress around it, there are `inner` in it. -/
theorem keeps_watched {call : Call} {body : Routine σ α} {inner : Nat}
    (hmade : Point.active d (.made call s) = inner)
    (hleft : ∀ s', Point.active inner (.done call s s') = d) (h : s.Coherent) (hdepth : s.depth = d)
    (hbody : Keeps inner body s fun _ s' => s.Forward s' ∧ call.Leaves s s') :
    Keeps d (watched call body) s fun _ s' => s.Forward s' ∧ call.Leaves s s' := by
  intro a ha
  obtain ⟨⟨result, s', trace⟩, hb, rfl⟩ := Option.map_eq_some_iff.1 ha
  obtain ⟨d', htrail, hdone⟩ := hbody _ hb
  have hfirst : Trail d s.rolls (.made call s :: trace) d' s'.rolls := by
    refine .cons h hdepth List.prefix_rfl ?_
    rw [hmade]
    exact htrail
  cases result with
  | error e => exact ⟨d', hfirst, fun x hx => by cases hx⟩
  | ok x =>
    obtain ⟨rfl, hforward, hleaves⟩ := hdone x rfl
    have hlast : Trail d' s'.rolls [.done call s s'] d s'.rolls := by
      refine .cons ⟨hforward.coherent, hleaves⟩ ?_ List.prefix_rfl ?_
      · exact (hforward.depth.trans hdepth).trans (hleft s').symm
      · rw [hleft]
        exact .nil List.prefix_rfl
    refine ⟨d, hfirst.append hlast, fun y hy => ?_⟩
    cases hy
    exact ⟨rfl, hforward, hleaves⟩

/-- Inside an expression there is one more in progress, if there can be. -/
theorem keeps_nested {body : Routine σ α} (h : s.Coherent) (hdepth : s.depth = d)
    (hpost : ∀ x (s' : State σ), post x s' → post x { s' with depth := d })
    (hbody : ∀ s₁ : State σ, s₁.Coherent → s₁.index = s.index → s₁.depth = d + 1 →
      Keeps (d + 1) body s₁ fun x s' => s₁.Forward s' ∧ post x s') :
    Keeps (d + 1) (nested body) s fun x s' => s.Forward s' ∧ post x s' := by
  intro a ha
  unfold nested at ha
  split at ha
  next =>
    obtain ⟨⟨result, s', trace⟩, hb, rfl⟩ := Option.map_eq_some_iff.1 ha
    obtain ⟨d', htrail, hdone⟩ := hbody { s with depth := s.depth + 1 }
      (h.congr rfl rfl rfl rfl rfl) rfl (congrArg (· + 1) hdepth) _ hb
    refine ⟨d', htrail, fun x hx => ?_⟩
    obtain ⟨hd, hforward, hx'⟩ := hdone x hx
    have hless : s'.depth - 1 = d := by
      have : s'.depth = s.depth + 1 := hforward.depth
      omega
    refine ⟨hd, ⟨hforward.coherent.congr rfl rfl rfl rfl rfl, hless.trans hdepth.symm,
      hforward.index_le⟩, ?_⟩
    rw [hless]
    exact hpost x s' hx'
  next =>
    cases ha
    exact ⟨d + 1, .nil List.prefix_rfl, fun x hx => by cases hx⟩

/-- A routine goes on with another from a state that it leads to. -/
theorem Keeps.forward {m : Routine σ α} {next : α → Routine σ β} {reached post : State σ → Prop}
    (h : Keeps d m s fun _ s' => s.Forward s' ∧ reached s') (hdepth : s.depth = d)
    (hnext : ∀ x s', s'.Coherent → s'.depth = d → s.index ≤ s'.index → reached s' →
      Keeps d (next x) s' fun _ s'' => s'.Forward s'' ∧ post s'') :
    Keeps d (m >>= next) s fun _ s'' => s.Forward s'' ∧ post s'' := by
  refine Keeps.bind (h.mono ?_)
  rintro x s' ⟨hforward, hreached⟩
  refine (hnext x s' hforward.coherent (hforward.depth.trans hdepth) hforward.index_le
    hreached).mono ?_
  exact fun _ _ hpost => ⟨hforward.trans hpost.1, hpost.2⟩

/-! ## The routines -/

theorem keeps_closeGroup (h : s.Coherent) (hdepth : s.depth = d) (opening : Nat) :
    Keeps d (closeGroup opening) s fun _ s' => s.Forward s' ∧ True := by
  refine keeps_watched rfl (fun _ => rfl) h hdepth (keeps_state ?_)
  by_cases hclosed : s.current = some (.operator .rightParen)
  · rw [if_pos hclosed]
    exact (keeps_advance h).mono fun _ _ hpost => ⟨hpost.1, trivial⟩
  · rw [if_neg hclosed]
    exact keeps_fail _

theorem keeps_roll [Roller σ] (h : s.Coherent) (hdepth : s.depth = d) (index : Nat)
    (quantity sides : Number) :
    Keeps d (roll index quantity sides) s fun _ s' => s.Forward s' ∧ True := by
  refine keeps_watched rfl (fun _ => rfl) h hdepth ?_
  intro a ha
  dsimp only at ha
  split at ha
  next e tray _ =>
    cases ha
    exact ⟨d, .nil List.prefix_rfl, fun x hx => by cases hx⟩
  next faces tray _ =>
    cases ha
    have hforward : s.Forward (State.attach { s with tray } index ⟨sides, faces⟩) :=
      ⟨h.attach tray index _, rfl, Nat.le_refl _⟩
    exact ⟨d, .nil (List.prefix_append ..), fun _ _ => ⟨rfl, hforward, trivial⟩⟩

variable [Roller σ]

/-- Expressions leave trails, if this many calls may be in progress. -/
def ExpressionKeeps (σ : Type) [Roller σ] (calls : Nat) : Prop :=
  ∀ {d : Nat} {s : State σ}, s.Coherent → s.depth = d → ∀ power,
    Keeps d (expression calls power) s fun _ s' =>
      s.Forward s' ∧ s.index < s'.index ∧ Ends power s'.current

/-- What follows an operand leaves trails, if this many calls may be in progress. -/
def FoldKeeps (σ : Type) [Roller σ] (calls : Nat) : Prop :=
  ∀ {d : Nat} {s : State σ}, s.Coherent → s.depth = d → ∀ left power,
    Keeps d (fold calls left power) s fun _ s' => s.Forward s' ∧ Ends power s'.current

variable {calls : Nat}

/-- An expression and what is done with its value. -/
theorem keeps_operand (hexpression : ExpressionKeeps σ calls) (h : s.Coherent)
    (hdepth : s.depth = d) {power : Nat} {next : Number → Routine σ α}
    (hnext : ∀ x s', s'.Coherent → s'.depth = d →
      Keeps d (next x) s' fun _ s'' => s'.Forward s'' ∧ True) :
    Keeps d (expression calls power >>= next) s fun _ s' => s.Forward s' ∧ True :=
  (hexpression h hdepth power).forward hdepth fun x s' h' hdepth' _ _ => hnext x s' h' hdepth'

theorem keeps_asPrefix (hexpression : ExpressionKeeps σ calls) (h : s.Coherent)
    (hdepth : s.depth = d) (symbol : Option Symbol) (index : Nat) :
    Keeps d (asPrefix (calls + 1) symbol index) s fun _ s' => s.Forward s' ∧ True := by
  rw [asPrefix.eq_def]
  refine keeps_watched rfl (fun _ => rfl) h hdepth ?_
  rcases symbol with _ | x | op
  · exact keeps_unexpected
  · exact keeps_value fun _ => ⟨h.forward, trivial⟩
  · cases op with
    | sub =>
      exact keeps_operand hexpression h hdepth fun x s' h' _ =>
        keeps_value fun _ => ⟨h'.forward, trivial⟩
    | leftParen =>
      refine keeps_operand hexpression h hdepth fun x s' h' hdepth' => ?_
      exact (keeps_closeGroup h' hdepth' index).forward hdepth' fun _ s'' h'' _ _ _ =>
        keeps_value fun _ => ⟨h''.forward, trivial⟩
    | dice upper =>
      refine keeps_operand hexpression h hdepth fun sides s' h' hdepth' => ?_
      exact (keeps_roll h' hdepth' index _ sides).forward hdepth' fun x s'' h'' _ _ _ =>
        keeps_value fun _ => ⟨h''.forward, trivial⟩
    | add | mul | div | pow | rightParen => exact keeps_unexpected

theorem keeps_continueExpression (hfold : FoldKeeps σ calls) (h : s.Coherent) (hdepth : s.depth = d)
    (left : Number) (power : Nat) :
    Keeps d (continueExpression calls left power) s fun _ s' =>
      s.Forward s' ∧ Ends power s'.current :=
  keeps_watched rfl (fun _ => rfl) h hdepth (hfold h hdepth left power)

theorem keeps_asInfix (hexpression : ExpressionKeeps σ calls) (hfold : FoldKeeps σ calls)
    (h : s.Coherent) (hdepth : s.depth = d) (symbol : Option Symbol) (index : Nat) (left : Number) :
    Keeps d (asInfix (calls + 1) symbol index left) s fun _ s' => s.Forward s' ∧ True := by
  rw [asInfix.eq_def]
  refine keeps_watched rfl (fun _ => rfl) h hdepth ?_
  rcases symbol with _ | x | op
  · exact keeps_fail _
  · exact keeps_fail _
  · cases op with
    | rightParen => exact keeps_fail _
    | dice upper =>
      refine keeps_operand hexpression h hdepth fun sides s' h' hdepth' => ?_
      exact (keeps_roll h' hdepth' index left sides).forward hdepth' fun x s'' h'' _ _ _ =>
        keeps_value fun _ => ⟨h''.forward, trivial⟩
    | leftParen =>
      refine keeps_operand hexpression h hdepth fun inner s' h' hdepth' => ?_
      refine (keeps_closeGroup h' hdepth' index).forward hdepth' fun _ s'' h'' hdepth'' _ _ => ?_
      refine (keeps_continueExpression hfold h'' hdepth'' inner _).forward hdepth'' ?_
      exact fun right s₃ h₃ _ _ _ => keeps_value fun _ => ⟨h₃.forward, trivial⟩
    | add | sub | mul | div | pow =>
      refine keeps_operand hexpression h hdepth fun right s' h' hdepth' => ?_
      refine Keeps.bind (keeps_value fun x => ?_)
      exact keeps_value fun _ => ⟨h'.forward, trivial⟩

/-- One round of the loop over operators. -/
theorem keeps_fold
    (hjoin : ∀ {d : Nat} {s : State σ}, s.Coherent → s.depth = d → ∀ symbol index left,
      Keeps d (asInfix calls symbol index left) s fun _ s' => s.Forward s' ∧ True)
    (hfold : FoldKeeps σ calls) : FoldKeeps σ (calls + 1) := by
  intro d s h hdepth left power
  rw [fold.eq_def]
  refine keeps_state ?_
  cases hnext : leftPower? s.current with
  | none => exact keeps_unexpected
  | some next =>
    by_cases hends : next ≤ power
    · simp only [if_pos hends]
      exact keeps_pure ⟨h.forward, next, hnext, hends⟩
    · simp only [if_neg hends]
      refine (keeps_advance h).forward hdepth fun _ s' h' hdepth' _ _ => ?_
      refine (hjoin h' hdepth' _ _ _).forward hdepth' fun x s'' h'' hdepth'' _ _ => ?_
      exact hfold h'' hdepth'' x power

/-- An expression, from its first token on. -/
theorem keeps_expression
    (hopen : ∀ {d : Nat} {s : State σ}, s.Coherent → s.depth = d → ∀ symbol index,
      Keeps d (asPrefix calls symbol index) s fun _ s' => s.Forward s' ∧ True)
    (hfold : FoldKeeps σ calls) : ExpressionKeeps σ (calls + 1) := by
  intro d s h hdepth power
  rw [expression]
  refine keeps_watched rfl (fun _ => rfl) h hdepth ?_
  refine keeps_nested h hdepth (fun _ _ hpost => hpost) fun s₁ h₁ hindex hdepth₁ => ?_
  refine keeps_state ?_
  refine (keeps_advance h₁).forward hdepth₁ fun _ s₂ h₂ hdepth₂ _ hnext => ?_
  refine (hopen h₂ hdepth₂ _ _).forward hdepth₂ fun left s₃ h₃ hdepth₃ hle _ => ?_
  refine (keeps_continueExpression hfold h₃ hdepth₃ left power).mono ?_
  rintro _ s₄ ⟨hforward, hends⟩
  have := hforward.index_le
  exact ⟨hforward, by omega, hends⟩

/-- **All calls leave trails.** -/
theorem keeps (calls : Nat) :
    ExpressionKeeps σ calls ∧ FoldKeeps σ calls ∧
      (∀ {d : Nat} {s : State σ}, s.Coherent → s.depth = d → ∀ symbol index,
        Keeps d (asPrefix calls symbol index) s fun _ s' => s.Forward s' ∧ True) ∧
      ∀ {d : Nat} {s : State σ}, s.Coherent → s.depth = d → ∀ symbol index left,
        Keeps d (asInfix calls symbol index left) s fun _ s' => s.Forward s' ∧ True := by
  induction calls with
  | zero =>
    simp only [ExpressionKeeps, FoldKeeps, expression_zero, fold_zero, asPrefix_zero, asInfix_zero,
      keeps_endless, implies_true, and_self]
  | succ calls ih =>
    obtain ⟨hexpression, hfold, hopen, hjoin⟩ := ih
    exact ⟨keeps_expression hopen hfold, keeps_fold hjoin hfold,
      fun h hdepth => keeps_asPrefix hexpression h hdepth,
      fun h hdepth => keeps_asInfix hexpression hfold h hdepth⟩

/-- **A whole evaluation leaves a trail.** -/
theorem run_trail {calls : Nat} {tokens : List Token} {tray : Tray σ} {a : Answer σ Number}
    (h : run calls (.start tokens tray) = some a) :
    ∃ d, Trail 0 [] a.trace d a.state.rolls := by
  have hrun : Keeps 0 (run calls) (.start tokens tray) fun _ _ => True := by
    refine Keeps.bind ((keeps_start tokens tray).mono fun _ s hs => ?_)
    exact Keeps.bind (((keeps calls).1 hs.1 hs.2 0).mono fun _ _ _ => keeps_pure trivial)
  obtain ⟨d, htrail, -⟩ := hrun a h
  exact ⟨d, htrail⟩

end DiceNotation.Evaluator
