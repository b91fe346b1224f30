import DiceNotation.Proofs.Structure
import DiceNotation.Proofs.Tree.Reading

/-!
# DiceNotation.Proofs.Tree.Grammar

The expressions that the grammar accepts are the trees.

* `Tree.attach`: an operand joined to a tree that has been read, as the powers of the operators ask;
* `Grammar.Viable`: symbols that have been read and can be read on from;
* `Tree.check_iff`: the grammar accepts all of an expression if it is written as a tree with its
  parentheses, and not otherwise;
* `Tray.exists_tree_of_evaluate`: so whatever is evaluated to its end is a tree.

The grammar knows no powers, so a tree has to be found for what it accepts. It is built from left to
right: there is one for all that stands before an operator, and the operand after the operator is
joined to its right edge, below all that binds less tightly.
-/

namespace DiceNotation

/-! ## Joining -/

/-- What stands between two operands: an operator, or nothing before a group. -/
inductive Joint where
  | operator (op : BinaryOp)
  | dice (upper : Bool)
  | product
  deriving DecidableEq

namespace Joint

def symbols : Joint → List Symbol
  | operator op => [.operator op.operator]
  | dice upper => [.operator (.dice upper)]
  | product => []

def power : Joint → Nat
  | operator op => op.power
  | dice _ => dicePower
  | product => productPower

def join : Joint → Tree → Tree → Tree
  | operator op => .binary op
  | dice upper => .dice upper
  | product => .product

theorem symbols_join (j : Joint) (t u : Tree) :
    (j.join t u).symbols = t.symbols ++ (j.symbols ++ u.symbols) := by
  cases j <;> rfl

theorem within_join {j : Joint} {power : Nat} (h : power < j.power) (t u : Tree) :
    (j.join t u).within power = true := by
  cases j <;> exact decide_eq_true h

theorem opensGroup_join (j : Joint) (t u : Tree) : (j.join t u).opensGroup = t.opensGroup := by
  cases j <;> rfl

end Joint

namespace Tree

/-- Whether a tree is held by any operator: it begins with an operator, or is a
number or a group. -/
def closed : Tree → Bool
  | literal _ | negation _ | die _ _ | group _ => true
  | binary _ _ _ | dice _ _ _ | product _ _ => false

theorem within_of_closed {t : Tree} (h : t.closed = true) (power : Nat) :
    t.within power = true := by
  cases t <;> first | rfl | cases h

theorem grouped_join {j : Joint} {t u : Tree} (ht : t.grouped = true) (hu : u.grouped = true)
    (hclosed : u.closed = true) (hyields : t.yields j.power = true)
    (hopens : j = .product → u.opensGroup = true) : (j.join t u).grouped = true := by
  have hwithin := within_of_closed hclosed
  cases j with
  | operator op =>
    have hyields : t.yields op.power = true := hyields
    simp only [Joint.join, grouped, ht, hu, hyields, hwithin, Bool.and_self]
  | dice upper =>
    have hyields : t.yields dicePower = true := hyields
    simp only [Joint.join, grouped, ht, hu, hyields, hwithin, Bool.and_self]
  | product =>
    have hyields : t.yields productPower = true := hyields
    simp only [Joint.join, grouped, ht, hu, hyields, hwithin, hopens rfl, Bool.and_self]

/-- The tree with an operand joined to it. The operand goes down the right edge, until what is left
of the tree can be the other operand. -/
def attach (t : Tree) (j : Joint) (u : Tree) : Tree :=
  if t.yields j.power then j.join t u
  else
    match t with
    | negation t => negation (t.attach j u)
    | binary op l r => binary op l (r.attach j u)
    | die upper t => die upper (t.attach j u)
    | dice upper l r => dice upper l (r.attach j u)
    | product l r => product l (r.attach j u)
    | t => j.join t u

variable {j : Joint} {t u : Tree}

theorem attach_of_yields (h : t.yields j.power = true) : t.attach j u = j.join t u := by
  unfold attach
  rw [if_pos h]

theorem symbols_attach (t : Tree) (j : Joint) (u : Tree) :
    (t.attach j u).symbols = t.symbols ++ (j.symbols ++ u.symbols) := by
  induction t with
  | literal x | group t ih => rw [attach_of_yields rfl, j.symbols_join]
  | negation t ih | die upper t ih =>
    unfold attach
    split
    · exact j.symbols_join ..
    · simp [symbols, ih]
  | binary op l r ihl ihr | dice upper l r ihl ihr | product l r ihl ihr =>
    unfold attach
    split
    · exact j.symbols_join ..
    · simp [symbols, ihr]

theorem opensGroup_attach (t : Tree) (j : Joint) (u : Tree) :
    (t.attach j u).opensGroup = t.opensGroup := by
  unfold attach
  split
  · exact j.opensGroup_join ..
  · cases t <;> first | rfl | exact j.opensGroup_join ..

/-- What is joined to the right operand of an operator still is its operand. -/
theorem within_attach {power : Nat} (h : t.within power = true)
    (hj : power < j.power ∨ t.yields j.power = false) : (t.attach j u).within power = true := by
  by_cases hyields : t.yields j.power = true
  · rw [attach_of_yields hyields]
    exact j.within_join (hj.resolve_right (by simp [hyields])) t u
  · unfold attach
    rw [if_neg hyields]
    cases t with
    | literal x | group t => exact absurd rfl hyields
    | _ => exact h

/-- If a tree does not yield, its operator binds less tightly or its right
operand does not yield. -/
theorem lt_or_of_not_yields {power held : Nat} {yields : Bool}
    (h : ¬ (decide (power ≤ held) && yields) = true) : held < power ∨ yields = false := by
  simpa [not_and_or, -not_and, ← Bool.not_eq_true] using h

/-- A tree with an operand joined to it has parentheses wherever they are needed. -/
theorem grouped_attach (ht : t.grouped = true) (hu : u.grouped = true) (hclosed : u.closed = true)
    (hopens : j = .product → u.opensGroup = true) : (t.attach j u).grouped = true := by
  have hjoin : ∀ {t : Tree}, t.grouped = true → t.yields j.power = true →
      (j.join t u).grouped = true := fun ht hyields => grouped_join ht hu hclosed hyields hopens
  induction t with
  | literal x | group t ih =>
    rw [attach_of_yields rfl]
    exact hjoin ht rfl
  | negation t ih | die upper t ih =>
    unfold attach
    split
    · next hyields => exact hjoin ht hyields
    · next hyields =>
      simp only [grouped, Bool.and_eq_true] at ht ⊢
      exact ⟨ih ht.1, within_attach ht.2 (lt_or_of_not_yields hyields)⟩
  | binary op l r ihl ihr | dice upper l r ihl ihr =>
    unfold attach
    split
    · next hyields => exact hjoin ht hyields
    · next hyields =>
      simp only [grouped, Bool.and_eq_true] at ht ⊢
      obtain ⟨⟨⟨hl, hr⟩, hleft⟩, hright⟩ := ht
      exact ⟨⟨⟨hl, ihr hr⟩, hleft⟩, within_attach hright (lt_or_of_not_yields hyields)⟩
  | product l r ihl ihr =>
    unfold attach
    split
    · next hyields => exact hjoin ht hyields
    · next hyields =>
      simp only [grouped, Bool.and_eq_true] at ht ⊢
      obtain ⟨⟨⟨⟨hl, hr⟩, hleft⟩, hright⟩, hopen⟩ := ht
      exact ⟨⟨⟨⟨hl, ihr hr⟩, hleft⟩, within_attach hright (lt_or_of_not_yields hyields)⟩,
        (opensGroup_attach ..).trans hopen⟩

-- In `2 ^ -3` the dice `d 4` go below the minus sign, which binds less tightly.
example :
    (binary .pow (literal (.int 2)) (negation (literal (.int 3)))).attach (.dice false)
        (literal (.int 4)) =
      binary .pow (literal (.int 2))
        (negation (dice false (literal (.int 3)) (literal (.int 4)))) := by rfl

end Tree

/-! ## What can be read on from -/

namespace Grammar

/-- The symbols of a tree with its parentheses. -/
def Written (symbols : List Symbol) : Prop := ∃ t : Tree, t.grouped = true ∧ t.symbols = symbols

/-- Symbols that any operand may follow. -/
def Awaits (before : List Symbol) : Prop :=
  ∀ u : Tree, u.grouped = true → u.closed = true → Written (before ++ u.symbols)

/-- Symbols that any group may follow. -/
def AwaitsGroup (before : List Symbol) : Prop :=
  ∀ inner : Tree, inner.grouped = true → Written (before ++ inner.group.symbols)

theorem awaits_nil : Awaits [] := fun u hu _ => ⟨u, hu, rfl⟩

theorem Awaits.negation {before : List Symbol} (h : Awaits before) :
    Awaits (before ++ [.operator .sub]) := by
  intro u hu hclosed
  rw [List.append_assoc]
  exact h u.negation (by simp [Tree.grouped, hu, Tree.within_of_closed hclosed]) rfl

theorem Awaits.die {before : List Symbol} (h : Awaits before) (upper : Bool) :
    Awaits (before ++ [.operator (.dice upper)]) := by
  intro u hu hclosed
  rw [List.append_assoc]
  exact h (u.die upper) (by simp [Tree.grouped, hu, Tree.within_of_closed hclosed]) rfl

theorem Awaits.awaitsGroup {before : List Symbol} (h : Awaits before) : AwaitsGroup before :=
  fun inner hinner => h inner.group hinner rfl

theorem Written.awaits {symbols : List Symbol} (h : Written symbols) {j : Joint}
    (hj : j ≠ .product) : Awaits (symbols ++ j.symbols) := by
  intro u hu hclosed
  obtain ⟨t, ht, rfl⟩ := h
  refine ⟨t.attach j u, Tree.grouped_attach ht hu hclosed fun hproduct => absurd hproduct hj, ?_⟩
  rw [t.symbols_attach, List.append_assoc]

theorem Written.awaitsGroup {symbols : List Symbol} (h : Written symbols) :
    AwaitsGroup symbols := by
  intro inner hinner
  obtain ⟨t, ht, rfl⟩ := h
  refine ⟨t.attach .product inner.group, Tree.grouped_attach ht hinner rfl fun _ => rfl, ?_⟩
  rw [t.symbols_attach]
  rfl

/-- The symbols around an expression that stands in groups, up to its first: those of each
expression around it, and the parenthesis of the group. -/
inductive Around : List Nat → List Symbol → Prop
  | none : Around [] []
  | group {openings : List Nat} {around before : List Symbol} (index : Nat) :
      Around openings around → AwaitsGroup before →
      Around (index :: openings) (around ++ (before ++ [.operator .leftParen]))

/-- Whether symbols can be read on from in a mode. -/
def Ready : Mode → List Symbol → Prop
  | .operand => Awaits
  | .operator => Written

/-- What has been read: symbols that can be read on from, in the groups that are open. -/
def Viable (mode : Mode) (openings : List Nat) (read : List Symbol) : Prop :=
  ∃ around before, Around openings around ∧ Ready mode before ∧ read = around ++ before

/-- **What the grammar consumes can be read on from.** -/
theorem Viable.react {mode mode' : Mode} {openings openings' : List Nat} {read : List Symbol}
    (h : Viable mode openings read) {index : Nat} {symbol : Symbol}
    (hreact : Grammar.react openings index mode symbol = .consume (.ok (mode', openings'))) :
    Viable mode' openings' (read ++ [symbol]) := by
  obtain ⟨around, before, haround, hready, rfl⟩ := h
  rw [List.append_assoc]
  cases mode with
  | operand =>
    have hready : Awaits before := hready
    cases symbol with
    | number x =>
      cases hreact
      exact ⟨around, _, haround, hready (.literal x) rfl rfl, rfl⟩
    | operator op =>
      cases op with
      | sub =>
        cases hreact
        exact ⟨around, _, haround, hready.negation, rfl⟩
      | dice upper =>
        cases hreact
        exact ⟨around, _, haround, hready.die upper, rfl⟩
      | leftParen =>
        cases hreact
        exact ⟨_, [], .group index haround hready.awaitsGroup, awaits_nil, (List.append_nil _).symm⟩
      | add | mul | div | pow | rightParen => cases hreact
  | operator =>
    have hready : Written before := hready
    have hjoint : ∀ j : Joint, j ≠ .product →
        Viable .operand openings (around ++ (before ++ j.symbols)) :=
      fun j hj => ⟨around, _, haround, hready.awaits hj, rfl⟩
    cases symbol with
    | number x => cases hreact
    | operator op =>
      cases op with
      | leftParen =>
        cases hreact
        exact ⟨_, [], .group index haround hready.awaitsGroup, awaits_nil, (List.append_nil _).symm⟩
      | rightParen =>
        cases haround with
        | none => cases hreact
        | @group openings around before' index houter hbefore' =>
          cases hreact
          obtain ⟨t, ht, rfl⟩ := hready
          refine ⟨around, _, houter, hbefore' t ht, ?_⟩
          simp [Tree.symbols]
      | add =>
        cases hreact
        exact hjoint (.operator .add) (by decide)
      | sub =>
        cases hreact
        exact hjoint (.operator .sub) (by decide)
      | mul =>
        cases hreact
        exact hjoint (.operator .mul) (by decide)
      | div =>
        cases hreact
        exact hjoint (.operator .div) (by decide)
      | pow =>
        cases hreact
        exact hjoint (.operator .pow) (by decide)
      | dice upper =>
        cases hreact
        exact hjoint (.dice upper) (by simp)

/-- What is accepted to its end is consumed token by token. -/
theorem exists_of_checkFrom {mode : Mode} {openings : List Nat} {index : Nat} {token : Token}
    {rest : List Token}
    (h : checkFrom mode openings index (token :: rest) = ⟨.ok (), index + (token :: rest).length⟩) :
    ∃ symbol mode' openings', token.symbol = .ok symbol ∧
      react openings index mode symbol = .consume (.ok (mode', openings')) ∧
      checkFrom mode' openings' (index + 1) rest = ⟨.ok (), index + 1 + rest.length⟩ := by
  cases hsymbol : token.symbol with
  | error e => simp [checkFrom, hsymbol] at h
  | ok symbol =>
    cases hreact : react openings index mode symbol with
    | leave verdict => simp [checkFrom_leave hsymbol hreact] at h
    | consume next =>
      cases hrest : obstacle? rest with
      | some e => simp [checkFrom_blocked hsymbol hreact hrest] at h
      | none =>
        cases next with
        | error e => simp [checkFrom, hsymbol, hreact, hrest] at h
        | ok state =>
          rw [checkFrom_consume hsymbol hreact hrest, List.length_cons] at h
          exact ⟨symbol, state.1, state.2, rfl, hreact, by rw [h]; congr 1; omega⟩

/-- **Symbols that can be read on from are those of a tree**, with what the
grammar accepts after them. -/
theorem Viable.exists_tree {mode : Mode} {openings : List Nat} {read : List Symbol}
    (h : Viable mode openings read) {index : Nat} {tokens : List Token}
    (hcheck : checkFrom mode openings index tokens = ⟨.ok (), index + tokens.length⟩) :
    ∃ t : Tree, t.grouped = true ∧ read.map .ok ++ tokens.map Token.symbol = t.symbols.map .ok := by
  induction tokens generalizing mode openings read index with
  | nil =>
    obtain ⟨around, before, haround, hready, rfl⟩ := h
    cases mode with
    | operand => cases hcheck
    | operator =>
      cases haround with
      | none =>
        obtain ⟨t, ht, rfl⟩ := (hready : Written before)
        exact ⟨t, ht, List.append_nil _⟩
      | group _ _ _ => cases hcheck
  | cons token rest ih =>
    obtain ⟨symbol, mode', openings', hsymbol, hreact, hrest⟩ := exists_of_checkFrom hcheck
    obtain ⟨t, ht, hsymbols⟩ := ih (h.react hreact) hrest
    refine ⟨t, ht, ?_⟩
    rw [← hsymbols, List.map_append, List.append_assoc, List.map_cons, hsymbol]
    rfl

theorem viable_nil : Viable .operand [] [] := ⟨[], [], .none, awaits_nil, rfl⟩

/-! ## Trees are accepted -/

/-- A group is consumed after an operand as it is where an operand is expected. -/
theorem checkFrom_leftParen {token : Token} (hsymbol : token.symbol = .ok (.operator .leftParen))
    (openings : List Nat) (index : Nat) (rest : List Token) :
    checkFrom .operator openings index (token :: rest) =
      checkFrom .operand openings index (token :: rest) := by
  simp only [checkFrom, hsymbol, react]

theorem react_operator (op : BinaryOp) (openings : List Nat) (index : Nat) :
    react openings index .operator (.operator op.operator) =
      .consume (.ok (.operand, openings)) := by
  cases op <;> rfl

/-- The grammar consumes these symbols as an operand, and comes to what follows them. -/
def Passes (symbols : List Symbol) : Prop :=
  ∀ (tokens rest : List Token) (openings : List Nat) (index : Nat),
    tokens.map Token.symbol = symbols.map .ok → obstacle? rest = none →
    checkFrom .operand openings index (tokens ++ rest) =
      checkFrom .operator openings (index + tokens.length) rest

theorem passes_number (x : Number) : Passes [.number x] := by
  intro tokens rest openings index htokens hrest
  obtain ⟨token, rfl, hsymbol⟩ : ∃ token, tokens = [token] ∧ token.symbol = .ok (.number x) := by
    simpa [List.map_eq_cons_iff] using htokens
  exact checkFrom_consume hsymbol rfl hrest

theorem Passes.opening {symbols : List Symbol} (h : Passes symbols) {op : Operator}
    (hop : ∀ openings index,
      react openings index .operand (.operator op) = .consume (.ok (.operand, openings))) :
    Passes (.operator op :: symbols) := by
  intro tokens rest openings index htokens hrest
  obtain ⟨token, operand, rfl, hsymbol, hoperand⟩ := List.map_eq_cons_iff.1 htokens
  rw [List.cons_append, checkFrom_consume hsymbol (hop ..) (obstacle?_append hoperand hrest),
    h operand rest openings _ hoperand hrest, List.length_cons]
  congr 1
  omega

theorem Passes.between {symbols symbols' : List Symbol} (h : Passes symbols) (h' : Passes symbols')
    {op : Operator}
    (hop : ∀ openings index,
      react openings index .operator (.operator op) = .consume (.ok (.operand, openings))) :
    Passes (symbols ++ .operator op :: symbols') := by
  intro tokens rest openings index htokens hrest
  rw [List.map_append, List.map_eq_append_iff] at htokens
  obtain ⟨left, tail, rfl, hleft, htail⟩ := htokens
  obtain ⟨token, right, rfl, hsymbol, hright⟩ := List.map_eq_cons_iff.1 htail
  have hnext : obstacle? (token :: (right ++ rest)) = none := by
    simp only [obstacle?, hsymbol]
  rw [List.append_assoc, List.cons_append, h left _ openings index hleft hnext,
    checkFrom_consume hsymbol (hop ..) (obstacle?_append hright hrest),
    h' right rest openings _ hright hrest, List.length_append, List.length_cons]
  congr 1
  omega

theorem Passes.group {symbols : List Symbol} (h : Passes symbols) :
    Passes (.operator .leftParen :: (symbols ++ [.operator .rightParen])) := by
  intro tokens rest openings index htokens hrest
  obtain ⟨opening, tail, rfl, hopening, htail⟩ := List.map_eq_cons_iff.1 htokens
  rw [List.map_append, List.map_eq_append_iff] at htail
  obtain ⟨inner, last, rfl, hinner, hlast⟩ := htail
  obtain ⟨closing, rfl, hclosing⟩ : ∃ closing, last = [closing] ∧
      closing.symbol = .ok (.operator .rightParen) := by
    simpa [List.map_eq_cons_iff] using hlast
  have hnext : obstacle? (closing :: rest) = none := by
    simp only [obstacle?, hclosing]
  rw [List.cons_append, List.append_assoc, List.singleton_append,
    checkFrom_consume hopening rfl (obstacle?_append hinner hnext),
    h inner _ _ _ hinner hnext, checkFrom_consume hclosing rfl hrest, List.length_cons,
    List.length_append, List.length_singleton]
  congr 1
  omega

/-- The second factor begins with a group. -/
theorem Passes.product {symbols symbols' more : List Symbol} (h : Passes symbols)
    (h' : Passes symbols') (hopens : symbols' = .operator .leftParen :: more) :
    Passes (symbols ++ symbols') := by
  intro tokens rest openings index htokens hrest
  rw [List.map_append, List.map_eq_append_iff] at htokens
  obtain ⟨left, right, rfl, hleft, hright⟩ := htokens
  have hfactor := h' right rest openings (index + left.length) hright hrest
  have hnext := obstacle?_append hright hrest
  rw [hopens] at hright
  obtain ⟨token, inner, rfl, hsymbol, -⟩ := List.map_eq_cons_iff.1 hright
  rw [List.cons_append] at hfactor hnext
  rw [List.append_assoc, List.cons_append, h left _ openings index hleft hnext,
    checkFrom_leftParen hsymbol, hfactor, List.length_append, Nat.add_assoc]

/-- **The grammar consumes a tree as an operand.** -/
theorem passes_tree {t : Tree} (ht : t.grouped = true) : Passes t.symbols := by
  induction t with
  | literal x => exact passes_number x
  | negation t ih | die upper t ih =>
    simp only [Tree.grouped, Bool.and_eq_true] at ht
    exact (ih ht.1).opening fun _ _ => rfl
  | binary op l r ihl ihr =>
    simp only [Tree.grouped, Bool.and_eq_true] at ht
    obtain ⟨⟨⟨hl, hr⟩, -⟩, -⟩ := ht
    exact (ihl hl).between (ihr hr) (react_operator op)
  | dice upper l r ihl ihr =>
    simp only [Tree.grouped, Bool.and_eq_true] at ht
    obtain ⟨⟨⟨hl, hr⟩, -⟩, -⟩ := ht
    exact (ihl hl).between (ihr hr) fun _ _ => rfl
  | group t ih => exact (ih ht).group
  | product l r ihl ihr =>
    simp only [Tree.grouped, Bool.and_eq_true] at ht
    obtain ⟨⟨⟨⟨hl, hr⟩, -⟩, -⟩, hopens⟩ := ht
    obtain ⟨more, hmore⟩ := Tree.symbols_of_opensGroup hopens
    exact (ihl hl).product (ihr hr) hmore

end Grammar

/-- **What the grammar accepts are the trees**: it accepts all tokens of an expression if they are
those of a tree with its parentheses, and only then. -/
theorem Tree.check_iff (tokens : List Token) :
    Grammar.check tokens = ⟨.ok (), tokens.length⟩ ↔
      ∃ t : Tree, t.grouped = true ∧ tokens.map Token.symbol = t.symbols.map .ok := by
  constructor
  · intro hcheck
    have hcheck : Grammar.checkFrom .operand [] 0 tokens = ⟨.ok (), 0 + tokens.length⟩ := by
      rw [Nat.zero_add]
      exact hcheck
    exact Grammar.viable_nil.exists_tree hcheck
  · intro ⟨t, ht, htokens⟩
    have hcheck := Grammar.passes_tree ht tokens [] [] 0 htokens rfl
    rw [List.append_nil, Nat.zero_add] at hcheck
    exact hcheck

variable {σ : Type} [Roller σ]

/-- **What is evaluated to its end is a tree**, with parentheses wherever they are needed. -/
theorem Tray.exists_tree_of_evaluate {tray : Tray σ} {e : Expression}
    (hok : (tray.evaluate e).1.failed = false)
    (hend : ((Program.ofTokens e.tokens).run tray.reset).seen = e.tokens.length) :
    ∃ t : Tree, t.grouped = true ∧ e.tokens.map Token.symbol = t.symbols.map .ok := by
  obtain ⟨x, hx⟩ := run_ok_of_evaluate hok
  have hverdict : (Program.ofTokens e.tokens).verdict = .ok () := by
    cases hverdict : (Program.ofTokens e.tokens).verdict with
    | ok _ => rfl
    | error why =>
      obtain ⟨why', hfailed, -⟩ := Program.run_of_verdict hverdict tray.reset
      rw [hx] at hfailed
      cases hfailed
  have hseen : (Program.ofTokens e.tokens).seen = e.tokens.length :=
    (Program.run_endsAt _ tray.reset x hx).symm.trans hend
  apply (Tree.check_iff e.tokens).1
  rcases Program.follows_check e.tokens with ⟨hdeep, -, -⟩ | ⟨hsame, hat⟩
  · rw [hverdict] at hdeep
    cases hdeep
  · rw [hverdict] at hsame
    rw [hseen] at hat
    generalize Grammar.check e.tokens = report at hsame hat ⊢
    rw [hsame, hat]

end DiceNotation
