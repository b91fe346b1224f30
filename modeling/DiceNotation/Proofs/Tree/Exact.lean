import DiceNotation.Proofs.Finiteness
import DiceNotation.Proofs.Tree.Evaluation
import Mathlib.Algebra.Ring.Commute
import Mathlib.Algebra.Ring.Int.Defs

/-!
# DiceNotation.Proofs.Tree.Exact

Integers are calculated with exactly.

* `Tree.integer?`: the value of a tree of integers over the integers, with no bound on them;
* `Number.neg_ofInt`, `BinaryOp.apply_ofInt`: an operation on integers is exact if its result fits;
* `Program.Calculates`: steps that replace some integers on the stack by others,
  and never put a number there that is not an integer;
* `Tree.calculates`: the steps of a tree put its exact value on the stack, if the values of all its
  parts fit;
* `Tray.evaluate_exact`: so an evaluation comes to the exact value.

A double that is put on the stack may be an integer again once the outcome is
brought into its normal form, and a wrong one. So it is not enough to look at
the outcome: the stack is looked at throughout. Expressions are written trees
here; `DiceNotation.Proofs.Tree.Grammar` shows that all accepted ones are.
-/

namespace DiceNotation

/-! ## Exact values -/

/-- The exact value of an operator on integers. A quotient has none, nor has a
power unless its exponent is a 32-bit natural number. -/
def BinaryOp.integer? (op : BinaryOp) (m n : Int) : Option Int :=
  match op with
  | .add => some (m + n)
  | .sub => some (m - n)
  | .mul => some (m * n)
  | .div => none
  | .pow => if 0 ≤ n ∧ n < UInt32.size then some (m ^ n.toNat) else none

namespace Tree

/-- The exact value of a tree of integers without divisions and dice. -/
def integer? : Tree → Option Int
  | literal (.int n) => some n.toInt
  | literal (.float _) => none
  | negation t => t.integer?.map (- ·)
  | binary op l r => l.integer?.bind fun m => r.integer?.bind fun n => op.integer? m n
  | die .. | dice .. => none
  | group t => t.integer?
  | product l r => l.integer?.bind fun m => r.integer?.map fun n => m * n

/-- The subexpressions of a tree, and the tree itself. -/
def parts : Tree → List Tree
  | literal x => [literal x]
  | negation t => negation t :: t.parts
  | binary op l r => binary op l r :: (l.parts ++ r.parts)
  | die upper t => die upper t :: t.parts
  | dice upper l r => dice upper l r :: (l.parts ++ r.parts)
  | group t => group t :: t.parts
  | product l r => product l r :: (l.parts ++ r.parts)

theorem self_mem_parts (t : Tree) : t ∈ t.parts := by
  cases t <;> exact List.mem_cons_self

end Tree

/-! ## Operations on integers -/

namespace Number

/-- The number that is the integer `n`, if there is one. -/
def ofInt (n : Int) : Number := .int (Int64.ofInt n)

theorem ofInt_toInt (n : Int64) : ofInt n.toInt = .int n :=
  congrArg Number.int (Int64.ofInt_toInt n)

/-- A negative is exact if it fits. -/
theorem neg_ofInt {n : Int} (hn : Fits n) (h : Fits (-n)) : -ofInt n = ofInt (-n) := by
  rw [ofInt, neg_int, toInt_of_fits hn, exactOr_of_fits h, ofInt]

/-- The powers of `0`, `1` and `-1` repeat with the parity of the exponent. -/
theorem pow_of_natAbs_le_one {base : Int} (hbase : base.natAbs ≤ 1) {exponent : Nat}
    (h : 2 ≤ exponent) : base ^ (2 + exponent % 2) = base ^ exponent := by
  obtain rfl | rfl | rfl : base = 0 ∨ base = 1 ∨ base = -1 := by omega
  · rw [zero_pow (by omega), zero_pow (by omega)]
  · rw [one_pow, one_pow]
  · rw [neg_one_pow_eq_pow_mod_two, neg_one_pow_eq_pow_mod_two exponent]
    congr 1
    omega

/-- Other bases have no power that fits from the exponent 64 on. -/
theorem natAbs_le_one_of_fits {base : Int} {exponent : Nat} (hlarge : 64 ≤ exponent)
    (h : Fits (base ^ exponent)) : base.natAbs ≤ 1 := by
  by_contra hbase
  have hpow : 2 ^ 64 ≤ (base ^ exponent).natAbs := by
    rw [Int.natAbs_pow]
    exact Nat.le_trans (Nat.pow_le_pow_right (by decide) hlarge)
      (Nat.pow_le_pow_left (by omega) exponent)
  simp only [Fits, least, greatest] at h
  omega

/-- A power that fits is found. -/
theorem intPow?_of_fits {base : Int} {exponent : Nat} (h : Fits (base ^ exponent)) :
    intPow? base exponent = some (base ^ exponent) := by
  unfold intPow?
  split
  · rfl
  · next hlarge =>
    have hbase := natAbs_le_one_of_fits (Nat.le_of_not_lt hlarge) h
    rw [if_pos hbase]
    exact congrArg some (pow_of_natAbs_le_one hbase (by omega))

theorem pow_ofInt {m n : Int} (hm : Fits m) (hn : Fits n) (hexponent : 0 ≤ n ∧ n < UInt32.size)
    (h : Fits (m ^ n.toNat)) : ofInt m ^ ofInt n = ofInt (m ^ n.toNat) := by
  have hexact : exactPow? (Int64.ofInt m) (Int64.ofInt n) = some (Int64.ofInt (m ^ n.toNat)) := by
    rw [exactPow?, toInt_of_fits hm, toInt_of_fits hn, if_pos hexponent, intPow?_of_fits h,
      Option.bind_some, if_pos h]
  show ((exactPow? _ _).map Number.int).getD _ = _
  rw [hexact]
  rfl

end Number

open Number in
/-- **An operator on integers is exact if its result fits.** -/
theorem BinaryOp.apply_ofInt {op : BinaryOp} {m n k : Int} (hexact : op.integer? m n = some k)
    (hm : Fits m) (hn : Fits n) (hk : Fits k) (index : Nat) :
    op.apply index (ofInt m) (ofInt n) = .ok (ofInt k) := by
  cases op with
  | add =>
    cases hexact
    simp only [apply, ofInt, int_add_int, toInt_of_fits hm, toInt_of_fits hn, exactOr_of_fits hk]
  | sub =>
    cases hexact
    simp only [apply, ofInt, int_sub_int, toInt_of_fits hm, toInt_of_fits hn, exactOr_of_fits hk]
  | mul =>
    cases hexact
    simp only [apply, ofInt, int_mul_int, toInt_of_fits hm, toInt_of_fits hn, exactOr_of_fits hk]
  | div => cases hexact
  | pow =>
    rw [integer?] at hexact
    split at hexact
    · next hexponent =>
      cases hexact
      rw [apply, pow_ofInt hm hn hexponent hk]
    · cases hexact

/-! ## Steps on integers -/

namespace Program

/-- Steps that replace the topmost integers on the stack by others. -/
def TakesTo (steps : List Step) (before after : List Int) : Prop :=
  ∀ ⦃σ : Type⦄ [Roller σ] (seen : Nat) (stack : List Number) (tray : Tray σ),
    runSteps seen steps (before.map Number.ofInt ++ stack) tray =
      ⟨.ok (after.map Number.ofInt ++ stack), [], seen, tray⟩

/-- Steps that replace integers by others, and have only integers in their place all the way. -/
structure Calculates (steps : List Step) (before after : List Int) : Prop where
  result : TakesTo steps before after
  always : ∀ taken, taken <+: steps → ∃ between, TakesTo taken before between

theorem TakesTo.append {first second : List Step} {before between after : List Int}
    (hfirst : TakesTo first before between) (hsecond : TakesTo second between after) :
    TakesTo (first ++ second) before after := by
  intro σ _ seen stack tray
  rw [runSteps_append, hfirst, Run.bind_ok, Run.after_nil, hsecond]

/-- Where nothing is on the stack, what is left is all that is there. -/
theorem TakesTo.runSteps {σ : Type} [Roller σ] {steps : List Step} {after : List Int}
    (h : TakesTo steps [] after) (seen : Nat) (tray : Tray σ) :
    Program.runSteps seen steps [] tray = ⟨.ok (after.map Number.ofInt), [], seen, tray⟩ := by
  have hsteps := h seen [] tray
  rwa [List.map_nil, List.nil_append, List.append_nil] at hsteps

/-- Integers further down stay. -/
theorem TakesTo.frame {steps : List Step} {before after : List Int} (h : TakesTo steps before after)
    (below : List Int) : TakesTo steps (before ++ below) (after ++ below) := by
  intro σ _ seen stack tray
  rw [List.map_append, List.map_append, List.append_assoc, List.append_assoc]
  exact h seen _ tray

theorem Calculates.frame {steps : List Step} {before after : List Int}
    (h : Calculates steps before after) (below : List Int) :
    Calculates steps (before ++ below) (after ++ below) where
  result := h.result.frame below
  always taken htaken := by
    obtain ⟨between, hbetween⟩ := h.always taken htaken
    exact ⟨between ++ below, hbetween.frame below⟩

theorem Calculates.append {first second : List Step} {before between after : List Int}
    (hfirst : Calculates first before between) (hsecond : Calculates second between after) :
    Calculates (first ++ second) before after where
  result := hfirst.result.append hsecond.result
  always taken htaken := by
    rcases List.prefix_or_prefix_of_prefix htaken (List.prefix_append first second) with
      hinside | ⟨more, rfl⟩
    · exact hfirst.always taken hinside
    · obtain ⟨after', hafter'⟩ :=
        hsecond.always more ((List.prefix_append_right_inj first).1 htaken)
      exact ⟨after', hfirst.result.append hafter'⟩

/-- A step that replaces integers by others. -/
theorem calculates_step {step : Step} {before after : List Int}
    (h : ∀ ⦃σ : Type⦄ [Roller σ] (stack : List Number) (tray : Tray σ),
      step.perform (before.map Number.ofInt ++ stack) tray =
        ⟨.ok (after.map Number.ofInt ++ stack), [], step.seen, tray⟩) :
    Calculates [step] before after := by
  have hstep : TakesTo [step] before after := by
    intro σ _ seen stack tray
    rw [runSteps_cons_eq_bind, h]
    rfl
  refine ⟨hstep, ?_⟩
  intro taken htaken
  rcases List.prefix_concat_iff.1 (show taken <+: [] ++ [step] from htaken) with rfl | hnone
  · exact ⟨after, hstep⟩
  · rw [List.prefix_nil.1 hnone]
    exact ⟨before, fun _ _ _ _ _ => rfl⟩

theorem calculates_push (n : Int64) (seen : Nat) :
    Calculates [⟨.push (.int n), seen⟩] [] [n.toInt] := by
  apply calculates_step
  intro σ _ stack tray
  rw [List.map_singleton, Number.ofInt_toInt]
  rfl

theorem calculates_negate {n : Int} (hn : Number.Fits n) (h : Number.Fits (-n)) (seen : Nat) :
    Calculates [⟨.negate, seen⟩] [n] [-n] := by
  apply calculates_step
  intro σ _ stack tray
  simp only [Step.perform, List.map_singleton, List.singleton_append, Number.neg_ofInt hn h]
  rfl

theorem calculates_apply {op : BinaryOp} {m n k : Int} (hexact : op.integer? m n = some k)
    (hm : Number.Fits m) (hn : Number.Fits n) (hk : Number.Fits k) (index seen : Nat) :
    Calculates [⟨.apply op index, seen⟩] [n, m] [k] := by
  apply calculates_step
  intro σ _ stack tray
  simp only [Step.perform, List.map_cons, List.map_nil, List.cons_append, List.nil_append,
    op.apply_ofInt hexact hm hn hk]
  rfl

/-- The left operand, the right operand above it, and the operator. -/
theorem Calculates.apply {first second : List Step} {op : BinaryOp} {m n k : Int}
    (hfirst : Calculates first [] [m]) (hsecond : Calculates second [] [n])
    (hexact : op.integer? m n = some k) (hm : Number.Fits m) (hn : Number.Fits n)
    (hk : Number.Fits k) (index seen : Nat) :
    Calculates (first ++ (second ++ [⟨.apply op index, seen⟩])) [] [k] :=
  hfirst.append ((hsecond.frame [m]).append (calculates_apply hexact hm hn hk index seen))

end Program

namespace Tree

open Program

/-- The values of all parts of a tree are 64-bit integers, as far as they are integers. -/
def Fits (t : Tree) : Prop := ∀ part ∈ t.parts, ∀ n, part.integer? = some n → Number.Fits n

theorem Fits.of_subset {s t : Tree} (h : t.Fits) (hparts : s.parts ⊆ t.parts) : s.Fits :=
  fun part hpart => h part (hparts hpart)

theorem Fits.operands {t l r : Tree} (h : t.Fits) (hparts : t.parts = t :: (l.parts ++ r.parts)) :
    l.Fits ∧ r.Fits := by
  refine ⟨h.of_subset ?_, h.of_subset ?_⟩
  · rw [hparts]
    exact List.subset_cons_of_subset t (List.subset_append_left _ _)
  · rw [hparts]
    exact List.subset_cons_of_subset t (List.subset_append_right _ _)

theorem Fits.value {t : Tree} (h : t.Fits) {n : Int} (hvalue : t.integer? = some n) :
    Number.Fits n :=
  h t t.self_mem_parts n hvalue

/-- **The steps of a tree calculate its exact value**, if the values of all its parts fit. -/
theorem calculates {t : Tree} {n : Int} (hvalue : t.integer? = some n) (hfits : t.Fits)
    (start : Nat) :
    Calculates (t.steps start) [] [n] := by
  have hn := hfits.value hvalue
  induction t generalizing n start with
  | literal x =>
    cases x with
    | float x => cases hvalue
    | int v =>
      cases hvalue
      exact calculates_push v _
  | negation t ih =>
    obtain ⟨m, hm, rfl⟩ := Option.map_eq_some_iff.1 hvalue
    have ht : t.Fits := hfits.of_subset (List.subset_cons_self _ _)
    exact (ih hm ht _ (ht.value hm)).append (calculates_negate (ht.value hm) hn _)
  | binary op l r ihl ihr =>
    obtain ⟨m, hm, hvalue'⟩ := Option.bind_eq_some_iff.1 hvalue
    obtain ⟨k, hk, hexact⟩ := Option.bind_eq_some_iff.1 hvalue'
    obtain ⟨hl, hr⟩ := hfits.operands rfl
    exact (ihl hm hl _ (hl.value hm)).apply (ihr hk hr _ (hr.value hk)) hexact (hl.value hm)
      (hr.value hk) hn _ _
  | die upper t ih => cases hvalue
  | dice upper l r ihl ihr => cases hvalue
  | group t ih =>
    exact ih hvalue (hfits.of_subset (List.subset_cons_self _ _)) _ hn
  | product l r ihl ihr =>
    obtain ⟨m, hm, hvalue'⟩ := Option.bind_eq_some_iff.1 hvalue
    obtain ⟨k, hk, rfl⟩ := Option.map_eq_some_iff.1 hvalue'
    obtain ⟨hl, hr⟩ := hfits.operands rfl
    exact (ihl hm hl _ (hl.value hm)).apply (ihr hk hr _ (hr.value hk)) rfl (hl.value hm)
      (hr.value hk) hn _ _

end Tree

/-! ## Evaluating -/

variable {σ : Type} [Roller σ]

/-- **Integers are calculated with exactly.** An expression of integers without divisions and dice,
with 32-bit natural numbers as exponents, evaluates to its exact value, if the exact values of all
its subexpressions are 64-bit integers. Nothing is rolled and no token is changed. Wherever the run
gets, all numbers on the stack are integers: none is ever a double. -/
theorem Tray.evaluate_exact {t : Tree} (hgrouped : t.grouped = true)
    (hlevels : t.levels < levelLimit) {e : Expression}
    (htokens : e.tokens.map Token.symbol = t.symbols.map .ok) {n : Int}
    (hvalue : t.integer? = some n) (hfits : t.Fits) (tray : Tray σ) :
    tray.evaluate e = (⟨.ok (Number.ofInt n), e.text, [], e.tokens⟩, tray.reset) ∧
    (Int64.ofInt n).toInt = n ∧
    ∀ taken stack, (Program.ofTokens e.tokens).Reaches tray.reset taken stack →
      ∀ x ∈ stack, ∃ m : Int64, x = .int m := by
  have hcalculates := Tree.calculates hvalue hfits 0
  have hprogram := Tree.ofTokens_eq hgrouped hlevels htokens
  have hrun : (Program.ofTokens e.tokens).run tray.reset =
      ⟨.ok (Number.ofInt n), [], t.width, tray.reset⟩ := by
    rw [hprogram, Program.run, Program.runOn, hcalculates.result.runSteps]
    rfl
  refine ⟨?_, Number.toInt_of_fits (hfits.value hvalue), ?_⟩
  · rw [evaluate, hrun]
    rfl
  · rintro taken stack ⟨hfirst, hresult⟩
    rw [hprogram] at hfirst
    obtain ⟨between, hbetween⟩ := hcalculates.always taken hfirst
    rw [hbetween.runSteps] at hresult
    cases hresult
    intro x hx
    obtain ⟨m, -, rfl⟩ := List.mem_map.1 hx
    exact ⟨_, rfl⟩

/-- The tree of `-2^62 - 2^61(2)`. -/
def Tree.lowest : Tree :=
  .binary .sub (.negation (.binary .pow (.literal (.int 2)) (.literal (.int 62))))
    (.product (.binary .pow (.literal (.int 2)) (.literal (.int 61))) (.group (.literal (.int 2))))

/-- The least 64-bit integer, which no step leaves the range on the way to. -/
theorem Tray.evaluate_exact_lowest :
    let e := Expression.scan "-2^62 - 2^61(2)"
    Tree.lowest.grouped = true ∧ Tree.lowest.levels < levelLimit ∧
      e.tokens.map Token.symbol = Tree.lowest.symbols.map .ok ∧
      Tree.lowest.integer? = some (-9223372036854775808) ∧ Tree.lowest.Fits ∧
      (Tray.evaluate ⟨some 0, 0, (⟨3, 1⟩ : Roller.Stepping)⟩ e).1.outcome =
        .ok (.int (-9223372036854775808)) := by
  intro e
  have htokens : e.tokens.map Token.symbol = Tree.lowest.symbols.map .ok := by rfl
  have hvalue : Tree.lowest.integer? = some (-9223372036854775808) := by decide +kernel
  have hfits : Tree.lowest.Fits := by
    unfold Tree.Fits
    decide +kernel
  obtain ⟨heval, -, -⟩ := Tray.evaluate_exact (by decide) (by decide) htokens hvalue hfits
    (⟨some 0, 0, ⟨3, 1⟩⟩ : Tray Roller.Stepping)
  refine ⟨by decide, by decide, htokens, hvalue, hfits, ?_⟩
  rw [heval]
  rfl

end DiceNotation
