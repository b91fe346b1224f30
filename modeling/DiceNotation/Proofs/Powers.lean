import DiceNotation.Proofs.Tree.Exact
import DiceNotation.Roller.Stepping
import Mathlib.Algebra.Ring.Int.Parity

/-!
# DiceNotation.Proofs.Powers

Which powers of integers are exact.

* `Number.pow_of_large`: an exponent that is not a 32-bit natural number sends
  the power to doubles, even where the exact power fits;
* `Number.int_pow_eq_iff`: so a power that fits is exact up to the exponent
  `2 ^ 32 - 1` and no further;
* `Tree.evaluate_pow`: an expression that is a power of integers comes to that power, exact or not;
* `Number.pow_exact`: the two together, and the bases that are left for larger exponents.

The doubles around a large exponent are all even, and the parity of the exponent
is all that a power of `-1` depends on. So two powers of `-1` of opposite sign
are done as one (`Tray.evaluate_pow_parity`).
-/

namespace DiceNotation

namespace Number

/-- A power is done in doubles if the exponent is too large. -/
theorem pow_of_large {m n : Int64} (h : (UInt32.size : Int) ≤ n.toInt) :
    (int m ^ int n : Number) = floatPow (int m) (int n) := by
  have hnone : exactPow? m n = none := by
    rw [exactPow?, if_neg]
    omega
  show ((exactPow? m n).map Number.int).getD _ = _
  rw [hnone]
  rfl

/-- A power of integers that fits is an integer if and only if the exponent is a 32-bit natural
number, and then it is the exact one. -/
theorem int_pow_eq_iff {m n : Int64} (hexponent : 0 ≤ n.toInt)
    (h : Fits (m.toInt ^ n.toInt.toNat)) :
    (int m ^ int n : Number) = ofInt (m.toInt ^ n.toInt.toNat) ↔ n.toInt < UInt32.size := by
  constructor
  · intro hexact
    by_contra hlarge
    rw [pow_of_large (not_lt.1 hlarge)] at hexact
    cases hexact
  · intro hsmall
    have hpow := pow_ofInt ⟨m.le_toInt, m.toInt_le⟩ ⟨n.le_toInt, n.toInt_le⟩ ⟨hexponent, hsmall⟩ h
    rwa [ofInt_toInt, ofInt_toInt] at hpow

end Number

/-! ## Evaluating a power -/

variable {σ : Type} [Roller σ]

/-- What is wrong with a number that is not finite is not said at any token. -/
theorem annotate_finite (tokens : List Token) (x : Number) :
    annotate tokens [] (finite x) = tokens := by
  unfold finite
  split <;> rfl

/-- An expression that is written as a power of integers evaluates to their
power. Nothing is rolled, and no token is changed. -/
theorem Tree.evaluate_pow {l r : Tree} (hgrouped : (Tree.binary .pow l r).grouped = true)
    (hlevels : (Tree.binary .pow l r).levels < levelLimit) {e : Expression}
    (htokens : e.tokens.map Token.symbol = (Tree.binary .pow l r).symbols.map .ok) {m n : Int64}
    (hm : l.integer? = some m.toInt) (hn : r.integer? = some n.toInt) (hl : l.Fits) (hr : r.Fits)
    (tray : Tray σ) :
    tray.evaluate e =
      (⟨(finite (Number.int m ^ Number.int n)).map Number.normalize, e.text, [], e.tokens⟩,
        tray.reset) := by
  let index := 0 + l.width
  let seen := index + 1 + r.width
  let power : Run σ Number := ⟨finite (Number.int m ^ Number.int n), [], seen, tray.reset⟩
  have hleft := Tree.calculates hm hl 0
  have hright := (Tree.calculates hn hr (index + 1)).frame [m.toInt]
  have hoperands := (hleft.append hright).result.runSteps seen tray.reset
  rw [List.map_append, List.map_singleton, List.map_singleton, Number.ofInt_toInt,
    Number.ofInt_toInt] at hoperands
  have hseen : (Tree.binary .pow l r).width = seen := by
    simp only [Tree.width, seen, index, Nat.zero_add]
  have hrun : (Program.ofTokens e.tokens).run tray.reset = power := by
    rw [Tree.ofTokens_eq hgrouped hlevels htokens, Program.run, Program.runOn, hseen]
    simp only [Tree.steps]
    rw [← List.append_assoc, Program.runSteps_append, hoperands, Run.bind_ok, Run.after_nil,
      Program.runSteps_of_perform (r := power) rfl]
    simp only [power]
    cases finite (Number.int m ^ Number.int n) <;> rfl
  rw [Tray.evaluate, hrun]
  simp only [power, annotate_finite, List.map_nil]

/-- **A power of integers that fits is exact if its exponent is a 32-bit natural
number, and only then.** For a larger exponent the base is `0`, `1` or `-1`, and
the power is done in doubles. The same goes for an expression that is written as
the power, whatever integers its operands are calculated from. -/
theorem Number.pow_exact (m n : Int64) (hexponent : 0 ≤ n.toInt)
    (hfits : Number.Fits (m.toInt ^ n.toInt.toNat)) :
    let power := Number.int m ^ Number.int n
    let exact := Number.ofInt (m.toInt ^ n.toInt.toNat)
    (power = exact ↔ n.toInt < UInt32.size) ∧
    (UInt32.size ≤ n.toInt →
      m.toInt.natAbs ≤ 1 ∧ power = Number.floatPow (.int m) (.int n)) ∧
    ∀ {σ : Type} [Roller σ] (tray : Tray σ) (l r : Tree) (e : Expression),
      (Tree.binary .pow l r).grouped = true → (Tree.binary .pow l r).levels < levelLimit →
      e.tokens.map Token.symbol = (Tree.binary .pow l r).symbols.map .ok →
      l.integer? = some m.toInt → r.integer? = some n.toInt → l.Fits → r.Fits →
        tray.evaluate e =
          (⟨(finite power).map Number.normalize, e.text, [], e.tokens⟩, tray.reset) ∧
        (n.toInt < UInt32.size → (tray.evaluate e).1.outcome = .ok exact) := by
  intro power exact
  have hexact : power = exact ↔ n.toInt < UInt32.size := Number.int_pow_eq_iff hexponent hfits
  refine ⟨hexact, ?_, ?_⟩
  · intro hlarge
    have hsize : (64 : Int) ≤ UInt32.size := by decide
    exact ⟨Number.natAbs_le_one_of_fits (by omega) hfits, Number.pow_of_large hlarge⟩
  · intro σ _ tray l r e hgrouped hlevels htokens hm hn hl hr
    have hevaluate := Tree.evaluate_pow hgrouped hlevels htokens hm hn hl hr tray
    refine ⟨hevaluate, ?_⟩
    intro hsmall
    have hpower : Number.int m ^ Number.int n = exact := hexact.2 hsmall
    rw [hevaluate, hpower]
    rfl

/-- The least 64-bit integer is a power, and an expression that is written as
this power comes to it. -/
theorem Number.pow_exact_least :
    Number.Fits ((-2) ^ 63) ∧
      (Number.int (-2) ^ Number.int 63 : Number) = Number.ofInt ((-2) ^ 63) ∧
      (Tray.evaluate ⟨none, 0, (⟨3, 1⟩ : Roller.Stepping)⟩ (.scan "(-2)^63")).1.outcome =
        .ok (.int (-9223372036854775808)) := by
  have hfits : Number.Fits ((-2) ^ 63) := by decide
  obtain ⟨hexact, -, hevaluate⟩ := Number.pow_exact (-2) 63 (by decide) hfits
  refine ⟨hfits, hexact.2 (by decide), ?_⟩
  have htokens : (Expression.scan "(-2)^63").tokens.map Token.symbol =
      (Tree.binary .pow (.group (.negation (.literal (.int 2)))) (.literal (.int 63))).symbols.map
        .ok := by rfl
  refine ((hevaluate ⟨none, 0, (⟨3, 1⟩ : Roller.Stepping)⟩ (.group (.negation (.literal (.int 2))))
    (.literal (.int 63)) _ (by decide) (by decide) htokens rfl rfl ?_ ?_).2 (by decide)).trans rfl
  all_goals
    unfold Tree.Fits
    decide

/-- The tree of `(-1)^n`. -/
def Tree.minusOnePow (n : Int64) : Tree :=
  .binary .pow (.group (.negation (.literal (.int 1)))) (.literal (.int n))

theorem Tree.evaluate_minusOnePow {n : Int64} {e : Expression}
    (htokens : e.tokens.map Token.symbol = (Tree.minusOnePow n).symbols.map .ok) (tray : Tray σ) :
    (tray.evaluate e).1.outcome =
      (finite (Number.int (-1) ^ Number.int n)).map Number.normalize := by
  have hbase : (Tree.group (.negation (.literal (.int 1)))).Fits := by
    unfold Tree.Fits
    decide
  have hexponent : (Tree.literal (.int n)).Fits := by
    intro part hpart k hk
    rw [List.mem_singleton.1 hpart] at hk
    cases hk
    exact ⟨n.le_toInt, n.toInt_le⟩
  have hlevels : (Tree.minusOnePow n).levels < levelLimit := show 2 < 256 by decide
  rw [Tree.evaluate_pow (m := -1) rfl hlevels htokens rfl rfl hbase hexponent]

/-- **A large exponent loses its parity.** The double nearest to `9223372036854775807` is also
nearest to the even number before it. So two powers of `-1` of opposite sign are done as one, and
the expressions come to the same: at most one of them can come to its exact value. -/
theorem Tray.evaluate_pow_parity :
    let tray : Tray Roller.Stepping := ⟨none, 0, ⟨3, 1⟩⟩
    Number.Fits ((-1) ^ 9223372036854775807) ∧
      Number.int (-1) ^ Number.int 9223372036854775807 ≠ Number.ofInt ((-1) ^ 9223372036854775807) ∧
      (tray.evaluate (.scan "(-1)^9223372036854775807")).1.outcome =
        (tray.evaluate (.scan "(-1)^9223372036854775806")).1.outcome ∧
      Number.ofInt ((-1) ^ 9223372036854775807) ≠ Number.ofInt ((-1) ^ 9223372036854775806) := by
  intro tray
  have hodd : (-1 : Int) ^ 9223372036854775807 = -1 := Odd.neg_one_pow (by decide)
  have heven : (-1 : Int) ^ 9223372036854775806 = 1 := Even.neg_one_pow (by decide)
  have hpower : Number.int (-1) ^ Number.int 9223372036854775807 =
      Number.floatPow (.int (-1)) (.int 9223372036854775807) := Number.pow_of_large (by decide)
  have hpower' : Number.int (-1) ^ Number.int 9223372036854775806 =
      Number.floatPow (.int (-1)) (.int 9223372036854775806) := Number.pow_of_large (by decide)
  have hdouble : (Number.int 9223372036854775807).toFloat =
      (Number.int 9223372036854775806).toFloat := by
    decide +kernel
  have hsame : Number.int (-1) ^ Number.int 9223372036854775807 =
      Number.int (-1) ^ Number.int 9223372036854775806 := by
    rw [hpower, hpower', Number.floatPow, Number.floatPow, hdouble]
  refine ⟨?_, ?_, ?_, ?_⟩
  · rw [hodd]
    decide
  · rw [hodd, hpower]
    exact Number.noConfusion
  · rw [Tree.evaluate_minusOnePow (n := 9223372036854775807) rfl,
      Tree.evaluate_minusOnePow (n := 9223372036854775806) rfl, hsame]
  · rw [hodd, heven]
    decide

end DiceNotation
