import DiceNotation.Proofs.Finiteness
import DiceNotation.Proofs.Normalizing
import DiceNotation.Proofs.Scanning
import DiceNotation.Proofs.Tree.Evaluation
import DiceNotation.Proofs.Writing

/-!
# DiceNotation.Proofs.RoundTrip

Values are written as expressions that can be fed back: digits, and a minus sign before them if the
value is negative. The sign is an operator, and what stands after it is read without it.

* `ReadsAs`: digits and points that are read as a number;
* `ReadsAs.scan_signed`, `ReadsAs.evaluateText`: the tokens of a number with a sign, and its value;
* `Tray.evaluateText_fraction`: fractions come back as they were;
* `Tray.evaluateText_int`: integers come back as they were, but for the least.
  Its magnitude is one too large for an integer, and the limit that keeps large
  doubles from becoming integers excludes it.
-/

namespace DiceNotation

open Binary64 Decimal

/-! ## Numbers with signs -/

/-- Digits and points that are read as a number. -/
structure ReadsAs (digits : List Char) (x : Number) : Prop where
  nonempty : digits ≠ []
  numeric : ∀ c ∈ digits, isNumeric c = true
  ofLiteral? : Number.ofLiteral? digits = some x

/-- A number, or its negative. -/
def Number.withSign (negative : Bool) (x : Number) : Number := if negative then -x else x

/-- The tokens of a number with a minus sign before it, or without one. -/
def signedTokens (negative : Bool) (digits : List Char) (x : Number) : List Token :=
  if negative then
    [{ value := .operator .sub, span := ⟨0, 1⟩ },
      { value := .number x, span := ⟨1, 1 + byteLength digits⟩ }]
  else [{ value := .number x, span := ⟨0, byteLength digits⟩ }]

namespace ReadsAs

variable {digits : List Char} {x : Number}

/-- There is one token, for all of the digits. -/
theorem tokensFrom_eq (h : ReadsAs digits x) (before : List Char) :
    tokensFrom before digits =
      [{ value := .number x,
         span := ⟨byteLength before, byteLength before + byteLength digits⟩ }] := by
  have hstands : Lexeme.number.Stands [] digits [] :=
    ⟨h.nonempty, h.numeric, nofun, fun _ => nofun, fun _ => nofun⟩
  have htoken : Token.ofNumeric (spanOf before digits) digits =
      { value := .number x, span := spanOf before digits } := by
    rw [Token.ofNumeric, h.ofLiteral?]
  have hdescribes :
      (Token.ofNumeric (spanOf before digits) digits).Describes .number before digits :=
    ⟨by rw [htoken], (Token.ofNumeric_iff h.numeric h.nonempty _ _ _).2 ⟨rfl, rfl⟩, by rw [htoken],
      by rw [htoken], by rw [htoken]⟩
  have hrun := (hstands.ofRun?_iff before _).2 hdescribes
  have hsplit := hstands.tokensFrom_eq before
  rw [List.nil_append, List.append_nil, List.append_nil, hrun, htoken, spanOf_eq] at hsplit
  exact hsplit

/-- **The tokens of a number with a sign** are the sign and the number. -/
theorem scan_signed (h : ReadsAs digits x) (negative : Bool) :
    (Expression.scan (String.ofList (signed negative digits))).tokens =
      signedTokens negative digits x := by
  rw [scan_tokens, String.toList_ofList]
  cases negative with
  | false =>
    rw [signed, if_neg Bool.false_ne_true, h.tokensFrom_eq, signedTokens, if_neg Bool.false_ne_true]
    simp [byteLength]
  | true =>
    have hstands : Lexeme.operator.Stands [] ['-'] digits :=
      ⟨List.cons_ne_nil _ _, List.forall_mem_singleton.2 rfl, fun _ => rfl, absurd rfl, absurd rfl⟩
    have hsplit := hstands.tokensFrom_eq []
    rw [signed, if_pos rfl, signedTokens, if_pos rfl]
    refine hsplit.trans ?_
    rw [List.nil_append, h.tokensFrom_eq]
    rfl

variable {σ : Type} [Roller σ]

/-- **A number with a sign** evaluates to its normal form. -/
theorem evaluateText (h : ReadsAs digits x) {negative : Bool} (hfinite : x.isFinite = true)
    (hsigned : (x.withSign negative).isFinite = true) (tray : Tray σ) :
    tray.evaluateText (String.ofList (signed negative digits)) =
      (⟨.ok (x.withSign negative).normalize, String.ofList (signed negative digits), [],
        signedTokens negative digits x⟩, tray.reset) := by
  have htokens := h.scan_signed negative
  rw [Tray.evaluateText, Tray.evaluate, htokens]
  cases negative with
  | false =>
    have hsymbols : (signedTokens false digits x).map Token.symbol =
        (Tree.literal x).symbols.map .ok := rfl
    have hrun := Tree.run_ofTokens (t := .literal x) rfl (show 0 < levelLimit by decide) hsymbols
      tray.reset
    rw [hrun, Tree.run, finite, if_pos hfinite]
    rfl
  | true =>
    have hsymbols : (signedTokens true digits x).map Token.symbol =
        (Tree.negation (.literal x)).symbols.map .ok := rfl
    have hnegative : (-x).isFinite = true := hsigned
    have hrun := Tree.run_ofTokens (t := .negation (.literal x)) rfl (show 1 < levelLimit by decide)
      hsymbols tray.reset
    rw [hrun, Tree.run, Tree.run, finite, if_pos hfinite, Run.bind_ok, finite, if_pos hnegative]
    rfl

end ReadsAs

variable {σ τ : Type} [Roller σ] [Roller τ]

/-! ## Fractions -/

/-- A double that is neither large nor small is written with a sign and digits that are read as its
magnitude. -/
theorem exists_readsAs {v : Float} (hfinite : v.isFinite = true)
    (hlower : (1 : ℚ) / 2000 ≤ (exact v).magnitude) (hupper : (exact v).exponent < 0) :
    ∃ digits a, Number.toText (.float v) = String.ofList (signed (exact v).negative digits) ∧
      ReadsAs digits (.float a) ∧ a.isFinite = true ∧
      (Number.float a).withSign (exact v).negative = .float v := by
  obtain ⟨y, a, hliteral, hreads, hexact⟩ := writeMagnitude_reads hfinite hlower hupper
  have ha : a.isFinite = true := by
    rw [isFinite_iff_bitsOf, hexact]
    exact (isFinite_iff_bitsOf v).1 hfinite
  refine ⟨_, a, Number.floatText_eq hfinite, ⟨hliteral.ne_nil, hliteral.isNumeric, hreads⟩, ha, ?_⟩
  cases hsign : (exact v).negative with
  | false =>
    have hv : exact v = exact a := hexact ▸ ExactFloat.eq_mk hsign ⟨rfl, rfl⟩
    exact congrArg Number.float (eq_of_exact hv).symm
  | true =>
    have hv : exact v = exact (-a) := by
      rw [exact_neg ha, hexact]
      exact ExactFloat.eq_mk hsign ⟨rfl, rfl⟩
    exact congrArg Number.float (eq_of_exact hv).symm

/-- A value is the normal form of a finite number. -/
theorem Tray.exists_normalize {tray : Tray σ} {e : Expression} {x : Number}
    (h : (tray.evaluate e).1.outcome = .ok x) :
    ∃ y : Number, y.isFinite = true ∧ y.normalize = x := by
  have houtcome : ((Program.ofTokens e.tokens).run tray.reset).result.map Number.normalize =
      .ok x := h
  cases hrun : ((Program.ofTokens e.tokens).run tray.reset).result with
  | error why =>
    rw [hrun] at houtcome
    cases houtcome
  | ok y =>
    rw [hrun] at houtcome
    cases houtcome
    exact ⟨y, Program.runOn_finite _ (List.forall_mem_nil _) tray.reset hrun, rfl⟩

theorem not_mem_signed {digits : List Char} (hnumeric : ∀ c ∈ digits, isNumeric c = true)
    (negative : Bool) {c : Char} (hc : isNumeric c = false) (hsign : c ≠ '-') :
    c ∉ signed negative digits := by
  have hdigits : c ∉ digits := fun hmem => by
    rw [hnumeric c hmem] at hc
    cases hc
  cases negative with
  | false => exact hdigits
  | true => exact List.not_mem_cons_of_ne_of_not_mem hsign hdigits

/-- **Printed fractions can be fed back.** If an expression evaluates to a
double with a fraction, then the text of the double is digits with a point, and
a minus sign before them if the double is negative, but no exponent. It is read
as these tokens, and evaluates to the same double on any tray. -/
theorem Tray.evaluateText_fraction {tray : Tray σ} {e : Expression} {v : Float}
    (h : (tray.evaluate e).1.outcome = .ok (.float v)) (hfraction : isWhole v = false)
    (again : Tray τ) :
    let text := Number.toText (.float v)
    ∃ digits a, ReadsAs digits (.float a) ∧
      (Number.float a).withSign (exact v).negative = .float v ∧
      text = String.ofList (signed (exact v).negative digits) ∧ 'e' ∉ text.toList ∧
      (Expression.scan text).tokens = signedTokens (exact v).negative digits (.float a) ∧
      again.evaluateText text =
        (⟨.ok (.float v), text, [], (Expression.scan text).tokens⟩, again.reset) := by
  intro text
  obtain ⟨x, hx, hnormal⟩ := exists_normalize h
  have hfinite : (Number.float v).isFinite = true := hnormal ▸ Number.isFinite_normalize hx
  have hsame : (Number.float v).normalize = .float v := by
    rw [← hnormal, Number.normalize_normalize]
  have hbounds : (1 : ℚ) / 2000 ≤ (exact v).magnitude ∧ (exact v).exponent < 0 := by
    obtain ⟨y, hy, rfl⟩ := Number.exists_of_normalize hnormal hfinite hfraction
    exact fraction_bounds hy hfraction
  obtain ⟨digits, a, htext, hreads, ha, hsigned⟩ := exists_readsAs hfinite hbounds.1 hbounds.2
  have htokens := hreads.scan_signed (exact v).negative
  have hevaluates := hreads.evaluateText ha (hsigned ▸ hfinite) again
  rw [← htext] at htokens hevaluates
  rw [hsigned, hsame] at hevaluates
  refine ⟨digits, a, hreads, hsigned, htext, ?_, htokens, htokens ▸ hevaluates⟩
  show 'e' ∉ (Number.toText (.float v)).toList
  rw [htext, String.toList_ofList]
  exact not_mem_signed hreads.numeric _ (by decide) (by decide)

/-- A third less than nothing, in thousandths. -/
theorem Tray.evaluateText_fraction_third :
    let tray : Tray Roller.Stepping := ⟨some 20, 0, ⟨1, 1⟩⟩
    let v := ofRatio true 333 1000
    (tray.evaluate (.scan "0 - 1/3")).1.outcome = .ok (.float v) ∧ isWhole v = false ∧
      Number.toText (.float v) = "-0.333" ∧
      (tray.evaluateText "-0.333").1.outcome = .ok (.float v) := by
  intro tray v
  have houtcome : (tray.evaluate (.scan "0 - 1/3")).1.outcome = .ok (.float v) := by decide +kernel
  have hfraction : isWhole v = false := by decide +kernel
  have htext : Number.toText (.float v) = "-0.333" := by decide +kernel
  obtain ⟨_, _, -, -, -, -, -, hagain⟩ := evaluateText_fraction houtcome hfraction tray
  rw [htext] at hagain
  exact ⟨houtcome, hfraction, htext, by rw [hagain]⟩

/-! ## Integers -/

/-- The number that the digits of a natural number are read as. -/
def Number.natural (n : ℕ) : Number :=
  if (n : ℤ) ≤ greatest then .int (Int64.ofInt n) else .float (ofRatio false n 1)

/-- The digits of a natural number are read as an integer, if it is not too large. -/
theorem readsAs_toDigits (n : ℕ) : ReadsAs (Nat.toDigits 10 n) (.natural n) := by
  have hdigits : ∀ c ∈ Nat.toDigits 10 n, c.isDigit = true := isDigit_of_mem_toDigits
  have hne : Nat.toDigits 10 n ≠ [] := List.ne_nil_of_length_pos Nat.length_toDigits_pos
  have hvalue : natOfDigits (Nat.toDigits 10 n) = n := Nat.ofDigitChars_ten_toDigits
  have hnat : nat? (Nat.toDigits 10 n) = some n := by
    simp [nat?, hne, List.all_eq_true.2 hdigits, hvalue]
  have hchars : Literal.ofChars? (Nat.toDigits 10 n) = some ⟨n, 0⟩ := by
    have htake := List.takeWhile_eq_self_iff.2 hdigits
    have hdrop := List.dropWhile_eq_nil_iff.2 hdigits
    simp [Literal.ofChars?, htake, hdrop, hne, hvalue]
  refine ⟨hne, fun c hc => isNumeric_iff.2 (.inl (hdigits c hc)), ?_⟩
  have hleast : Number.least ≤ (n : ℤ) := Int.le_trans (by decide) (Int.natCast_nonneg n)
  simp only [Number.ofLiteral?, hnat, hchars, Number.natural, Number.Fits, hleast, true_and]
  split <;> rfl

/-- The text of an integer. -/
theorem Number.toText_int (n : Int64) :
    toText (.int n) = String.ofList (signed (n.toInt < 0) (Nat.toDigits 10 n.toInt.natAbs)) := by
  show n.toInt.repr = _
  generalize n.toInt = k
  cases k with
  | ofNat m =>
    have hsign : ¬ Int.ofNat m < 0 := Int.not_lt.2 (Int.natCast_nonneg m)
    rw [decide_eq_false hsign]
    rfl
  | negSucc m =>
    rw [decide_eq_true (Int.negSucc_lt_zero m)]
    show "-" ++ String.ofList (Nat.toDigits 10 (m + 1)) = String.ofList (['-'] ++ _)
    rw [String.ofList_append]
    rfl

/-- The magnitude of an integer but the least is an integer, which the sign
makes the integer again. -/
theorem Number.withSign_natural {n : ℤ} (h : Fits n) (hleast : n ≠ least) :
    (natural n.natAbs).isFinite = true ∧
      (natural n.natAbs).withSign (n < 0) = .int (Int64.ofInt n) := by
  have hle : ((n.natAbs : ℕ) : ℤ) ≤ greatest := by
    simp only [Fits, least, greatest] at *
    omega
  rw [natural, if_pos hle]
  refine ⟨rfl, ?_⟩
  by_cases hsign : n < 0
  · have hfits : Fits (n.natAbs : ℕ) := ⟨Int.le_trans (by decide) (Int.natCast_nonneg _), hle⟩
    have hnegative : -((n.natAbs : ℕ) : ℤ) = n := by omega
    rw [withSign, if_pos (decide_eq_true hsign), neg_int, toInt_of_fits hfits, hnegative,
      exactOr_of_fits h]
  · have hpositive : ((n.natAbs : ℕ) : ℤ) = n := by omega
    rw [withSign, if_neg (by simpa using hsign), hpositive]

/-- The magnitude of the least integer is a double, and so is its negative. -/
theorem Number.withSign_least :
    (natural least.natAbs).isFinite = true ∧
      (natural least.natAbs).withSign (least < 0) = .float (ofInt least) ∧
      (Number.float (ofInt least)).isFinite = true ∧
      (Number.float (ofInt least)).normalize = .float (ofInt least) := by
  decide +kernel

/-- **Printed integers can be fed back, but for the least.** The text of an integer is its digits,
with a minus sign before them if it is negative. It evaluates to the same integer on any tray,
except that the least one comes back as a double. -/
theorem Tray.evaluateText_int (tray : Tray σ) (n : Int64) :
    let text := Number.toText (.int n)
    tray.evaluateText text =
      (⟨.ok (if n.toInt = Number.least then .float (ofInt Number.least) else .int n), text, [],
        signedTokens (n.toInt < 0) (Nat.toDigits 10 n.toInt.natAbs) (.natural n.toInt.natAbs)⟩,
      tray.reset) := by
  intro text
  have htext : text = _ := Number.toText_int n
  have hreads := readsAs_toDigits n.toInt.natAbs
  rw [htext]
  by_cases hleast : n.toInt = Number.least
  · obtain ⟨hfinite, hsigned, hfloat, hnormal⟩ := Number.withSign_least
    rw [hleast] at hreads ⊢
    rw [hreads.evaluateText hfinite (hsigned ▸ hfloat), hsigned, hnormal, if_pos rfl]
  · have hfits : Number.Fits n.toInt := ⟨n.le_toInt, Int.le_of_lt_add_one n.toInt_lt⟩
    obtain ⟨hfinite, hsigned⟩ := Number.withSign_natural hfits hleast
    rw [Int64.ofInt_toInt] at hsigned
    rw [hreads.evaluateText hfinite (hsigned ▸ Number.isFinite_int n), hsigned, if_neg hleast]
    rfl

/-- The least integer is the value of a difference, but its own text evaluates to a double. -/
theorem Tray.evaluateText_int_least :
    let tray : Tray Roller.Stepping := ⟨some 20, 0, ⟨1, 1⟩⟩
    let n : Int64 := -9223372036854775808
    (tray.evaluateText "0 - 9223372036854775807 - 1").1.outcome = .ok (.int n) ∧
      Number.toText (.int n) = "-9223372036854775808" ∧
      (tray.evaluateText "-9223372036854775808").1.outcome = .ok (.float (ofInt Number.least)) ∧
      (tray.evaluateText "-9223372036854775808").1.outcome ≠ .ok (.int n) := by
  decide +kernel

end DiceNotation
