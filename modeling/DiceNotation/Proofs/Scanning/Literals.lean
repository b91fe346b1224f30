import Mathlib.Data.List.Induction
import Mathlib.Data.List.TakeWhile
import Mathlib.Data.Nat.Digits.Defs
import DiceNotation.Token.Scan

/-!
# DiceNotation.Proofs.Scanning.Literals

What a run of digits and points says. The two readers of numbers are tried one
after the other, and each goes through the run on its own terms; together they
come to three cases, told apart by the digits and points that are in the run.

* `Decimal.placeValue`: what a row of digits stands for, digit by digit;
* `Decimal.nat?_eq`, `Decimal.Literal.ofChars?_eq`: the two readers, on a run of digits and points;
* `Spells`, `Token.ofNumeric_iff`: the three cases.
-/

namespace DiceNotation

/-- Whether a character is a digit or a point. -/
def isNumeric (c : Char) : Bool := c.isDigit || c == '.'

namespace Decimal

/-! ## Digits -/

/-- The number that a digit stands for. -/
def digitValue (c : Char) : Nat := c.toNat - '0'.toNat

/-- The number that a row of digits stands for, each by its place before the end. -/
def placeValue (digits : List Char) : Nat := Nat.ofDigits 10 (digits.reverse.map digitValue)

theorem natOfDigits_eq (digits : List Char) : natOfDigits digits = placeValue digits := by
  induction digits using List.reverseRecOn with
  | nil => rfl
  | append_singleton digits c ih =>
    have hlast : natOfDigits (digits ++ [c]) = 10 * natOfDigits digits + digitValue c :=
      Nat.ofDigitChars_append 0
    rw [hlast, ih, placeValue, placeValue, List.reverse_concat, List.map_cons, Nat.ofDigits_cons,
      Nat.add_comm]

/-! ## Runs of digits and points -/

variable {run : List Char}

theorem isNumeric_iff {c : Char} : isNumeric c = true ↔ c.isDigit = true ∨ c = '.' := by
  simp [isNumeric]

/-- Without a point there are digits only. -/
theorem all_isDigit_iff (h : ∀ c ∈ run, isNumeric c = true) :
    run.all Char.isDigit = true ↔ '.' ∉ run := by
  rw [List.all_eq_true]
  constructor
  · intro hdigits hpoint
    exact absurd (hdigits '.' hpoint) (by decide)
  · intro hpoint c hc
    rcases isNumeric_iff.1 (h c hc) with hdigit | rfl
    · exact hdigit
    · exact absurd hc hpoint

/-- The number of a run of digits and points, if there is no point. -/
theorem nat?_eq (h : ∀ c ∈ run, isNumeric c = true) (hne : run ≠ []) :
    nat? run = if '.' ∈ run then none else some (placeValue run) := by
  have hempty : (!run.isEmpty) = true := by simpa using hne
  unfold nat?
  rw [hempty, Bool.true_and]
  by_cases hpoint : '.' ∈ run
  · have hall : ¬ run.all Char.isDigit = true := fun hall => (all_isDigit_iff h).1 hall hpoint
    rw [if_neg hall, if_pos hpoint]
  · rw [if_pos ((all_isDigit_iff h).2 hpoint), if_neg hpoint, natOfDigits_eq]

/-- The digits of a run, and the number of them after the point. -/
def spelled (run : List Char) : Literal :=
  ⟨placeValue (run.filter Char.isDigit), (run.dropWhile Char.isDigit).tail.length⟩

/-- A run of digits and points goes on with a point after its first digits, or not at all. -/
theorem split_run (h : ∀ c ∈ run, isNumeric c = true) :
    ∃ whole, (∀ c ∈ whole, c.isDigit = true) ∧
      (run = whole ∨ ∃ fraction, run = whole ++ '.' :: fraction) := by
  refine ⟨run.takeWhile Char.isDigit, List.all_eq_true.1 List.all_takeWhile, ?_⟩
  have hsplit : run.takeWhile Char.isDigit ++ run.dropWhile Char.isDigit = run :=
    List.takeWhile_append_dropWhile
  cases hrest : run.dropWhile Char.isDigit with
  | nil =>
    left
    rwa [hrest, List.append_nil, eq_comm] at hsplit
  | cons c fraction =>
    right
    have hdigit : ¬ c.isDigit = true := by
      have hne : run.dropWhile Char.isDigit ≠ [] := by
        rw [hrest]
        exact List.cons_ne_nil c fraction
      have hhead := List.head_dropWhile_not Char.isDigit hne
      simpa [hrest] using hhead
    have hmem : c ∈ run := (List.dropWhile_suffix _).subset (hrest ▸ List.mem_cons_self)
    obtain rfl : c = '.' := (isNumeric_iff.1 (h c hmem)).resolve_left hdigit
    exact ⟨fraction, by rw [← hrest, hsplit]⟩

theorem any_isDigit {digits : List Char} (h : ∀ c ∈ digits, c.isDigit = true) :
    digits.any Char.isDigit = !digits.isEmpty := by
  cases digits with
  | nil => rfl
  | cons c more => simp [h c List.mem_cons_self]

theorem count_point {digits : List Char} (h : ∀ c ∈ digits, c.isDigit = true) :
    digits.count '.' = 0 :=
  List.count_eq_zero.2 fun hpoint => absurd (h '.' hpoint) (by decide)

/-- The literal of a run of digits and points, if there is a digit and at most one point. -/
theorem Literal.ofChars?_eq (h : ∀ c ∈ run, isNumeric c = true) :
    Literal.ofChars? run =
      if run.any Char.isDigit = true ∧ run.count '.' ≤ 1 then some (spelled run) else none := by
  obtain ⟨whole, hwhole, rfl | ⟨fraction, rfl⟩⟩ := split_run h
  · have htake : run.takeWhile Char.isDigit = run := List.takeWhile_eq_self_iff.2 hwhole
    have hdrop : run.dropWhile Char.isDigit = [] := List.dropWhile_eq_nil_iff.2 hwhole
    simp only [ofChars?, spelled, htake, hdrop, any_isDigit hwhole, count_point hwhole,
      List.filter_eq_self.2 hwhole, natOfDigits_eq]
    cases run <;> rfl
  · have htake : (whole ++ '.' :: fraction).takeWhile Char.isDigit = whole := by
      rw [List.takeWhile_append_of_pos hwhole]
      exact List.append_nil whole
    have hdrop : (whole ++ '.' :: fraction).dropWhile Char.isDigit = '.' :: fraction :=
      List.dropWhile_append_of_pos hwhole
    have hcount : (whole ++ '.' :: fraction).count '.' = fraction.count '.' + 1 := by
      rw [List.count_append, count_point hwhole, List.count_cons_self, Nat.zero_add]
    have hany : (whole ++ '.' :: fraction).any Char.isDigit =
        (!whole.isEmpty || fraction.any Char.isDigit) := by
      rw [List.any_append, any_isDigit hwhole]
      rfl
    have hfilter : (whole ++ '.' :: fraction).filter Char.isDigit =
        whole ++ fraction.filter Char.isDigit := by
      rw [List.filter_append, List.filter_eq_self.2 hwhole]
      rfl
    have hfraction : ∀ c ∈ fraction, isNumeric c = true := fun c hc =>
      h c (List.mem_append_right _ (List.mem_cons_of_mem _ hc))
    simp only [ofChars?, spelled, htake, hdrop, hcount, hany, hfilter]
    by_cases hall : fraction.all Char.isDigit = true
    · have hdigits := List.all_eq_true.1 hall
      rw [any_isDigit hdigits, count_point hdigits, List.filter_eq_self.2 hdigits,
        hall, natOfDigits_eq]
      cases whole <;> cases fraction <;> rfl
    · -- The second point is in the fraction.
      have hpoint : '.' ∈ fraction := by
        by_contra hpoint
        exact hall ((all_isDigit_iff hfraction).2 hpoint)
      have hsecond : ¬ fraction.count '.' + 1 ≤ 1 := by
        have := List.count_pos_iff.2 hpoint
        omega
      simp [hall, hsecond]

end Decimal

/-! ## Numbers -/

/-- The number of a run of digits and points: an integer if there is no point and it fits 64 bits,
else a double if there is a digit and at most one point. -/
theorem Number.ofLiteral?_eq {run : List Char} (h : ∀ c ∈ run, isNumeric c = true)
    (hne : run ≠ []) :
    Number.ofLiteral? run =
      if '.' ∉ run ∧ (Decimal.placeValue run : Int) ≤ Number.greatest then
        some (.int (Int64.ofInt (Decimal.placeValue run)))
      else if run.any Char.isDigit = true ∧ run.count '.' ≤ 1 then
        some (.float (Decimal.spelled run).toFloat)
      else none := by
  have hliteral : (Decimal.Literal.ofChars? run).map (fun l => Number.float l.toFloat) =
      if run.any Char.isDigit = true ∧ run.count '.' ≤ 1 then
        some (.float (Decimal.spelled run).toFloat)
      else none := by
    rw [Decimal.Literal.ofChars?_eq h]
    split <;> rfl
  unfold Number.ofLiteral?
  rw [Decimal.nat?_eq h hne, hliteral]
  by_cases hpoint : '.' ∈ run
  · have hwhole : ¬ ('.' ∉ run ∧ (Decimal.placeValue run : Int) ≤ Number.greatest) :=
      fun hwhole => hwhole.1 hpoint
    rw [if_pos hpoint, if_neg hwhole]
  · rw [if_neg hpoint]
    show (if Number.Fits (Decimal.placeValue run) then _ else _) = _
    have hleast : Number.least ≤ (Decimal.placeValue run : Int) :=
      Int.le_trans (by decide) (Int.natCast_nonneg _)
    simp only [Number.Fits, hleast, true_and, hpoint, not_false_eq_true]

/-! ## Tokens -/

/-- What a run of digits and points says: an integer if there is no point and it fits 64 bits, else
a double if there is a digit and at most one point, and else nothing. -/
def Spells (run : List Char) (value : TokenValue) (error : Option TokenError) : Prop :=
  if '.' ∉ run ∧ (Decimal.placeValue run : Int) ≤ Number.greatest then
    ∃ n : Int64, n.toInt = Decimal.placeValue run ∧ value = .number (.int n) ∧ error = none
  else if run.any Char.isDigit = true ∧ run.count '.' ≤ 1 then
    value = .number (.float (Decimal.spelled run).toFloat) ∧ error = none
  else value = .text (String.ofList run) ∧ error = some .notANumber

/-- A natural number that fits 64 bits is that of one integer. -/
theorem toInt_eq_iff {n : Int64} {m : Nat} (h : (m : Int) ≤ Number.greatest) :
    n.toInt = m ↔ n = Int64.ofInt m := by
  constructor
  · intro hn
    rw [← hn, Int64.ofInt_toInt]
  · rintro rfl
    simp only [Number.greatest] at h
    exact Int64.toInt_ofInt_of_le (by omega) (by omega)

/-- **The token of a run of digits and points** says what the run spells. -/
theorem Token.ofNumeric_iff {run : List Char} (h : ∀ c ∈ run, isNumeric c = true) (hne : run ≠ [])
    (span : Span) (value : TokenValue) (error : Option TokenError) :
    Spells run value error ↔
      value = (Token.ofNumeric span run).value ∧ error = (Token.ofNumeric span run).error := by
  unfold Spells Token.ofNumeric
  rw [Number.ofLiteral?_eq h hne]
  by_cases hwhole : '.' ∉ run ∧ (Decimal.placeValue run : Int) ≤ Number.greatest
  · rw [if_pos hwhole, if_pos hwhole]
    simp only [toInt_eq_iff hwhole.2, exists_eq_left]
  · rw [if_neg hwhole, if_neg hwhole]
    split <;> rfl

end DiceNotation
