import DiceNotation.Number.Text
import DiceNotation.Proofs.Scanning.Literals
import DiceNotation.Proofs.Shortest

/-!
# DiceNotation.Proofs.Writing

What the text of a double says.

* `PointLiteral`: digits with a point among them, and the rational that they stand for;
* `PointLiteral.ofLiteral?`: read as a literal they are the double nearest to it;
* `positional_value`, `writeDecimal_pointLiteral`: decimals that are neither
  large nor small are written that way, with the value that they have, and so is
  all that is written without an exponent (`writeDecimal_cases`);
* `Number.floatText_eq`: the text of a double is its sign and its magnitude;
* `Binary64.writeMagnitude_reads`: the magnitude of a double that is neither
  large nor small reads back;
* `Binary64.writeMagnitude_plain`: so does any magnitude that is written without an exponent.
-/

namespace DiceNotation

namespace Decimal

/-! ## Rows of digits -/

theorem placeValue_append (first second : List Char) :
    placeValue (first ++ second) = placeValue first * 10 ^ second.length + placeValue second := by
  simp only [placeValue, List.reverse_append, List.map_append, Nat.ofDigits_append, List.length_map,
    List.length_reverse]
  ring

theorem placeValue_zeros (n : ℕ) : placeValue (List.replicate n '0') = 0 := by
  induction n with
  | zero => rfl
  | succ n ih => rw [List.replicate_succ', placeValue_append, ih]; rfl

theorem placeValue_toDigits (n : ℕ) : placeValue (Nat.toDigits 10 n) = n := by
  rw [← natOfDigits_eq]
  exact Nat.ofDigitChars_ten_toDigits

theorem isDigit_of_mem_toDigits {n : ℕ} : ∀ c ∈ Nat.toDigits 10 n, c.isDigit = true :=
  fun _ hc => Nat.isDigit_of_mem_toDigits (by decide) (by decide) hc

/-- Only zeros are left out of the digits of a number. -/
theorem significantDigits_append (n : ℕ) :
    ∃ zeros, Nat.toDigits 10 n = significantDigits n ++ List.replicate zeros '0' := by
  have hsplit := congrArg List.reverse
    (List.takeWhile_append_dropWhile (p := (· == '0')) (l := (Nat.toDigits 10 n).reverse))
  rw [List.reverse_reverse, List.reverse_append] at hsplit
  refine ⟨((Nat.toDigits 10 n).reverse.takeWhile (· == '0')).length, ?_⟩
  have hzeros : (Nat.toDigits 10 n).reverse.takeWhile (· == '0') =
      List.replicate ((Nat.toDigits 10 n).reverse.takeWhile (· == '0')).length '0' := by
    apply List.eq_replicate_of_mem
    intro c hc
    simpa using List.all_eq_true.1 List.all_takeWhile c hc
  conv_lhs => rw [← hsplit, hzeros, List.reverse_replicate]
  rfl

theorem isDigit_of_mem_significantDigits {n : ℕ} : ∀ c ∈ significantDigits n, c.isDigit = true := by
  obtain ⟨zeros, hzeros⟩ := significantDigits_append n
  exact fun c hc => isDigit_of_mem_toDigits c (hzeros ▸ List.mem_append_left _ hc)

/-- A number has as many places more than it has significant digits as it is a multiple of tens. -/
theorem significantDigits_spec (n : ℕ) :
    ∃ zeros, (Nat.toDigits 10 n).length = (significantDigits n).length + zeros ∧
      n = placeValue (significantDigits n) * 10 ^ zeros := by
  obtain ⟨zeros, hzeros⟩ := significantDigits_append n
  refine ⟨zeros, ?_, ?_⟩
  · rw [hzeros, List.length_append, List.length_replicate]
  · calc n = placeValue (significantDigits n ++ List.replicate zeros '0') := by
          rw [← hzeros, placeValue_toDigits]
      _ = placeValue (significantDigits n) * 10 ^ zeros := by
          rw [placeValue_append, placeValue_zeros, List.length_replicate, Nat.add_zero]

/-! ## Digits with a point -/

/-- Digits with a point among them, and the rational that they stand for. -/
def PointLiteral (text : List Char) (x : ℚ) : Prop :=
  ∃ whole fraction, text = whole ++ '.' :: fraction ∧ whole ≠ [] ∧
    (∀ c ∈ whole ++ fraction, c.isDigit = true) ∧
    x = placeValue (whole ++ fraction) / 10 ^ fraction.length

theorem PointLiteral.isNumeric {text : List Char} {x : ℚ} (h : PointLiteral text x) :
    ∀ c ∈ text, isNumeric c = true := by
  obtain ⟨whole, fraction, rfl, -, hdigits, -⟩ := h
  intro c hc
  simp only [List.mem_append, List.mem_cons] at hc hdigits
  rcases hc with hc | rfl | hc
  · exact isNumeric_iff.2 (.inl (hdigits c (.inl hc)))
  · rfl
  · exact isNumeric_iff.2 (.inl (hdigits c (.inr hc)))

theorem PointLiteral.ne_nil {text : List Char} {x : ℚ} (h : PointLiteral text x) : text ≠ [] := by
  obtain ⟨whole, fraction, rfl, hne, -, -⟩ := h
  exact List.append_ne_nil_of_left_ne_nil hne _

/-- **Read as a literal** they are the double nearest to the rational. -/
theorem PointLiteral.ofLiteral? {text : List Char} {x : ℚ} (h : PointLiteral text x) :
    ∃ num den : ℕ, 0 < den ∧ (num : ℚ) / den = x ∧
      Number.ofLiteral? text = some (.float (Binary64.ofRatio false num den)) := by
  obtain ⟨whole, fraction, rfl, hne, hdigits, rfl⟩ := h
  have hwhole : ∀ c ∈ whole, c.isDigit = true := fun c hc => hdigits c (List.mem_append_left _ hc)
  have hfraction : ∀ c ∈ fraction, c.isDigit = true := fun c hc =>
    hdigits c (List.mem_append_right _ hc)
  refine ⟨placeValue (whole ++ fraction), Nat.pow 10 fraction.length,
    Nat.pow_pos (by decide), ?_, ?_⟩
  · rw [Nat.pow_eq]
    push_cast
    rfl
  · have hnat : nat? (whole ++ '.' :: fraction) = none := by simp [nat?]
    have htake : (whole ++ '.' :: fraction).takeWhile Char.isDigit = whole := by
      rw [List.takeWhile_append_of_pos hwhole]
      exact List.append_nil whole
    have hdrop : (whole ++ '.' :: fraction).dropWhile Char.isDigit = '.' :: fraction :=
      List.dropWhile_append_of_pos hwhole
    have hempty : whole.isEmpty = false := by simpa using hne
    have hall : fraction.all Char.isDigit = true := List.all_eq_true.2 hfraction
    simp only [Number.ofLiteral?, hnat, Literal.ofChars?, htake, hdrop, hall,
      hempty, natOfDigits_eq]
    rfl

/-! ## Positional notation -/

theorem all_isDigit_append {first second : List Char} (hfirst : ∀ c ∈ first, c.isDigit = true)
    (hsecond : ∀ c ∈ second, c.isDigit = true) : ∀ c ∈ first ++ second, c.isDigit = true :=
  List.forall_mem_append.2 ⟨hfirst, hsecond⟩

theorem isDigit_zeros (n : ℕ) : ∀ c ∈ List.replicate n '0', c.isDigit = true := by
  intro c hc
  rw [List.eq_of_mem_replicate hc]
  rfl

/-- **Digits in positional notation** stand for the decimal with the point at that place. -/
theorem positional_pointLiteral {digits : List Char} (hdigits : ∀ c ∈ digits, c.isDigit = true)
    (point : ℤ) :
    PointLiteral (positional digits point) (placeValue digits * 10 ^ (point - digits.length)) := by
  unfold positional
  split
  case isTrue hpoint =>
    obtain ⟨n, hn⟩ : ∃ n : ℕ, (-point).toNat = n := ⟨_, rfl⟩
    have hexponent : point - digits.length = -((n + digits.length : ℕ) : ℤ) := by omega
    refine ⟨['0'], List.replicate n '0' ++ digits, by rw [hn]; rfl, List.cons_ne_nil _ _,
      all_isDigit_append (isDigit_zeros 1) (all_isDigit_append (isDigit_zeros n) hdigits), ?_⟩
    have hzero : placeValue ['0'] = 0 := rfl
    rw [placeValue_append, placeValue_append, placeValue_zeros, hzero, List.length_append,
      List.length_replicate, hexponent, zpow_neg, zpow_natCast, Nat.zero_mul, Nat.zero_mul,
      Nat.zero_add, Nat.zero_add, div_eq_mul_inv]
  case isFalse hpoint =>
    dsimp only
    obtain ⟨n, hn⟩ : ∃ n : ℕ, point.toNat = n := ⟨_, rfl⟩
    have hpos : 0 < n := by omega
    rw [hn]
    split
    case isTrue hle =>
      have hexponent : point - digits.length = ((n - digits.length : ℕ) : ℤ) := by omega
      refine ⟨digits ++ List.replicate (n - digits.length) '0', ['0'], rfl, ?_,
        all_isDigit_append (all_isDigit_append hdigits (isDigit_zeros _)) (isDigit_zeros 1), ?_⟩
      · intro hempty
        have hlength := congrArg List.length hempty
        simp only [List.length_append, List.length_replicate, List.length_nil] at hlength
        omega
      · have hzero : placeValue ['0'] = 0 := rfl
        rw [placeValue_append, placeValue_append, placeValue_zeros, hzero, List.length_replicate,
          hexponent, zpow_natCast]
        push_cast
        simp
    case isFalse hlt =>
      have hexponent : point - digits.length = -((digits.length - n : ℕ) : ℤ) := by omega
      refine ⟨digits.take n, digits.drop n, rfl, ?_, by rwa [List.take_append_drop], ?_⟩
      · intro hempty
        have hlength := congrArg List.length hempty
        simp only [List.length_take, List.length_nil] at hlength
        omega
      · rw [List.take_append_drop, List.length_drop, hexponent, zpow_neg,
          zpow_natCast, div_eq_mul_inv]

/-- The exponent of the first digit of a decimal. -/
theorem first_digit_bounds {d : Scientific} (h : 0 < d.digits) :
    (10 : ℚ) ^ ((Nat.toDigits 10 d.digits).length + d.exponent - 1) ≤ d.value ∧
      d.value < 10 ^ ((Nat.toDigits 10 d.digits).length + d.exponent) := by
  obtain ⟨hlower, hupper⟩ := toDigits_length_spec h
  have hlength : 0 < (Nat.toDigits 10 d.digits).length := Nat.length_toDigits_pos
  generalize (Nat.toDigits 10 d.digits).length = length at *
  have hexponent : (length : ℤ) + d.exponent - 1 = (length - 1 : ℕ) + d.exponent := by omega
  have hunit : (0 : ℚ) < 10 ^ d.exponent := by positivity
  rw [Scientific.value, hexponent, zpow_add₀ (by norm_num), zpow_add₀ (by norm_num), zpow_natCast,
    zpow_natCast, mul_le_mul_iff_left₀ hunit, mul_lt_mul_iff_left₀ hunit]
  exact ⟨by exact_mod_cast hlower, by exact_mod_cast hupper⟩

theorem value_eq_significant (d : Scientific) :
    d.value = placeValue (significantDigits d.digits) *
      10 ^ ((Nat.toDigits 10 d.digits).length + d.exponent -
        (significantDigits d.digits).length) := by
  obtain ⟨zeros, hlength, hvalue⟩ := significantDigits_spec d.digits
  have hdigits : (d.digits : ℚ) = placeValue (significantDigits d.digits) * 10 ^ zeros := by
    exact_mod_cast hvalue
  have hexponent : ((Nat.toDigits 10 d.digits).length : ℤ) + d.exponent -
      (significantDigits d.digits).length = (zeros : ℤ) + d.exponent := by omega
  rw [Scientific.value, hexponent, zpow_add₀ (by norm_num), zpow_natCast, ← mul_assoc, ← hdigits]

/-- Digits in positional notation, with the point where a decimal has it, stand for the decimal. -/
theorem positional_value (d : Scientific) :
    PointLiteral
      (positional (significantDigits d.digits) ((Nat.toDigits 10 d.digits).length + d.exponent))
      d.value := by
  rw [value_eq_significant d]
  exact positional_pointLiteral isDigit_of_mem_significantDigits _

/-- A decimal is written with a point and no exponent, or there is an `e` in its text. -/
theorem writeDecimal_cases (style : Style) (d : Scientific) :
    PointLiteral (style.writeDecimal d) d.value ∨ 'e' ∈ style.writeDecimal d := by
  unfold Style.writeDecimal
  dsimp only
  split
  · exact .inl (positional_value d)
  · exact .inr (by simp [exponential])

/-- **Decimals that are neither large nor small** are written with a point and no exponent. -/
theorem writeDecimal_pointLiteral {d : Scientific} (h : 0 < d.digits)
    (hlower : (1 : ℚ) / 10 ^ 4 ≤ d.value) (hupper : d.value < 10 ^ 16) :
    PointLiteral (Number.style.writeDecimal d) d.value := by
  obtain ⟨hfirst, hnext⟩ := first_digit_bounds h
  have hfour : -4 < (Nat.toDigits 10 d.digits).length + d.exponent := by
    rw [← zpow_lt_zpow_iff_right₀ (by norm_num : (1 : ℚ) < 10), zpow_neg, ← one_div]
    exact hlower.trans_lt hnext
  have hsixteen : (Nat.toDigits 10 d.digits).length + d.exponent - 1 < 16 := by
    rw [← zpow_lt_zpow_iff_right₀ (by norm_num : (1 : ℚ) < 10)]
    exact hfirst.trans_lt hupper
  have hplaces : Number.style.leastPositional ≤ (Nat.toDigits 10 d.digits).length + d.exponent - 1 ∧
      (Nat.toDigits 10 d.digits).length + d.exponent - 1 ≤ Number.style.greatestPositional :=
    ⟨Int.le_sub_one_of_lt hfour, Int.le_of_lt_add_one hsixteen⟩
  unfold Style.writeDecimal
  rw [if_pos hplaces]
  exact positional_value d

/-- Digits with a minus sign before them, or without one. -/
def signed (negative : Bool) (digits : List Char) : List Char :=
  if negative then '-' :: digits else digits

end Decimal

/-! ## Doubles -/

open Binary64 Decimal

/-- **The text of a finite double**: its sign and its magnitude. -/
theorem Number.floatText_eq {x : Float} (h : x.isFinite = true) :
    floatText x = String.ofList (signed (exact x).negative (style.writeMagnitude (exact x))) := by
  simp only [floatText, Style.write, isNaN_of_isFinite h, h, if_pos, Bool.false_eq_true, if_false]
  rfl

variable {m : ℕ} {q : ℤ}

theorem Decimal.shortest_digits_pos (hm : 0 < m) (hlt : m < 2 * fractions) :
    0 < (shortest m q).digits := by
  have hpos := (lowerEnd_pos hm q).trans_le (shortest_captures hm hlt).lower
  rw [Nat.pos_iff_ne_zero]
  intro hzero
  rw [Scientific.value, hzero, Nat.cast_zero, zero_mul] at hpos
  exact lt_irrefl _ hpos

/-- The shortest decimal is about as large as the double. -/
theorem Decimal.shortest_bounds (hm : 0 < m) (hlt : m < 2 * fractions)
    (hlower : (1 : ℚ) / 2000 ≤ m * 2 ^ q) (hupper : q < 0) :
    (1 : ℚ) / 10 ^ 4 ≤ (shortest m q).value ∧ (shortest m q).value < 10 ^ 16 := by
  have hcaptures := shortest_captures (q := q) hm hlt
  constructor
  · have hhalf := (half_le_lowerEnd hm q).trans hcaptures.lower
    norm_num at hlower ⊢
    linarith
  · calc (shortest m q).value < 2 ^ (53 + q) := hcaptures.lt hlt
      _ ≤ 2 ^ (52 : ℤ) := zpow_le_zpow_right₀ (by norm_num) (by omega)
      _ < 10 ^ 16 := by norm_num

/-- **The shortest decimal of a double reads back**, where it is written with a point. -/
theorem Binary64.shortest_reads {x : Float} (hfinite : x.isFinite = true)
    (hm : 0 < (exact x).mantissa) {text : List Char}
    (h : PointLiteral text (shortest (exact x).mantissa (exact x).exponent).value) :
    ∃ a, Number.ofLiteral? text = some (.float a) ∧
      exact a = ⟨false, (exact x).mantissa, (exact x).exponent⟩ := by
  have hcanonical := canonical_exact x
  have hbits := (isFinite_iff_bitsOf x).1 hfinite
  obtain ⟨num, den, hden, hvalue, hreads⟩ := h.ofLiteral?
  refine ⟨_, hreads, ?_⟩
  -- What is read is the double that the value is nearest to.
  have hcaptures := shortest_captures (q := (exact x).exponent) hm hcanonical.lt
  rw [← hvalue] at hcaptures
  rw [ofRatio, hcaptures.magnitudeBits hcanonical hm hbits hden,
    exact_ofBits hcanonical hbits false]

/-- **A double that is neither large nor small** is written with a point, and
its magnitude reads back. -/
theorem Binary64.writeMagnitude_reads {x : Float} (hfinite : x.isFinite = true)
    (hlower : (1 : ℚ) / 2000 ≤ (exact x).magnitude) (hupper : (exact x).exponent < 0) :
    ∃ y a, PointLiteral (Number.style.writeMagnitude (exact x)) y ∧
      Number.ofLiteral? (Number.style.writeMagnitude (exact x)) = some (.float a) ∧
      exact a = ⟨false, (exact x).mantissa, (exact x).exponent⟩ := by
  have hlt := (canonical_exact x).lt
  have hm : 0 < (exact x).mantissa := by
    rw [Nat.pos_iff_ne_zero]
    intro hzero
    rw [ExactFloat.magnitude, hzero, Nat.cast_zero, zero_mul] at hlower
    norm_num at hlower
  rw [Style.writeMagnitude, if_neg hm.ne']
  obtain ⟨hlarge, hsmall⟩ := shortest_bounds hm hlt hlower hupper
  have hliteral := writeDecimal_pointLiteral (shortest_digits_pos hm hlt) hlarge hsmall
  obtain ⟨a, hreads, hexact⟩ := shortest_reads hfinite hm hliteral
  exact ⟨_, a, hliteral, hreads, hexact⟩

/-- **What is written without an exponent** is written with a point, and reads back. -/
theorem Binary64.writeMagnitude_plain {x : Float} (hfinite : x.isFinite = true)
    (h : 'e' ∉ Number.style.writeMagnitude (exact x)) :
    ∃ y a, PointLiteral (Number.style.writeMagnitude (exact x)) y ∧
      Number.ofLiteral? (Number.style.writeMagnitude (exact x)) = some (.float a) ∧
      exact a = ⟨false, (exact x).mantissa, (exact x).exponent⟩ := by
  unfold Style.writeMagnitude at h ⊢
  split at h
  case isTrue hzero =>
    have hexponent : (exact x).exponent = leastUnit := by
      have hleading := (canonical_exact x).leading
      rw [hzero] at hleading
      exact hleading.resolve_right (by decide)
    have hparts : exact (ofRatio false 0 10) = ⟨false, 0, leastUnit⟩ := by decide +kernel
    rw [if_pos hzero, hzero, hexponent]
    exact ⟨_, ofRatio false 0 10, positional_pointLiteral (isDigit_zeros 1) 1, rfl, hparts⟩
  case isFalse hpos =>
    rw [if_neg hpos]
    have hliteral := (writeDecimal_cases Number.style _).resolve_right h
    obtain ⟨a, hreads, hexact⟩ := shortest_reads hfinite (Nat.pos_of_ne_zero hpos) hliteral
    exact ⟨_, a, hliteral, hreads, hexact⟩

end DiceNotation
