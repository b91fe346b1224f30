import DiceNotation.Decimal.Shortest
import DiceNotation.Proofs.Binary64.Nearest

/-!
# DiceNotation.Proofs.Shortest

The shortest decimal of a double reads back as the double.

* `digitCount_spec`, `pointOf_spec`: how many digits a number has, and where the
  point of a quotient is;
* `captures_of_admits`: the interval that candidates are looked for in is that of the double;
* `exists_pick`: a grid that is fine enough has a point in it, and seventeen digits are;
* `shortest_captures`: so a decimal is found, and the double is the nearest to it.
-/

namespace DiceNotation.Decimal

open Binary64

/-- The value of a decimal. -/
def Scientific.value (d : Scientific) : ℚ := d.digits * 10 ^ d.exponent

/-! ## Digits -/

/-- The number of digits is where powers of ten say. -/
theorem toDigits_length_spec {n : ℕ} (h : 0 < n) :
    10 ^ ((Nat.toDigits 10 n).length - 1) ≤ n ∧ n < 10 ^ (Nat.toDigits 10 n).length := by
  have hpos : 0 < (Nat.toDigits 10 n).length := Nat.length_toDigits_pos
  refine ⟨?_, (Nat.length_toDigits_le_iff (by decide) hpos).1 (Nat.le_refl _)⟩
  rcases Nat.eq_zero_or_pos ((Nat.toDigits 10 n).length - 1) with hone | hmore
  · rw [hone]
    exact h
  · exact Nat.not_lt.1 fun hlt => by
      have := (Nat.length_toDigits_le_iff (by decide) hmore).2 hlt
      omega

theorem digitCount_spec {n : ℕ} (h : 0 < n) :
    10 ^ (digitCount n - 1) ≤ n ∧ n < 10 ^ digitCount n := by
  rw [digitCount, if_neg h.ne']
  exact toDigits_length_spec h

theorem digitCount_pos {n : ℕ} (h : 0 < n) : 0 < digitCount n := by
  rw [digitCount, if_neg h.ne']
  exact Nat.length_toDigits_pos

/-- **The point of a quotient** is where powers of ten say. -/
theorem pointOf_spec {num den : ℕ} (hnum : 0 < num) (hden : 0 < den) :
    (10 : ℚ) ^ (pointOf num den - 1) ≤ num / den ∧ (num : ℚ) / den < 10 ^ pointOf num den := by
  have hpos : (0 : ℚ) < den := by exact_mod_cast hden
  have hpower : ∀ n : ℕ, (10 : ℚ) ^ (n : ℤ) = (10 ^ n : ℕ) :=
    fun n => by push_cast; rw [zpow_natCast]
  rw [le_div_iff₀ hpos, div_lt_iff₀ hpos]
  unfold pointOf
  split
  case isTrue hle =>
    have hfloor : 0 < num / den := Nat.div_pos hle hden
    obtain ⟨hlower, hupper⟩ := digitCount_spec hfloor
    have hcount := digitCount_pos hfloor
    rw [Nat.le_div_iff_mul_le hden] at hlower
    rw [Nat.div_lt_iff_lt_mul hden] at hupper
    have hless : (digitCount (num / den) : ℤ) - 1 = (digitCount (num / den) - 1 : ℕ) := by omega
    rw [hless, hpower, hpower]
    exact ⟨by exact_mod_cast hlower, by exact_mod_cast hupper⟩
  case isFalse hlt =>
    have hfloor : 0 < (den - 1) / num := Nat.div_pos (by omega) hnum
    obtain ⟨hlower, hupper⟩ := digitCount_spec hfloor
    have hcount := digitCount_pos hfloor
    generalize digitCount ((den - 1) / num) = count at *
    rw [Nat.le_div_iff_mul_le hnum] at hlower
    rw [Nat.div_lt_iff_lt_mul hnum] at hupper
    -- The powers are reciprocals here.
    have hfirst : (10 : ℚ) ^ (1 - (count : ℤ) - 1) * (10 ^ count : ℕ) = 1 := by
      rw [← hpower, ← zpow_add₀ (by norm_num)]
      norm_num
    have hsecond : (10 : ℚ) ^ (1 - (count : ℤ)) * (10 ^ (count - 1) : ℕ) = 1 := by
      rw [← hpower, ← zpow_add₀ (by norm_num), Nat.cast_sub hcount]
      norm_num
    have hden' : (den : ℚ) ≤ num * (10 ^ count : ℕ) := by
      have : den ≤ 10 ^ count * num := by omega
      rw [mul_comm]
      exact_mod_cast this
    have hnum' : (num : ℚ) * (10 ^ (count - 1) : ℕ) < den := by
      have : 10 ^ (count - 1) * num < den := by omega
      rw [mul_comm]
      exact_mod_cast this
    constructor
    · calc (10 : ℚ) ^ (1 - (count : ℤ) - 1) * den
          ≤ 10 ^ (1 - (count : ℤ) - 1) * (num * (10 ^ count : ℕ)) :=
            mul_le_mul_of_nonneg_left hden' (by positivity)
        _ = num := by rw [mul_left_comm, hfirst, mul_one]
    · calc (num : ℚ) = 10 ^ (1 - (count : ℤ)) * (num * (10 ^ (count - 1) : ℕ)) := by
            rw [mul_left_comm, hsecond, mul_one]
        _ < 10 ^ (1 - (count : ℤ)) * den := mul_lt_mul_of_pos_left hnum' (by positivity)

/-! ## The interval of a double -/

/-- What the numerators of a neighbourhood are multiplied with, for decimals down to `exponent`. -/
def commonScale (q exponent : ℤ) : ℚ :=
  (Nat.pow 2 (2 - q).toNat : ℕ) * (Nat.pow 10 (-exponent).toNat : ℕ)

theorem commonScale_pos (q exponent : ℤ) : 0 < commonScale q exponent := by
  have hten : 0 < Nat.pow 10 (-exponent).toNat := Nat.pow_pos (by decide)
  have htwo : 0 < Nat.pow 2 (2 - q).toNat := Nat.two_pow_pos _
  exact mul_pos (by exact_mod_cast htwo) (by exact_mod_cast hten)

theorem cast_scale (q exponent : ℤ) :
    ((Nat.pow 2 (q - 2).toNat * Nat.pow 10 (-exponent).toNat : ℕ) : ℚ) =
      2 ^ (q - 2) * commonScale q exponent := by
  rw [commonScale, Nat.cast_mul, ← two_zpow_mul, neg_sub, mul_assoc]

theorem cast_gridStep (q exponent : ℤ) :
    (gridStep q exponent : ℚ) = 10 ^ exponent * commonScale q exponent := by
  have hten := zpow_mul_toNat (b := 10) (by decide) exponent
  rw [gridStep, commonScale, Nat.cast_mul, ← hten, Nat.cast_ofNat]
  ring

variable {m : ℕ} {q exponent : ℤ}

theorem cast_lower (hm : 0 < m) :
    ((neighbourhood m q exponent).lower : ℚ) = lowerEnd m q * commonScale q exponent := by
  have hquarters := quartersBelow_le m q
  show (((4 * m - quartersBelow m q) *
    (Nat.pow 2 (q - 2).toNat * Nat.pow 10 (-exponent).toNat) : ℕ) : ℚ) = _
  rw [Nat.cast_mul, cast_scale, Nat.cast_sub (by omega), lowerEnd]
  push_cast
  ring

theorem cast_upper :
    ((neighbourhood m q exponent).upper : ℚ) = upperEnd m q * commonScale q exponent := by
  show (((4 * m + 2) * (Nat.pow 2 (q - 2).toNat * Nat.pow 10 (-exponent).toNat) : ℕ) : ℚ) = _
  rw [Nat.cast_mul, cast_scale, upperEnd]
  push_cast
  ring

/-- **The interval of a double** is where candidates are looked for. -/
theorem captures_of_admits (hm : 0 < m) {c : ℕ}
    (h : (neighbourhood m q exponent).admits (c * gridStep q exponent) = true) :
    Captures m q (Scientific.value ⟨c, exponent⟩) := by
  have hscale := commonScale_pos q exponent
  have hcandidate : ((c * gridStep q exponent : ℕ) : ℚ) =
      Scientific.value ⟨c, exponent⟩ * commonScale q exponent := by
    rw [Nat.cast_mul, cast_gridStep, Scientific.value, mul_assoc]
  have hclosed : (neighbourhood m q exponent).closed = (m % 2 == 0) := rfl
  unfold Neighbourhood.admits at h
  split at h
  case isTrue heven =>
    simp only [Bool.and_eq_true, decide_eq_true_eq] at h
    rw [← Nat.cast_le (α := ℚ), ← Nat.cast_le (α := ℚ), hcandidate, cast_lower hm, cast_upper,
      mul_le_mul_iff_left₀ hscale, mul_le_mul_iff_left₀ hscale] at h
    exact ⟨h.1, h.2, fun _ => Nat.even_iff.2 (by simpa [hclosed] using heven)⟩
  case isFalse hodd =>
    simp only [Bool.and_eq_true, decide_eq_true_eq] at h
    rw [← Nat.cast_lt (α := ℚ), ← Nat.cast_lt (α := ℚ), hcandidate, cast_lower hm, cast_upper,
      mul_lt_mul_iff_left₀ hscale, mul_lt_mul_iff_left₀ hscale] at h
    exact ⟨h.1.le, h.2.le, fun hends => hends.elim (absurd · h.1.ne') (absurd · h.2.ne)⟩

/-! ## Grids -/

/-- What is picked is admitted. -/
theorem admits_of_pick? {n : Neighbourhood} {step c : ℕ} (h : n.pick? step = some c) :
    n.admits (c * step) = true := by
  unfold Neighbourhood.pick? at h
  dsimp only at h
  split at h
  case h_1 hbelow habove =>
    cases h
    split <;> assumption
  case h_2 hbelow _ => cases h; exact hbelow
  case h_3 _ habove => cases h; exact habove
  case h_4 => cases h

/-- **A fine grid has a point in the interval**: half a step takes from the value to a point, and to
neither end of the interval. -/
theorem exists_pick {n : Neighbourhood} {step gap : ℕ} (hstep : 0 < step) (hfine : step < 2 * gap)
    (hlower : n.lower + gap ≤ n.value) (hupper : n.value + gap ≤ n.upper) :
    ∃ c, n.pick? step = some c := by
  have hsplit := Nat.div_add_mod n.value step
  have hrest := Nat.mod_lt n.value hstep
  have hinside : ∀ c, n.lower < c * step → c * step < n.upper → n.admits (c * step) = true := by
    intro c hlow hhigh
    unfold Neighbourhood.admits
    split <;> simp only [Bool.and_eq_true, decide_eq_true_eq] <;> omega
  have hnext : (n.value / step + 1) * step = step * (n.value / step) + step := by ring
  have hthis : n.value / step * step = step * (n.value / step) := Nat.mul_comm ..
  have hsome : n.admits (n.value / step * step) = true ∨
      n.admits ((n.value / step + 1) * step) = true := by
    by_cases hhalf : 2 * (n.value % step) ≤ step
    · exact .inl (hinside _ (by omega) (by omega))
    · exact .inr (hinside _ (by omega) (by omega))
  unfold Neighbourhood.pick?
  dsimp only
  split
  case h_4 hbelow habove =>
    rw [hbelow, habove] at hsome
    simp at hsome
  all_goals exact ⟨_, rfl⟩

/-! ## The shortest decimal -/

theorem magnitude_eq_div (m : ℕ) (q : ℤ) :
    ((m * Nat.pow 2 q.toNat : ℕ) : ℚ) / (Nat.pow 2 (-q).toNat : ℕ) = m * 2 ^ q := by
  have hpos : ((Nat.pow 2 (-q).toNat : ℕ) : ℚ) ≠ 0 := by exact_mod_cast (Nat.two_pow_pos _).ne'
  rw [div_eq_iff hpos, Nat.cast_mul, mul_assoc, two_zpow_mul]

theorem le_quartersBelow (hlt : m < 2 * fractions) (q : ℤ) : m ≤ quartersBelow m q * fractions := by
  unfold quartersBelow
  split <;> omega

/-- A grid of seventeen digits is finer than the interval of the double. -/
theorem gridStep_lt (hlt : m < 2 * fractions) (hpoint : (10 : ℚ) ^ (exponent + 16) ≤ m * 2 ^ q) :
    gridStep q exponent < 2 * (quartersBelow m q *
      (Nat.pow 2 (q - 2).toNat * Nat.pow 10 (-exponent).toNat)) := by
  have hunit : (0 : ℚ) < 2 ^ q := by positivity
  have hm : (m : ℚ) ≤ quartersBelow m q * fractions := by exact_mod_cast le_quartersBelow hlt q
  have hquarters : (0 : ℚ) < quartersBelow m q := by
    unfold quartersBelow
    split <;> norm_num
  rw [zpow_add₀ (by norm_num)] at hpoint
  have hfine : (10 : ℚ) ^ exponent < 2 * quartersBelow m q * 2 ^ (q - 2) := by
    rw [quarter_unit]
    have hle := hpoint.trans (mul_le_mul_of_nonneg_right hm hunit.le)
    have hmany : (fractions : ℚ) < 10 ^ (16 : ℤ) / 2 := by norm_num [fractions]
    have hscaled := mul_lt_mul_of_pos_left hmany (mul_pos hquarters hunit)
    have hten : (0 : ℚ) < 10 ^ (16 : ℤ) := by positivity
    rw [← mul_lt_mul_iff_left₀ hten]
    linarith
  have hscale := commonScale_pos q exponent
  rw [← Nat.cast_lt (α := ℚ), cast_gridStep, Nat.cast_mul, Nat.cast_mul, cast_scale]
  calc (10 : ℚ) ^ exponent * commonScale q exponent
      < 2 * quartersBelow m q * 2 ^ (q - 2) * commonScale q exponent :=
        mul_lt_mul_of_pos_right hfine hscale
    _ = _ := by push_cast; ring

/-- Seventeen digits are always enough. -/
theorem exists_withDigits (hm : 0 < m) (hlt : m < 2 * fractions) :
    ∃ d, withDigits? m q (pointOf (m * Nat.pow 2 q.toNat) (Nat.pow 2 (-q).toNat)) mostDigits =
      some d := by
  have hpow : ∀ k, 0 < Nat.pow 2 k := Nat.two_pow_pos
  have hpoint := (pointOf_spec (Nat.mul_pos hm (hpow q.toNat)) (hpow (-q).toNat)).1
  rw [magnitude_eq_div] at hpoint
  generalize pointOf (m * Nat.pow 2 q.toNat) (Nat.pow 2 (-q).toNat) = point at hpoint ⊢
  have hexponent : point - (mostDigits : ℕ) + 16 = point - 1 := by
    show point - 17 + 16 = point - 1
    omega
  have hfine : gridStep q (point - (mostDigits : ℕ)) < _ := gridStep_lt hlt (hexponent ▸ hpoint)
  have hstep : 0 < gridStep q (point - (mostDigits : ℕ)) :=
    Nat.mul_pos (Nat.pow_pos (by decide)) (Nat.two_pow_pos _)
  have hquarters := quartersBelow_le m q
  obtain ⟨c, hc⟩ := exists_pick (n := neighbourhood m q (point - (mostDigits : ℕ))) hstep hfine
    (by
      show (4 * m - quartersBelow m q) * _ + quartersBelow m q * _ ≤ 4 * m * _
      rw [← Nat.add_mul, Nat.sub_add_cancel (by omega)])
    (by
      show 4 * m * _ + quartersBelow m q * _ ≤ (4 * m + 2) * _
      rw [← Nat.add_mul]
      exact Nat.mul_le_mul_right _ (by omega))
  exact ⟨_, congrArg (Option.map _) hc⟩

/-- **The shortest decimal reads back as the double.** -/
theorem shortest_captures (hm : 0 < m) (hlt : m < 2 * fractions) :
    Captures m q (shortest m q).value := by
  obtain ⟨last, hlast⟩ := exists_withDigits (q := q) hm hlt
  unfold shortest
  dsimp only
  cases hfound : (List.range' 1 mostDigits).findSome?
      (withDigits? m q (pointOf (m * Nat.pow 2 q.toNat) (Nat.pow 2 (-q).toNat))) with
  | none =>
    have hnone := List.findSome?_eq_none_iff.1 hfound mostDigits (by decide)
    rw [hlast] at hnone
    cases hnone
  | some d =>
    obtain ⟨count, -, hd⟩ := List.exists_of_findSome?_eq_some hfound
    obtain ⟨c, hc, rfl⟩ := Option.map_eq_some_iff.1 hd
    exact captures_of_admits hm (admits_of_pick? hc)

end DiceNotation.Decimal
