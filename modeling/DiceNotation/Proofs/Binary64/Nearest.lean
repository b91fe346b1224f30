import DiceNotation.Proofs.Binary64.Parts
import DiceNotation.Proofs.Rounding

/-!
# DiceNotation.Proofs.Binary64.Nearest

Which double a quotient is rounded to.

* `unitOf_spec`: the spacing of the doubles around a quotient;
* `Captures`: the rationals that a double is nearest to. They fill an interval, which reaches
  halfway to the neighbours; below a power of two the neighbour is half as far away;
* `ofRatio_of_captures`: a quotient in the interval of a double is rounded to it;
* `exact_ofRatio`: how far a quotient is from the double that it is rounded to.
-/

namespace DiceNotation.Binary64

/-! ## The spacing of doubles -/

variable {num den : ℕ}

/-- The spacing of the doubles around a quotient. -/
theorem unitOf_spec (hnum : 0 < num) (hden : 0 < den) :
    leastUnit ≤ unitOf num den ∧ (num : ℚ) / den < 2 ^ (53 + unitOf num den) ∧
      (unitOf num den = leastUnit ∨ (2 : ℚ) ^ (52 + unitOf num den) ≤ num / den) := by
  have hpos : (0 : ℚ) < den := by exact_mod_cast hden
  obtain ⟨hle, hlt⟩ := floorLog2_spec hnum hden
  have hupper : floorLog2 num den + 1 ≤ 53 + unitOf num den := by
    rw [unitOf]
    omega
  refine ⟨le_max_right _ _, ?_, ?_⟩
  · rw [div_lt_iff₀' hpos]
    refine hlt.trans_le (mul_le_mul_of_nonneg_left ?_ hpos.le)
    exact zpow_le_zpow_right₀ (by norm_num) hupper
  · rcases max_choice (floorLog2 num den - 52) leastUnit with hunit | hunit
    · right
      rw [le_div_iff₀' hpos, unitOf, hunit]
      rwa [add_sub_cancel]
    · exact .inl hunit

/-- It is the only one that fits. -/
theorem unitOf_eq (hnum : 0 < num) (hden : 0 < den) {u : ℤ} (hle : leastUnit ≤ u)
    (hlt : (num : ℚ) / den < 2 ^ (53 + u)) (hge : u = leastUnit ∨ (2 : ℚ) ^ (52 + u) ≤ num / den) :
    unitOf num den = u := by
  obtain ⟨hle', hlt', hge'⟩ := unitOf_spec hnum hden
  have hexponent : ∀ {a b : ℤ}, (2 : ℚ) ^ (52 + a) ≤ num / den → (num : ℚ) / den < 2 ^ (53 + b) →
      a ≤ b := by
    intro a b ha hb
    have hpow := (zpow_lt_zpow_iff_right₀ (by norm_num : (1 : ℚ) < 2)).1 (ha.trans_lt hb)
    omega
  rcases hge with rfl | hge <;> rcases hge' with hge' | hge'
  · exact hge'
  · exact le_antisymm (hexponent hge' hlt) hle'
  · rw [hge']
    rw [hge'] at hlt'
    exact le_antisymm hle (hexponent hge hlt')
  · exact le_antisymm (hexponent hge' hlt) (hexponent hge hlt')

/-- The mantissa of the nearest double. -/
theorem mantissa_nearest (num : ℕ) (hden : 0 < den) (u : ℤ) :
    Nearest (num / den / 2 ^ u)
      (roundDiv .even (num * Nat.pow 2 (-u).toNat) (den * Nat.pow 2 u.toNat)) := by
  have hscaled : ((num * Nat.pow 2 (-u).toNat : ℕ) : ℚ) / (den * Nat.pow 2 u.toNat : ℕ) =
      num / den / 2 ^ u := by
    have hpow : ((Nat.pow 2 (-u).toNat : ℕ) : ℚ) ≠ 0 := by exact_mod_cast (Nat.two_pow_pos _).ne'
    rw [Nat.cast_mul, Nat.cast_mul, ← two_zpow_mul u, ← mul_assoc, mul_div_mul_right _ _ hpow,
      div_div]
  rw [← hscaled]
  exact roundDiv_nearest _ (Nat.mul_pos hden (Nat.two_pow_pos _))

/-- The bits of the nearest double, from its mantissa. -/
theorem magnitudeBits_eq (hnum : 0 < num) (hden : 0 < den) {m : ℕ}
    (h : Nearest (num / den / 2 ^ unitOf num den) m) :
    magnitudeBits num den = min (bitsOf m (unitOf num den)) infinityBits := by
  rw [magnitudeBits, if_neg hnum.ne', h.unique (mantissa_nearest num hden _)]
  rfl

/-! ## The rationals around a double -/

/-- The distance to the middle below a double, in quarters of its unit. -/
def quartersBelow (m : ℕ) (q : ℤ) : ℕ := if m = fractions ∧ leastUnit < q then 1 else 2

/-- The middle between a double and the next one below. -/
def lowerEnd (m : ℕ) (q : ℤ) : ℚ := (4 * m - quartersBelow m q) * 2 ^ (q - 2)

/-- The middle between a double and the next one above. -/
def upperEnd (m : ℕ) (q : ℤ) : ℚ := (4 * m + 2) * 2 ^ (q - 2)

/-- The rationals that are rounded to a double. -/
structure Captures (m : ℕ) (q : ℤ) (x : ℚ) : Prop where
  lower : lowerEnd m q ≤ x
  upper : x ≤ upperEnd m q
  ends : x = lowerEnd m q ∨ x = upperEnd m q → Even m

theorem quarter_unit (q : ℤ) : (2 : ℚ) ^ (q - 2) = 2 ^ q / 4 := by
  rw [zpow_sub₀ (by norm_num)]
  norm_num

theorem quartersBelow_le (m : ℕ) (q : ℤ) : quartersBelow m q ≤ 2 := by
  unfold quartersBelow
  split <;> decide

/-- The middle below a double is at least half of it. -/
theorem half_le_lowerEnd {m : ℕ} (h : 0 < m) (q : ℤ) : m * 2 ^ q / 2 ≤ lowerEnd m q := by
  have hunit : (0 : ℚ) < 2 ^ q := by positivity
  have hquarters : (quartersBelow m q : ℚ) ≤ 2 := by exact_mod_cast quartersBelow_le m q
  have hm : (1 : ℚ) ≤ m := by exact_mod_cast h
  rw [lowerEnd, quarter_unit]
  nlinarith

theorem lowerEnd_pos {m : ℕ} (h : 0 < m) (q : ℤ) : 0 < lowerEnd m q := by
  have hm : (0 : ℚ) < m := by exact_mod_cast h
  exact lt_of_lt_of_le (by positivity) (half_le_lowerEnd h q)

theorem two_zpow_add (a b : ℤ) : (2 : ℚ) ^ (a + b) = 2 ^ a * 2 ^ b := zpow_add₀ (by norm_num) a b

theorem fractions_eq : (fractions : ℚ) = 2 ^ (52 : ℤ) := by norm_num [fractions]

/-- What is around a double lies below the next power of two. -/
theorem Captures.lt {m : ℕ} {q : ℤ} {x : ℚ} (hm : m < 2 * fractions) (h : Captures m q x) :
    x < 2 ^ (53 + q) := by
  have hunit : (0 : ℚ) < 2 ^ q := by positivity
  have hsucc : (m : ℚ) + 1 ≤ 2 * fractions := by exact_mod_cast hm
  calc x ≤ (4 * m + 2) * (2 ^ q / 4) := by rw [← quarter_unit]; exact h.upper
    _ < 2 * fractions * 2 ^ q := by nlinarith
    _ = 2 ^ (53 + q) := by rw [fractions_eq, two_zpow_add]; norm_num

/-- What is around a double and not below a power of two is at most half a unit away. -/
theorem Captures.half_le {m : ℕ} {q : ℤ} {x : ℚ} (h : Captures m q x)
    (hedge : ¬ ((m = fractions ∧ leastUnit < q) ∧ x < m * 2 ^ q)) :
    (m - 1 / 2) * 2 ^ q ≤ x ∧ (x = (m - 1 / 2) * 2 ^ q → Even m) := by
  have hunit : (0 : ℚ) < 2 ^ q := by positivity
  have hlower := h.lower
  have hends := h.ends
  rw [lowerEnd, quarter_unit, quartersBelow] at hlower hends
  split at hlower
  case isTrue hpower =>
    have hge : m * 2 ^ q ≤ x := not_lt.1 fun hlt => hedge ⟨hpower, hlt⟩
    exact ⟨by linarith, fun heq => absurd heq (by linarith)⟩
  case isFalse hpower =>
    rw [if_neg hpower] at hends
    push_cast at hlower hends
    exact ⟨by linarith, fun heq => hends (.inl (by linarith))⟩

/-- **A quotient around a double is rounded to it.** -/
theorem Captures.magnitudeBits {m : ℕ} {q : ℤ} (hcanonical : Canonical m q) (hm : 0 < m)
    (hfinite : bitsOf m q < infinityBits) (hden : 0 < den) (h : Captures m q (num / den)) :
    magnitudeBits num den = bitsOf m q := by
  have hnum : 0 < num := by
    have hpos : 0 < (num : ℚ) / den := (lowerEnd_pos hm q).trans_le h.lower
    rcases Nat.eq_zero_or_pos num with rfl | hnum
    · simp at hpos
    · exact hnum
  obtain ⟨hlt, hle, hleading⟩ := hcanonical
  have hunit : (0 : ℚ) < 2 ^ q := by positivity
  suffices hnearest : ∃ u n, unitOf num den = u ∧ Nearest ((num : ℚ) / den / 2 ^ u) n ∧
      bitsOf n u = bitsOf m q by
    obtain ⟨u, n, rfl, hnearest, hbits⟩ := hnearest
    rw [magnitudeBits_eq hnum hden hnearest, hbits, Nat.min_eq_left hfinite.le]
  by_cases hedge : (m = fractions ∧ leastUnit < q) ∧ (num : ℚ) / den < m * 2 ^ q
  · -- Below a power of two the unit is half as large, and the mantissa carries.
    obtain ⟨⟨rfl, hleast⟩, hbelow⟩ := hedge
    have hlower := h.lower
    rw [lowerEnd, quarter_unit, quartersBelow, if_pos ⟨rfl, hleast⟩] at hlower
    have hhalf : (2 : ℚ) ^ (q - 1) = 2 ^ q / 2 := by
      rw [zpow_sub₀ (by norm_num)]
      norm_num
    have hpower : ∀ k : ℤ, (2 : ℚ) ^ (k + (q - 1)) = 2 ^ k * (2 ^ q / 2) := by
      intro k
      rw [two_zpow_add, hhalf]
    refine ⟨q - 1, 2 * fractions, unitOf_eq hnum hden (by omega) ?_ (.inr ?_), ?_, ?_⟩
    · rw [hpower]
      refine hbelow.trans_eq ?_
      rw [fractions_eq]
      ring
    · rw [hpower]
      refine le_trans ?_ hlower
      rw [fractions_eq]
      norm_num
      linarith
    · rw [hhalf]
      apply nearest_div (by positivity)
      · push_cast
        linarith
      · push_cast
        linarith
      · exact fun _ => even_two_mul _
    · rw [bitsOf_carry (by omega), Int.sub_add_cancel]
  · obtain ⟨hlower, hlowerEnd⟩ := h.half_le hedge
    have hupper := h.upper
    have hends := h.ends
    rw [upperEnd, quarter_unit] at hupper hends
    refine ⟨q, m, unitOf_eq hnum hden hle (h.lt hlt) ?_, ?_, rfl⟩
    · rcases eq_or_lt_of_le hle with hleast | hleast
      · exact .inl hleast.symm
      right
      rw [two_zpow_add, ← fractions_eq]
      rcases Nat.eq_or_lt_of_le (hleading.resolve_left hleast.ne') with hpower | hless
      · rw [hpower]
        exact not_lt.1 fun hlt => hedge ⟨⟨hpower.symm, hleast⟩, hlt⟩
      · have hsucc : (fractions : ℚ) + 1 ≤ m := by exact_mod_cast hless
        exact le_trans (mul_le_mul_of_nonneg_right (by linarith) hunit.le) hlower
    · apply nearest_div hunit hlower (by linarith)
      rintro (heq | heq)
      · exact hlowerEnd heq
      · exact hends (.inr (by linarith))

/-- A finite double that is not zero is the nearest to the quotients around it. -/
theorem ofRatio_of_captures {x : Float} (hfinite : x.isFinite = true) (hm : 0 < (exact x).mantissa)
    (hden : 0 < den) (h : Captures (exact x).mantissa (exact x).exponent (num / den)) :
    ofRatio (exact x).negative num den = x := by
  rw [ofRatio, h.magnitudeBits (canonical_exact x) hm ((isFinite_iff_bitsOf x).1 hfinite) hden,
    ofBits_parts]

/-- **The nearest double**: its unit is at least that of the quotient, and half the unit of the
quotient is the most that it is away. -/
theorem exact_ofRatio (hnum : 0 < num) (hden : 0 < den) (negative : Bool)
    (hfinite : magnitudeBits num den < infinityBits) :
    (exact (ofRatio negative num den)).negative = negative ∧
      unitOf num den ≤ (exact (ofRatio negative num den)).exponent ∧
      |(exact (ofRatio negative num den)).magnitude - num / den| ≤ 2 ^ unitOf num den / 2 := by
  obtain ⟨hle, -, hge⟩ := unitOf_spec hnum hden
  have hunit : (0 : ℚ) < 2 ^ unitOf num den := by positivity
  have hround := mantissa_le hnum hden
  have hnearest := mantissa_nearest num hden (unitOf num den)
  have hbits := magnitudeBits_eq hnum hden hnearest
  generalize roundDiv .even (num * Nat.pow 2 (-unitOf num den).toNat)
    (den * Nat.pow 2 (unitOf num den).toNat) = m at hround hnearest hbits
  have hdistance := hnearest.abs_sub_le hunit
  have hsame : magnitudeBits num den = bitsOf m (unitOf num den) := by omega
  suffices hparts : ∃ n q, Canonical n q ∧ bitsOf n q = bitsOf m (unitOf num den) ∧
      unitOf num den ≤ q ∧ (n : ℚ) * 2 ^ q = m * 2 ^ unitOf num den by
    obtain ⟨n, q, hcanonical, hnq, hq, hvalue⟩ := hparts
    have hexact := exact_ofBits hcanonical (hnq.trans hsame.symm ▸ hfinite) negative
    rw [ofRatio, hsame, ← hnq, hexact]
    refine ⟨rfl, hq, ?_⟩
    rw [ExactFloat.magnitude, hvalue]
    exact hdistance
  rcases Nat.eq_or_lt_of_le hround with rfl | hless
  · refine ⟨fractions, unitOf num den + 1, ⟨by decide, by omega, .inr (Nat.le_refl _)⟩,
      (bitsOf_carry hle).symm, by omega, ?_⟩
    rw [two_zpow_add]
    push_cast
    ring
  · refine ⟨m, unitOf num den, ⟨hless, hle, hge.imp_right fun hlarge => ?_⟩, rfl, le_refl _, rfl⟩
    rw [two_zpow_add, ← le_div_iff₀ hunit, ← fractions_eq] at hlarge
    have hhalf := (abs_le.1 hnearest.1).2
    by_contra hlow
    have hsucc : (m : ℚ) + 1 ≤ fractions := by exact_mod_cast Nat.not_le.1 hlow
    linarith

end DiceNotation.Binary64
