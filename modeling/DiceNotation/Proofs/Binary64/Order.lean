import DiceNotation.Proofs.Binary64.Nearest

/-!
# DiceNotation.Proofs.Binary64.Order

The order of the doubles, and of the quotients that are rounded to them.

* `ExactFloat.value`: what a finite double stands for;
* `Canonical.magnitude_le`: doubles are in the order of their bits;
* `magnitudeBits_mono`, `magnitude_ofRatio_mono`: rounding keeps the order of quotients;
* `exact_ofRatio_of_eq`: a quotient that is a double is not rounded;
* `value_ofInt`, `le_magnitude_ofInt`: integers of up to 53 bits are doubles,
  and larger ones are not rounded to any of those.

A quotient with a larger unit has the larger bits, for a mantissa is at most the one that carries
into the exponent. So the bits are compared and no case is made of the carry.
-/

namespace DiceNotation

/-- What a finite double stands for. -/
def ExactFloat.value (x : ExactFloat) : ℚ := if x.negative then -x.magnitude else x.magnitude

namespace ExactFloat

theorem magnitude_nonneg (x : ExactFloat) : 0 ≤ x.magnitude := by
  unfold magnitude
  positivity

theorem abs_value (x : ExactFloat) : |x.value| = x.magnitude := by
  unfold value
  split <;> simp [abs_of_nonneg x.magnitude_nonneg]

end ExactFloat

namespace Binary64

/-! ## Doubles -/

/-- **Doubles are in the order of their bits.** -/
theorem Canonical.magnitude_le {m m' : ℕ} {q q' : ℤ} (h : Canonical m q) (h' : Canonical m' q')
    (hbits : bitsOf m q ≤ bitsOf m' q') : (m : ℚ) * 2 ^ q ≤ m' * 2 ^ q' := by
  obtain ⟨hlt, hle, hleading⟩ := h
  obtain ⟨hlt', hle', hleading'⟩ := h'
  have hunit : (0 : ℚ) < 2 ^ q := by positivity
  rcases lt_trichotomy q q' with hless | rfl | hmore
  · -- The leading bit alone makes the second one as large.
    have hfirst : fractions ≤ m' := by omega
    have hcarry : (2 : ℚ) ^ (q + 1) ≤ 2 ^ q' := zpow_le_zpow_right₀ (by norm_num) (by omega)
    calc (m : ℚ) * 2 ^ q ≤ (2 * fractions : ℕ) * 2 ^ q :=
          mul_le_mul_of_nonneg_right (by exact_mod_cast hlt.le) hunit.le
      _ = fractions * 2 ^ (q + 1) := by rw [two_zpow_add]; push_cast; ring
      _ ≤ m' * 2 ^ q' :=
        mul_le_mul (by exact_mod_cast hfirst) hcarry (by positivity) (by positivity)
  · have hmantissa : m ≤ m' := by
      unfold bitsOf at hbits
      omega
    exact mul_le_mul_of_nonneg_right (by exact_mod_cast hmantissa) hunit.le
  · unfold bitsOf at hbits
    simp only [fractions, leastUnit] at *
    omega

/-! ## Rounding -/

variable {num den num' den' : ℕ}

/-- A larger quotient has no smaller unit. -/
theorem unitOf_mono (hnum : 0 < num) (hden : 0 < den) (hnum' : 0 < num') (hden' : 0 < den')
    (h : (num : ℚ) / den ≤ num' / den') : unitOf num den ≤ unitOf num' den' := by
  obtain ⟨-, -, hlower⟩ := unitOf_spec hnum hden
  obtain ⟨hle', hupper', -⟩ := unitOf_spec hnum' hden'
  rcases hlower with hleast | hlower
  · exact hleast ▸ hle'
  · have hpowers := (zpow_lt_zpow_iff_right₀ (by norm_num : (1 : ℚ) < 2)).1
      ((hlower.trans h).trans_lt hupper')
    omega

/-- **Rounding keeps the order of quotients**, as bits. -/
theorem magnitudeBits_mono (hden : 0 < den) (hden' : 0 < den')
    (h : (num : ℚ) / den ≤ num' / den') : magnitudeBits num den ≤ magnitudeBits num' den' := by
  rcases Nat.eq_zero_or_pos num with rfl | hnum
  · simp [magnitudeBits]
  have hnum' : 0 < num' := by
    have hpos : (0 : ℚ) < num' / den' := lt_of_lt_of_le (by positivity) h
    rcases Nat.eq_zero_or_pos num' with rfl | hnum'
    · simp at hpos
    · exact hnum'
  have hunit := unitOf_mono hnum hden hnum' hden' h
  obtain ⟨hleast, -, -⟩ := unitOf_spec hnum hden
  obtain ⟨-, -, hlower'⟩ := unitOf_spec hnum' hden'
  have hnearest := mantissa_nearest num hden (unitOf num den)
  have hnearest' := mantissa_nearest num' hden' (unitOf num' den')
  have hround := mantissa_le hnum hden
  rw [magnitudeBits_eq hnum hden hnearest, magnitudeBits_eq hnum' hden' hnearest']
  refine min_le_min_right _ ?_
  generalize roundDiv .even (num * Nat.pow 2 (-unitOf num den).toNat)
    (den * Nat.pow 2 (unitOf num den).toNat) = m at hnearest hround ⊢
  generalize roundDiv .even (num' * Nat.pow 2 (-unitOf num' den').toNat)
    (den' * Nat.pow 2 (unitOf num' den').toNat) = m' at hnearest' ⊢
  generalize unitOf num den = u at *
  generalize unitOf num' den' = u' at *
  rcases hunit.eq_or_lt with rfl | hless
  · have hscaled : (num : ℚ) / den / 2 ^ u ≤ num' / den' / 2 ^ u :=
      div_le_div_of_nonneg_right h (by positivity)
    exact Nat.add_le_add_left (hnearest.mono hnearest' hscaled) _
  · -- The second mantissa has its leading bit, and the first is at most twice that.
    have hleading : fractions ≤ m' := by
      have hlarge : (2 : ℚ) ^ (52 + u') ≤ num' / den' := hlower'.resolve_left (by omega)
      have hself : Nearest (fractions : ℕ) fractions := by simp [Nearest]
      refine hself.mono hnearest' ?_
      rw [fractions_eq, le_div_iff₀ (by positivity), ← two_zpow_add]
      exact hlarge
    have hexponent : (u' - leastUnit).toNat = (u - leastUnit).toNat + (u' - u).toNat := by omega
    have hcarry : 1 * fractions ≤ (u' - u).toNat * fractions :=
      Nat.mul_le_mul_right _ (by omega)
    simp only [bitsOf, hexponent, Nat.add_mul]
    omega

/-- **Rounding keeps the order of quotients.** -/
theorem magnitude_ofRatio_mono (hden : 0 < den) (hden' : 0 < den')
    (h : (num : ℚ) / den ≤ num' / den') (hfinite : magnitudeBits num' den' < infinityBits)
    (negative negative' : Bool) :
    (exact (ofRatio negative num den)).magnitude ≤
      (exact (ofRatio negative' num' den')).magnitude := by
  have hbits := magnitudeBits_mono hden hden' h
  refine (canonical_exact _).magnitude_le (canonical_exact _) ?_
  rw [ofRatio, ofRatio, (parts_ofBits (hbits.trans_lt hfinite) negative).2,
    (parts_ofBits hfinite negative').2]
  exact hbits

/-! ## Quotients that are doubles -/

/-- A double is nearest to itself. -/
theorem captures_self (m : ℕ) (q : ℤ) : Captures m q (m * 2 ^ q) := by
  have hunit : (0 : ℚ) < 2 ^ q := by positivity
  have hquarters : (0 : ℚ) < quartersBelow m q := by
    unfold quartersBelow
    split <;> norm_num
  have hlower : lowerEnd m q < m * 2 ^ q := by
    rw [lowerEnd, quarter_unit]
    nlinarith
  have hupper : (m : ℚ) * 2 ^ q < upperEnd m q := by
    rw [upperEnd, quarter_unit]
    linarith
  exact ⟨hlower.le, hupper.le, fun hends => hends.elim (absurd · hlower.ne') (absurd · hupper.ne)⟩

/-- **A quotient that is a double** is rounded to it. -/
theorem exact_ofRatio_of_eq {m : ℕ} {q : ℤ} (h : Canonical m q) (hm : 0 < m)
    (hfinite : bitsOf m q < infinityBits) (hden : 0 < den) (heq : (num : ℚ) / den = m * 2 ^ q)
    (negative : Bool) : exact (ofRatio negative num den) = ⟨negative, m, q⟩ := by
  have hcaptures : Captures m q (num / den) := heq ▸ captures_self m q
  rw [ofRatio, hcaptures.magnitudeBits h hm hfinite hden, exact_ofBits h hfinite]

/-- Natural numbers of up to 53 bits are doubles. -/
theorem magnitude_ofRatio_one {n : ℕ} (h : n < 2 * fractions) (negative : Bool) :
    (exact (ofRatio negative n 1)).magnitude = n := by
  rcases Nat.eq_zero_or_pos n with rfl | hn
  · have hzero : exact (ofRatio negative 0 1) = ⟨negative, 0, leastUnit⟩ := by
      cases negative <;> decide +kernel
    simp [hzero, ExactFloat.magnitude]
  · obtain ⟨hle, hupper, hlower⟩ := unitOf_spec hn Nat.one_pos
    generalize unitOf n 1 = u at *
    rw [Nat.cast_one, div_one] at hupper hlower
    have hlt : (n : ℚ) < 2 ^ (53 : ℤ) := by
      refine lt_of_lt_of_le (b := ((2 * fractions : ℕ) : ℚ)) (by exact_mod_cast h) ?_
      norm_num [fractions]
    have hu : u ≤ 0 := by
      rcases hlower with rfl | hlower
      · decide
      · have := (zpow_lt_zpow_iff_right₀ (by norm_num : (1 : ℚ) < 2)).1 (hlower.trans_lt hlt)
        omega
    -- The mantissa is as many times larger as the unit is smaller than one.
    have hvalue : ((n * 2 ^ (-u).toNat : ℕ) : ℚ) * 2 ^ u = n := by
      have hscaled := two_zpow_mul u
      rw [Int.toNat_of_nonpos hu, Nat.pow_eq] at hscaled
      push_cast at hscaled ⊢
      linear_combination (n : ℚ) * hscaled
    have hunit : (0 : ℚ) < 2 ^ u := by positivity
    have hcanonical : Canonical (n * 2 ^ (-u).toNat) u := by
      refine ⟨?_, hle, hlower.imp_right fun hlarge => ?_⟩
      · rw [← Nat.cast_lt (α := ℚ), ← mul_lt_mul_iff_left₀ hunit, hvalue]
        refine hupper.trans_eq ?_
        rw [two_zpow_add]
        norm_num [fractions]
      · rw [← Nat.cast_le (α := ℚ), ← mul_le_mul_iff_left₀ hunit, hvalue,
          fractions_eq, ← two_zpow_add]
        exact hlarge
    have hfinite : bitsOf (n * 2 ^ (-u).toNat) u < infinityBits := by
      have := hcanonical.lt
      simp only [bitsOf, fractions, leastUnit, infinityBits] at *
      omega
    rw [exact_ofRatio_of_eq hcanonical (Nat.mul_pos hn (Nat.two_pow_pos _)) hfinite Nat.one_pos
      (by rw [Nat.cast_one, div_one, hvalue])]
    exact hvalue

/-- **Integers of up to 53 bits are doubles.** -/
theorem value_ofInt {k : ℤ} (h : k.natAbs < 2 * fractions) :
    (ofInt k).isFinite = true ∧ (exact (ofInt k)).value = k := by
  have hlt : k.natAbs < 1 * 2 ^ 1023 := by
    calc k.natAbs < 1 * 2 ^ 53 := h
      _ ≤ 1 * 2 ^ 1023 := by gcongr <;> norm_num
  have hsign := (parts_ofBits (magnitudeBits_lt Nat.one_pos hlt) (k < 0)).1
  have hmagnitude := magnitude_ofRatio_one h (k < 0)
  refine ⟨isFinite_ofRatio Nat.one_pos hlt, ?_⟩
  rw [ofInt, ExactFloat.value, hmagnitude]
  rw [← ofRatio] at hsign
  rw [hsign, Nat.cast_natAbs, Int.cast_abs]
  rcases lt_or_ge k 0 with hneg | hpos
  · simp [hneg, abs_of_neg (show (k : ℚ) < 0 by exact_mod_cast hneg)]
  · simp [not_lt.2 hpos, abs_of_nonneg (show (0 : ℚ) ≤ k by exact_mod_cast hpos)]

/-- Integers of 64 bits, and many more, are rounded to finite doubles. -/
theorem isFinite_ofInt {k : ℤ} (h : k.natAbs < 2 ^ 1023) : (ofInt k).isFinite = true :=
  isFinite_ofRatio Nat.one_pos (by rwa [Nat.one_mul])

/-- Integers of more than 53 bits are not rounded to one of fewer. -/
theorem le_magnitude_ofInt {k : ℤ} (hlarge : 2 * fractions ≤ k.natAbs) (h : k.natAbs < 2 ^ 1023) :
    ((2 * fractions : ℕ) : ℚ) ≤ (exact (ofInt k)).magnitude := by
  have hpower : exact (ofRatio false (2 * fractions) 1) = ⟨false, fractions, 1⟩ := by decide +kernel
  have hmagnitude : (exact (ofRatio false (2 * fractions) 1)).magnitude = (2 * fractions : ℕ) := by
    rw [hpower, ExactFloat.magnitude]
    norm_num [fractions]
  rw [← hmagnitude]
  exact magnitude_ofRatio_mono Nat.one_pos Nat.one_pos
    (div_le_div_of_nonneg_right (by exact_mod_cast hlarge) (by norm_num))
    (magnitudeBits_lt Nat.one_pos (by rwa [Nat.one_mul])) false (k < 0)

end Binary64

end DiceNotation
