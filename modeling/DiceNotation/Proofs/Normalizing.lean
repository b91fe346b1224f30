import DiceNotation.Number.Normal
import DiceNotation.Proofs.Binary64.Nearest

/-!
# DiceNotation.Proofs.Normalizing

Normal forms are normal.

* `roundThousandths_ofRatio`: a double with a fraction that is nearest to a thousandth
  is rounded to itself. Where the doubles are closer than thousandths the same
  thousandth is found again. Where they are not, the double is nearest to whichever
  thousandth is found, unless it is a power of two, and such a power has no fraction;
* `Number.normalize_normalize`: the normal form of a normal form;
* `fraction_bounds`: how large and how small the fractions among the normal forms are.
-/

namespace DiceNotation

namespace Binary64

/-! ## Fractions -/

theorem magnitude_pos_of_fraction {x : Float} (h : isWhole x = false) : 0 < (exact x).mantissa := by
  rw [Nat.pos_iff_ne_zero]
  intro hzero
  simp [isWhole, ExactFloat.num, hzero] at h

/-- The powers of two that are doubles with a large unit have no fraction. -/
theorem isWhole_of_power {x : Float} (hmantissa : (exact x).mantissa = fractions)
    (hexponent : -9 ≤ (exact x).exponent) : isWhole x = true := by
  have hden : (exact x).den ∣ fractions := by
    have hpower : fractions = 2 ^ 52 := by decide
    rw [ExactFloat.den, hpower]
    exact pow_dvd_pow 2 (by omega)
  have hdvd : (exact x).den ∣ (exact x).num := by
    rw [ExactFloat.num, hmantissa]
    exact hden.mul_right _
  simpa [isWhole] using Nat.mod_eq_zero_of_dvd hdvd

/-- The thousandths of a double. -/
theorem thousandths_nearest (x : Float) :
    Nearest ((exact x).magnitude / (1 / 1000))
      (roundDiv .even ((exact x).num * 1000) (exact x).den) := by
  have hden : ((exact x).den : ℚ) ≠ 0 := by exact_mod_cast (exact x).den_pos.ne'
  have hvalue : (exact x).magnitude / (1 / 1000) =
      (((exact x).num * 1000 : ℕ) : ℚ) / (exact x).den := by
    rw [Nat.cast_mul, ExactFloat.num_eq]
    field_simp
    norm_num
  rw [hvalue]
  exact roundDiv_nearest _ (exact x).den_pos

/-- A double that is nearer to a thousandth than to the middle between two is rounded to it. -/
theorem roundThousandths_of_near {x : Float} {k : ℕ}
    (h : |(exact x).magnitude - (k : ℚ) / 1000| < 1 / 2000) :
    roundThousandths x = ofRatio (exact x).negative k 1000 := by
  have hk : Nearest ((exact x).magnitude / (1 / 1000)) k := by
    apply nearest_of_lt
    have hscaled : (exact x).magnitude / (1 / 1000) - k =
        ((exact x).magnitude - (k : ℚ) / 1000) * 1000 := by ring
    rw [hscaled, abs_mul, abs_of_pos (by norm_num : (0 : ℚ) < 1000)]
    linarith
  rw [roundThousandths, (thousandths_nearest x).unique hk]

/-- Where doubles are further apart than thousandths, a fraction is rounded to itself. -/
theorem roundThousandths_of_coarse {x : Float} (hfinite : x.isFinite = true)
    (hfraction : isWhole x = false) (hexponent : -9 ≤ (exact x).exponent) :
    roundThousandths x = x := by
  apply ofRatio_of_captures hfinite (magnitude_pos_of_fraction hfraction) (by decide)
  have hnearest := (thousandths_nearest x).abs_sub_le (by norm_num : (0 : ℚ) < 1 / 1000)
  generalize roundDiv .even ((exact x).num * 1000) (exact x).den = k at hnearest ⊢
  have hpower : (exact x).mantissa ≠ fractions := fun heq => by
    rw [isWhole_of_power heq hexponent] at hfraction
    cases hfraction
  have hunit : (1 : ℚ) / 512 ≤ 2 ^ (exact x).exponent := by
    have hle := zpow_le_zpow_right₀ (by norm_num : (1 : ℚ) ≤ 2) hexponent
    norm_num at hle ⊢
    exact hle
  have hbelow := (abs_le.1 hnearest).1
  have habove := (abs_le.1 hnearest).2
  rw [ExactFloat.magnitude] at hbelow habove
  have hthousandth : ((k : ℕ) : ℚ) / (1000 : ℕ) = k * (1 / 1000) := by
    push_cast
    ring
  have hlower : lowerEnd (exact x).mantissa (exact x).exponent < (k : ℚ) / (1000 : ℕ) := by
    rw [lowerEnd, quarter_unit, quartersBelow, if_neg fun h => hpower h.1, hthousandth]
    push_cast
    linarith
  have hupper : (k : ℚ) / (1000 : ℕ) < upperEnd (exact x).mantissa (exact x).exponent := by
    rw [upperEnd, quarter_unit, hthousandth]
    linarith
  exact ⟨hlower.le, hupper.le, fun hends => hends.elim (absurd · hlower.ne') (absurd · hupper.ne)⟩

/-- **A thousandth is found again**, unless the double that is nearest to it has no fraction. -/
theorem roundThousandths_ofRatio {negative : Bool} {k : ℕ} (hk : 0 < k) (hlt : k < 1000 * 2 ^ 1023)
    (hfraction : isWhole (ofRatio negative k 1000) = false) :
    roundThousandths (ofRatio negative k 1000) = ofRatio negative k 1000 := by
  obtain ⟨hsign, hexponent, hdistance⟩ :=
    exact_ofRatio hk (by decide) negative (magnitudeBits_lt (by decide) hlt)
  by_cases hunit : unitOf k 1000 ≤ -10
  · have hfine : (2 : ℚ) ^ unitOf k 1000 ≤ 1 / 1024 := by
      have hle := zpow_le_zpow_right₀ (by norm_num : (1 : ℚ) ≤ 2) hunit
      norm_num at hle ⊢
      exact hle
    rw [Nat.cast_ofNat] at hdistance
    have hsmall : (2 : ℚ) ^ unitOf k 1000 / 2 < 1 / 2000 := by linarith only [hfine]
    rw [roundThousandths_of_near (hdistance.trans_lt hsmall), hsign]
  · exact roundThousandths_of_coarse (isFinite_ofRatio (by decide) hlt) hfraction (by omega)

/-- Nothing is a whole number. -/
theorem isWhole_ofRatio_zero (negative : Bool) (den : ℕ) :
    isWhole (ofRatio negative 0 den) = true := by
  have hbits : magnitudeBits 0 den = bitsOf 0 leastUnit := by
    rw [magnitudeBits, if_pos rfl]
    decide
  rw [ofRatio, hbits, isWhole, exact_ofBits ⟨by decide, Int.le_refl _, .inl rfl⟩ (by decide)]
  rfl

theorem thousandths_pos {x : Float} (h : isWhole (roundThousandths x) = false) :
    0 < roundDiv .even ((exact x).num * 1000) (exact x).den := by
  rw [Nat.pos_iff_ne_zero]
  intro hzero
  rw [roundThousandths, hzero, isWhole_ofRatio_zero] at h
  cases h

/-- **Rounding to thousandths twice is rounding once**, where it leaves a fraction. -/
theorem roundThousandths_twice {x : Float} (h : isWhole x = false)
    (hfraction : isWhole (roundThousandths x) = false) :
    roundThousandths (roundThousandths x) = roundThousandths x :=
  roundThousandths_ofRatio (thousandths_pos hfraction) (thousandths_lt h) hfraction

/-- What is left as a fraction is not too small, and not so large that it would be whole. -/
theorem fraction_bounds {x : Float} (h : isWhole x = false)
    (hfraction : isWhole (roundThousandths x) = false) :
    (1 : ℚ) / 2000 ≤ (exact (roundThousandths x)).magnitude ∧
      (exact (roundThousandths x)).exponent < 0 := by
  refine ⟨?_, exponent_neg_of_fraction hfraction⟩
  have hpos := thousandths_pos hfraction
  have hlt := thousandths_lt h
  unfold roundThousandths
  dsimp only
  generalize roundDiv .even ((exact x).num * 1000) (exact x).den = k at hpos hlt ⊢
  have hdistance := (exact_ofRatio hpos (by decide : 0 < 1000) (exact x).negative
    (magnitudeBits_lt (by decide) hlt)).2.2
  obtain ⟨-, -, hunit⟩ := unitOf_spec hpos (by decide : 0 < 1000)
  rw [Nat.cast_ofNat] at hdistance hunit
  have hk : (1 : ℚ) ≤ k := by exact_mod_cast hpos
  -- The distance is at most half of the thousandths.
  have hsmall : (2 : ℚ) ^ unitOf k 1000 ≤ k / 1000 := by
    rcases hunit with hleast | hlarge
    · rw [hleast]
      have hle : (2 : ℚ) ^ leastUnit ≤ 2 ^ (-10 : ℤ) :=
        zpow_le_zpow_right₀ (by norm_num) (by decide)
      norm_num at hle
      linarith
    · exact le_trans (zpow_le_zpow_right₀ (by norm_num) (by omega)) hlarge
  have hbelow := (abs_le.1 hdistance).1
  linarith

end Binary64

/-! ## Numbers -/

namespace Number

open Binary64

/-- The normal form of a double stays a double unless it is whole. -/
theorem ofFloat_of_fraction {x : Float} (h : isWhole x = false) : ofFloat x = .float x := by
  simp [ofFloat, h]

theorem ofFloat_eq_float {x v : Float} (h : ofFloat x = .float v) : v = x := by
  unfold ofFloat at h
  dsimp only at h
  split at h <;> cases h
  rfl

/-- A normal form with a fraction was rounded to thousandths. -/
theorem exists_of_normalize {x : Number} {v : Float} (h : x.normalize = .float v)
    (hfinite : v.isFinite = true) (hfraction : isWhole v = false) :
    ∃ y, isWhole y = false ∧ v = roundThousandths y := by
  cases x with
  | int n => cases h
  | float y =>
    have hv := ofFloat_eq_float h
    split at hv
    case isTrue hy =>
      simp only [Bool.and_eq_true, Bool.not_eq_true'] at hy
      exact ⟨y, hy.2, hv⟩
    case isFalse hy =>
      subst hv
      simp [hfinite, hfraction] at hy

/-- **The normal form of a normal form** is itself. -/
theorem normalize_normalize (x : Number) : x.normalize.normalize = x.normalize := by
  cases hx : x.normalize with
  | int n => rfl
  | float v =>
    by_cases hfraction : (v.isFinite && !isWhole v) = true
    · simp only [Bool.and_eq_true, Bool.not_eq_true'] at hfraction
      obtain ⟨y, hy, rfl⟩ := exists_of_normalize hx hfraction.1 hfraction.2
      have hnormal : (Number.float (roundThousandths y)).normalize =
          ofFloat (roundThousandths (roundThousandths y)) := by
        simp [normalize, hfraction]
      rw [hnormal, roundThousandths_twice hy hfraction.2, ofFloat_of_fraction hfraction.2]
    · rw [normalize, if_neg hfraction]
      cases x with
      | int n => cases hx
      | float y =>
        replace hx : ofFloat _ = .float v := hx
        rwa [← ofFloat_eq_float hx] at hx

end Number

end DiceNotation
