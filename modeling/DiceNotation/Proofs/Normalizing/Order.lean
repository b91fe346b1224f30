import DiceNotation.Proofs.Binary64.Order
import DiceNotation.Proofs.Finiteness
import DiceNotation.Proofs.Normalizing

/-!
# DiceNotation.Proofs.Normalizing.Order

Normal forms keep the order of numbers.

* `Number.value`: what a finite number stands for;
* `roundThousandths_of_whole`: rounding to thousandths leaves a double without a fraction alone, so
  that it says what the normal form of any double stands for (`Number.value_normalize_float`);
* `value_roundThousandths_mono`: it keeps the order of doubles. Both of its
  roundings do, and the sign is kept apart;
* `roundThousandths_between`: it does not cross an integer, though integers need not be doubles;
* `Number.normalize_orderly`: normal forms are normal, in the order of the
  numbers, and the same where there is no fraction.
-/

namespace DiceNotation

namespace Binary64

/-! ## Doubles without a fraction -/

theorem magnitude_eq_num_div_den (x : ExactFloat) : x.magnitude = (x.num : ℚ) / x.den := by
  have hden : (x.den : ℚ) ≠ 0 := by exact_mod_cast x.den_pos.ne'
  rw [ExactFloat.num_eq, mul_div_cancel_right₀ _ hden]

/-- A double has no fraction if its magnitude is a natural number. -/
theorem isWhole_iff (x : Float) : isWhole x = true ↔ ∃ n : ℕ, (exact x).magnitude = n := by
  have hden : ((exact x).den : ℚ) ≠ 0 := by exact_mod_cast (exact x).den_pos.ne'
  have hdvd : isWhole x = true ↔ (exact x).den ∣ (exact x).num := by
    simp [isWhole, Nat.dvd_iff_mod_eq_zero]
  rw [hdvd, magnitude_eq_num_div_den]
  constructor
  · rintro ⟨n, hn⟩
    exact ⟨n, by rw [hn, Nat.cast_mul, mul_div_cancel_left₀ _ hden]⟩
  · rintro ⟨n, hn⟩
    exact ⟨n, by exact_mod_cast ((div_eq_iff hden).1 hn).trans (mul_comm _ _)⟩

/-- The thousandths of a double without a fraction are rounded to its bits. -/
theorem magnitudeBits_thousandths {x : Float} (hfinite : x.isFinite = true)
    (h : isWhole x = true) :
    magnitudeBits (roundDiv .even ((exact x).num * 1000) (exact x).den) 1000 =
      bitsOf (exact x).mantissa (exact x).exponent := by
  obtain ⟨n, hn⟩ := (isWhole_iff x).1 h
  have hthousandths : roundDiv .even ((exact x).num * 1000) (exact x).den = n * 1000 := by
    refine (thousandths_nearest x).unique (nearest_of_lt ?_)
    have hscaled : (n : ℚ) / (1 / 1000) - (n * 1000 : ℕ) = 0 := by
      push_cast
      ring
    rw [hn, hscaled]
    norm_num
  have hcanonical := canonical_exact x
  rw [hthousandths]
  rcases Nat.eq_zero_or_pos (exact x).mantissa with hzero | hpos
  · have hn0 : n = 0 := by
      rw [ExactFloat.magnitude, hzero, Nat.cast_zero, zero_mul] at hn
      exact_mod_cast hn.symm
    have hexponent : (exact x).exponent = leastUnit := by
      have hleading := hcanonical.leading
      rw [hzero] at hleading
      exact hleading.resolve_right (by decide)
    rw [hn0, hzero, hexponent]
    decide
  · have hvalue : ((n * 1000 : ℕ) : ℚ) / (1000 : ℕ) =
        (exact x).mantissa * 2 ^ (exact x).exponent := by
      push_cast
      rw [mul_div_cancel_right₀ _ (by norm_num), ← hn, ExactFloat.magnitude]
    have hcaptures : Captures (exact x).mantissa (exact x).exponent
        (((n * 1000 : ℕ) : ℚ) / (1000 : ℕ)) :=
      hvalue ▸ captures_self _ _
    exact hcaptures.magnitudeBits hcanonical hpos ((isFinite_iff_bitsOf x).1 hfinite) (by decide)

/-- **A double without a fraction** is left alone when it is rounded to thousandths. -/
theorem roundThousandths_of_whole {x : Float} (hfinite : x.isFinite = true)
    (h : isWhole x = true) : roundThousandths x = x := by
  rw [roundThousandths, ofRatio, magnitudeBits_thousandths hfinite h, ofBits_parts]

/-! ## The order of thousandths -/

/-- The thousandths of a finite double are not rounded to infinity. -/
theorem magnitudeBits_thousandths_lt {x : Float} (hfinite : x.isFinite = true) :
    magnitudeBits (roundDiv .even ((exact x).num * 1000) (exact x).den) 1000 < infinityBits := by
  cases h : isWhole x with
  | false => exact magnitudeBits_lt (by decide) (thousandths_lt h)
  | true =>
    rw [magnitudeBits_thousandths hfinite h]
    exact (isFinite_iff_bitsOf x).1 hfinite

/-- The sign is kept. -/
theorem negative_roundThousandths {x : Float} (hfinite : x.isFinite = true) :
    (exact (roundThousandths x)).negative = (exact x).negative :=
  (parts_ofBits (magnitudeBits_thousandths_lt hfinite) _).1

/-- Larger magnitudes have no smaller thousandths. -/
theorem magnitude_roundThousandths_mono {x y : Float} (hy : y.isFinite = true)
    (h : (exact x).magnitude ≤ (exact y).magnitude) :
    (exact (roundThousandths x)).magnitude ≤ (exact (roundThousandths y)).magnitude := by
  have hscaled : (exact x).magnitude / (1 / 1000) ≤ (exact y).magnitude / (1 / 1000) :=
    div_le_div_of_nonneg_right h (by norm_num)
  have hthousandths := (thousandths_nearest x).mono (thousandths_nearest y) hscaled
  refine magnitude_ofRatio_mono (by decide) (by decide) ?_ (magnitudeBits_thousandths_lt hy) _ _
  exact div_le_div_of_nonneg_right (by exact_mod_cast hthousandths) (by norm_num)

/-- What rounds to nothing from nothing. -/
theorem magnitude_roundThousandths_zero {x : Float} (hfinite : x.isFinite = true)
    (h : (exact x).magnitude = 0) : (exact (roundThousandths x)).magnitude = 0 := by
  rw [roundThousandths_of_whole hfinite ((isWhole_iff x).2 ⟨0, by rw [h, Nat.cast_zero]⟩), h]

/-- **Rounding to thousandths keeps the order of doubles.** -/
theorem value_roundThousandths_mono {x y : Float} (hx : x.isFinite = true)
    (hy : y.isFinite = true) (h : (exact x).value ≤ (exact y).value) :
    (exact (roundThousandths x)).value ≤ (exact (roundThousandths y)).value := by
  have hsx := negative_roundThousandths hx
  have hsy := negative_roundThousandths hy
  have hnonneg := fun z : Float => (exact z).magnitude_nonneg
  unfold ExactFloat.value at h ⊢
  rw [hsx, hsy]
  cases hnx : (exact x).negative <;> cases hny : (exact y).negative <;>
    simp only [hnx, hny, Bool.false_eq_true, if_true, if_false] at h ⊢
  · exact magnitude_roundThousandths_mono hy h
  · -- Both are zeros.
    rw [magnitude_roundThousandths_zero hx (by linarith [hnonneg x, hnonneg y]),
      magnitude_roundThousandths_zero hy (by linarith [hnonneg x, hnonneg y]), neg_zero]
  · linarith [hnonneg (roundThousandths x), hnonneg (roundThousandths y)]
  · exact neg_le_neg (magnitude_roundThousandths_mono hx (neg_le_neg_iff.1 h))

/-- A double that stands for an integer has no fraction. -/
theorem isWhole_of_value {x : Float} {k : ℤ} (h : (exact x).value = k) : isWhole x = true := by
  refine (isWhole_iff x).2 ⟨k.natAbs, ?_⟩
  rw [← ExactFloat.abs_value, h, Nat.cast_natAbs, Int.cast_abs]

/-- Doubles with a fraction are small. -/
theorem abs_value_lt {x : Float} (h : isWhole x = false) : |(exact x).value| < fractions := by
  have hexponent := exponent_neg_of_fraction h
  have hmantissa : ((exact x).mantissa : ℚ) < (2 * fractions : ℕ) := by
    exact_mod_cast (canonical_exact x).lt
  have hunit : (0 : ℚ) < 2 ^ (exact x).exponent := by positivity
  have hhalf : (2 : ℚ) ^ (exact x).exponent ≤ 2 ^ (-1 : ℤ) :=
    zpow_le_zpow_right₀ (by norm_num) (by omega)
  have hmagnitude : (exact x).magnitude < fractions := by
    calc (exact x).magnitude < (2 * fractions : ℕ) * 2 ^ (exact x).exponent :=
          mul_lt_mul_of_pos_right hmantissa hunit
      _ ≤ (2 * fractions : ℕ) * 2 ^ (-1 : ℤ) := mul_le_mul_of_nonneg_left hhalf (by positivity)
      _ = fractions := by
          push_cast
          ring
  rw [ExactFloat.abs_value]
  exact hmagnitude

/-- **Rounding to thousandths does not cross an integer.** -/
theorem roundThousandths_between {x : Float} (hfinite : x.isFinite = true)
    (hfraction : isWhole x = false) (n : ℤ) :
    ((n : ℚ) ≤ (exact x).value → n ≤ (exact (roundThousandths x)).value) ∧
      ((exact x).value ≤ n → (exact (roundThousandths x)).value ≤ n) := by
  obtain ⟨hlower, hupper⟩ := abs_lt.1 (abs_value_lt hfraction)
  -- The integers next to a double with a fraction are doubles, and are left alone.
  have hinteger : ∀ k : ℤ, -(fractions : ℤ) ≤ k → k ≤ fractions → (ofInt k).isFinite = true ∧
      (exact (ofInt k)).value = k ∧ (exact (roundThousandths (ofInt k))).value = k := by
    intro k hleast hgreatest
    have hpos : 0 < fractions := by decide
    obtain ⟨hk, hvalue⟩ := value_ofInt (k := k) (by omega)
    exact ⟨hk, hvalue, by rw [roundThousandths_of_whole hk (isWhole_of_value hvalue), hvalue]⟩
  constructor
  · intro hn
    obtain ⟨hk, hvalue, hround⟩ := hinteger ⌊(exact x).value⌋
      (Int.le_floor.2 (by push_cast; exact hlower.le)) (Int.floor_le_iff.2 (by push_cast; linarith))
    have hmono := value_roundThousandths_mono hk hfinite (hvalue ▸ Int.floor_le _)
    rw [hround] at hmono
    exact le_trans (by exact_mod_cast Int.le_floor.2 hn) hmono
  · intro hn
    obtain ⟨hk, hvalue, hround⟩ := hinteger ⌈(exact x).value⌉
      (Int.le_ceil_iff.2 (by push_cast; linarith)) (Int.ceil_le.2 (by push_cast; exact hupper.le))
    have hmono := value_roundThousandths_mono hfinite hk (hvalue ▸ Int.le_ceil _)
    rw [hround] at hmono
    exact hmono.trans (by exact_mod_cast Int.ceil_le.2 hn)

end Binary64

/-! ## Numbers -/

namespace Number

open Binary64

/-- What a finite number stands for. -/
def value : Number → ℚ
  | .int n => n.toInt
  | .float x => (exact x).value

/-- Whether a number stands for an integer. -/
def IsIntegral (x : Number) : Prop := ∃ k : ℤ, x.value = k

/-- A double stands for the same when it is reported as an integer. -/
theorem value_ofFloat (x : Float) : (ofFloat x).value = (exact x).value := by
  unfold ofFloat
  dsimp only
  split
  case isTrue h =>
    simp only [Bool.and_eq_true, decide_eq_true_eq] at h
    obtain ⟨⟨-, hwhole⟩, hlt⟩ := h
    have hfits : Fits (truncate x) := by
      simp only [Fits, least, greatest, signBit] at *
      omega
    have hden : ((exact x).den : ℚ) ≠ 0 := by exact_mod_cast (exact x).den_pos.ne'
    have hdvd : (exact x).den ∣ (exact x).num := by
      simpa [isWhole, Nat.dvd_iff_mod_eq_zero] using hwhole
    have hquotient : (((exact x).num / (exact x).den : ℕ) : ℚ) = (exact x).magnitude := by
      rw [Nat.cast_div hdvd hden, magnitude_eq_num_div_den]
    rw [value, toInt_of_fits hfits, truncate, ExactFloat.withSign, ExactFloat.value, ← hquotient]
    split <;> push_cast <;> rfl
  case isFalse h => rfl

/-- **What the normal form of a double stands for**: its thousandths. -/
theorem value_normalize_float {x : Float} (hfinite : x.isFinite = true) :
    (Number.float x).normalize.value = (exact (roundThousandths x)).value := by
  rw [normalize, value_ofFloat]
  cases h : isWhole x with
  | false => simp [hfinite]
  | true => simp [roundThousandths_of_whole hfinite h]

/-- **Normal forms are in order.** A normal form is finite and its own normal
form, greater numbers have no smaller normal forms, and a number that stands for
an integer has a normal form that stands for it too. -/
theorem normalize_orderly {x y : Number} (hx : x.isFinite = true) (hy : y.isFinite = true) :
    x.normalize.isFinite = true ∧ x.normalize.normalize = x.normalize ∧
      (x.value ≤ y.value → x.normalize.value ≤ y.normalize.value) ∧
      (x.IsIntegral → x.normalize.value = x.value) := by
  have hwhole : ∀ {z : Float}, z.isFinite = true → isWhole z = true →
      (Number.float z).normalize.value = (exact z).value := by
    intro z hz h
    rw [value_normalize_float hz, roundThousandths_of_whole hz h]
  refine ⟨isFinite_normalize hx, normalize_normalize x, fun hle => ?_, fun hintegral => ?_⟩
  · cases x with
    | int m =>
      cases y with
      | int n => exact hle
      | float y =>
        cases h : isWhole y with
        | true => exact hle.trans_eq (hwhole hy h).symm
        | false =>
          rw [value_normalize_float hy]
          exact (roundThousandths_between hy h m.toInt).1 hle
    | float x =>
      cases y with
      | int n =>
        cases h : isWhole x with
        | true => exact (hwhole hx h).trans_le hle
        | false =>
          rw [value_normalize_float hx]
          exact (roundThousandths_between hx h n.toInt).2 hle
      | float y =>
        rw [value_normalize_float hx, value_normalize_float hy]
        exact value_roundThousandths_mono hx hy hle
  · cases x with
    | int m => rfl
    | float x =>
      obtain ⟨k, hk⟩ := hintegral
      exact hwhole hx (isWhole_of_value hk)

/-- A tie between thousandths, and an integer that is no double. -/
theorem normalize_orderly_tie :
    let x := Number.float (ofRatio true 1 16)
    let y := Number.int 9007199254740993
    x.isFinite = true ∧ y.isFinite = true ∧ x.value ≤ y.value ∧
      x.normalize = .float (ofRatio true 62 1000) ∧ x.normalize.normalize = x.normalize ∧
      x.normalize.value ≤ y.normalize.value := by
  intro x y
  have hx : x.isFinite = true := by decide +kernel
  have hle : x.value ≤ y.value := by
    have hvalue : exact (ofRatio true 1 16) = ⟨true, fractions, -56⟩ := by decide +kernel
    have hinteger : (9007199254740993 : Int64).toInt = 9007199254740993 := by decide
    simp only [x, y, value, hvalue, hinteger, ExactFloat.value, ExactFloat.magnitude, if_true]
    norm_num [fractions]
  obtain ⟨-, hnormal, hmono, -⟩ := normalize_orderly hx (isFinite_int 9007199254740993)
  exact ⟨hx, rfl, hle, by decide +kernel, hnormal, hmono hle⟩

end Number

end DiceNotation
