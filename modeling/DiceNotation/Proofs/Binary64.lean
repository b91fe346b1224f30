import DiceNotation.Number.Normal
import Mathlib

/-!
# DiceNotation.Proofs.Binary64

Which doubles are finite, read off their bits, and why rounding keeps a double finite.

* `isFinite_iff`, `isFinite_ofBits`: a double is finite unless its exponent has all bits set;
* `floorLog2_spec`: the place of the leading bit of a quotient, as an inequality of rationals;
* `isFinite_ofRatio`: a quotient far enough below the greatest double rounds to a finite one;
* `isFinite_roundThousandths`: so does a double with a fraction when it is rounded to thousandths.
  It has a fraction because its unit is below one, which makes it small.

The definitions scale by powers of two with natural exponents, one for either sign. Inequalities
between such products are inequalities between rationals (`lt_scaled_iff`), and are proved there.
-/

namespace DiceNotation.Binary64

/-! ## The bits of a double -/

section

open Float.Model Float.Model.UnpackedFloat

/-- The exponent that all doubles have which are infinite or not a number. -/
def specialExponent : Nat := 2047

/-- The exponent of a double, as a part of its bits. -/
theorem toNat_unpackExponent (bits : BitVec 64) :
    (@unpackExponent Format.binary64 bits).toNat = bits.toNat / fractions % exponents := by
  rw [unpackExponent, BitVec.toNat_cast, BitVec.extractLsb_toNat, Nat.shiftRight_eq_div_pow]
  rfl

theorem unpackExponent_eq_iff (bits : BitVec 64) :
    @unpackExponent Format.binary64 bits = -1#_ ↔
      bits.toNat / fractions % exponents = specialExponent := by
  rw [← toNat_unpackExponent, ← BitVec.toNat_inj]
  rfl

/-- **A double is finite unless its exponent is the special one.** -/
theorem isFinite_iff (x : Float) :
    x.isFinite = true ↔ x.toBits.toNat / fractions % exponents ≠ specialExponent := by
  rw [← UInt64.toNat_toBitVec, Ne, ← unpackExponent_eq_iff]
  show (UnpackedFloat.unpack Format.binary64 x.toBits.toBitVec).isFinite = true ↔ _
  unfold UnpackedFloat.unpack
  dsimp only
  split
  · split <;> simp_all [UnpackedFloat.isFinite]
  · split
    · split <;> simp_all [UnpackedFloat.isFinite]
    · simp_all [UnpackedFloat.isFinite]

/-- Bits with an exponent that is not special are those of the double that they make. -/
theorem toBits_ofBits {bits : UInt64} (h : bits.toNat / fractions % exponents ≠ specialExponent) :
    (Float.ofBits bits).toBits = bits := by
  have hnan : ¬ @isNaNBits Format.binary64 bits.toBitVec = true := by
    simp only [isNaNBits, decide_eq_true_eq]
    exact fun hspecial => h ((unpackExponent_eq_iff _).1 hspecial.1)
  apply UInt64.toBitVec_inj.1
  show (unpack Format.binary64 bits.toBitVec).pack Format.binary64 = bits.toBitVec
  rw [pack_unpack, if_neg hnan]

/-- Bits with an exponent that is not special make a finite double. -/
theorem isFinite_ofBits {bits : UInt64}
    (h : bits.toNat / fractions % exponents ≠ specialExponent) :
    (Float.ofBits bits).isFinite = true := by
  rw [isFinite_iff, toBits_ofBits h]
  exact h

end

/-! ## Quotients by powers of two -/

/-- A power is the quotient of the two natural powers that stand for it. -/
theorem zpow_mul_toNat {b : ℕ} (h : b ≠ 0) (k : ℤ) :
    (b : ℚ) ^ k * (Nat.pow b (-k).toNat : ℕ) = (Nat.pow b k.toNat : ℕ) := by
  have hcast : ∀ n : ℕ, ((Nat.pow b n : ℕ) : ℚ) = (b : ℚ) ^ (n : ℤ) := by
    intro n
    rw [zpow_natCast]
    exact Nat.cast_pow b n
  rw [hcast, hcast, ← zpow_add₀ (Nat.cast_ne_zero.2 h)]
  congr 1
  omega

theorem two_zpow_mul (k : ℤ) :
    (2 : ℚ) ^ k * (Nat.pow 2 (-k).toNat : ℕ) = (Nat.pow 2 k.toNat : ℕ) :=
  zpow_mul_toNat two_ne_zero k

theorem lt_scaled_iff (num den : ℕ) (k : ℤ) :
    num * Nat.pow 2 (-k).toNat < den * Nat.pow 2 k.toNat ↔ (num : ℚ) < den * (2 : ℚ) ^ k := by
  have hpos : (0 : ℚ) < (Nat.pow 2 (-k).toNat : ℕ) := by
    exact_mod_cast Nat.two_pow_pos (-k).toNat
  rw [← Nat.cast_lt (α := ℚ), Nat.cast_mul, Nat.cast_mul, ← two_zpow_mul k, ← mul_assoc,
    mul_lt_mul_iff_left₀ hpos]

theorem log2_spec {n : ℕ} (h : 0 < n) :
    (2 : ℚ) ^ (n.log2 : ℤ) ≤ n ∧ (n : ℚ) < 2 ^ ((n.log2 : ℤ) + 1) := by
  constructor
  · rw [zpow_natCast]
    exact_mod_cast Nat.log2_self_le h.ne'
  · rw [← Nat.cast_succ, zpow_natCast]
    exact_mod_cast Nat.lt_log2_self

/-- **The leading bit of a quotient** is where `floorLog2` says. -/
theorem floorLog2_spec {num den : ℕ} (hnum : 0 < num) (hden : 0 < den) :
    (den : ℚ) * 2 ^ floorLog2 num den ≤ num ∧
      (num : ℚ) < den * 2 ^ (floorLog2 num den + 1) := by
  obtain ⟨hnumle, hnumlt⟩ := log2_spec hnum
  obtain ⟨hdenle, hdenlt⟩ := log2_spec hden
  have hadd : ∀ a b : ℤ, (2 : ℚ) ^ (a + b) = 2 ^ a * 2 ^ b := fun a b => zpow_add₀ (by norm_num) a b
  have hpos : ∀ a : ℤ, (0 : ℚ) ≤ 2 ^ a := fun a => by positivity
  have hguess := lt_scaled_iff num den ((num.log2 : ℤ) - den.log2)
  unfold floorLog2
  dsimp only
  split
  case isTrue h =>
    -- The guess is one too high, and known to be an upper bound.
    rw [Int.sub_add_cancel]
    refine ⟨?_, hguess.1 h⟩
    calc (den : ℚ) * 2 ^ ((num.log2 : ℤ) - den.log2 - 1)
        ≤ 2 ^ ((den.log2 : ℤ) + 1) * 2 ^ ((num.log2 : ℤ) - den.log2 - 1) :=
          mul_le_mul_of_nonneg_right hdenlt.le (hpos _)
      _ = 2 ^ (num.log2 : ℤ) := by rw [← hadd]; congr 1; omega
      _ ≤ num := hnumle
  case isFalse h =>
    refine ⟨not_lt.1 fun hlt => h (hguess.2 hlt), ?_⟩
    calc (num : ℚ) < 2 ^ ((num.log2 : ℤ) + 1) := hnumlt
      _ = 2 ^ (den.log2 : ℤ) * 2 ^ ((num.log2 : ℤ) - den.log2 + 1) := by
          rw [← hadd]; congr 1; omega
      _ ≤ den * 2 ^ ((num.log2 : ℤ) - den.log2 + 1) :=
          mul_le_mul_of_nonneg_right hdenle (hpos _)

/-! ## The nearest double -/

/-- A mantissa is at most the one that carries into the exponent. -/
theorem mantissa_le {num den : ℕ} (hnum : 0 < num) (hden : 0 < den) :
    roundDiv .even (num * Nat.pow 2 (-unitOf num den).toNat)
      (den * Nat.pow 2 (unitOf num den).toNat) ≤ 2 * fractions := by
  have hunit : floorLog2 num den + 1 ≤ 53 + unitOf num den := by
    rw [unitOf]
    omega
  generalize unitOf num den = unit at hunit ⊢
  have hlt : (num : ℚ) < (den * (2 * fractions) : ℕ) * 2 ^ unit := by
    have hfractions : ((2 * fractions : ℕ) : ℚ) = 2 ^ (53 : ℤ) := by norm_num [fractions]
    calc (num : ℚ) < den * 2 ^ (floorLog2 num den + 1) := (floorLog2_spec hnum hden).2
      _ ≤ den * 2 ^ (53 + unit) := by
          gcongr
          norm_num
      _ = (den * (2 * fractions) : ℕ) * 2 ^ unit := by
          rw [Nat.cast_mul, hfractions, zpow_add₀ (by norm_num), mul_assoc]
  have hbelow : num * Nat.pow 2 (-unit).toNat / (den * Nat.pow 2 unit.toNat) < 2 * fractions := by
    apply Nat.div_lt_of_lt_mul
    calc num * Nat.pow 2 (-unit).toNat
        < den * (2 * fractions) * Nat.pow 2 unit.toNat := (lt_scaled_iff num _ unit).2 hlt
      _ = den * Nat.pow 2 unit.toNat * (2 * fractions) := Nat.mul_right_comm ..
  rcases roundDiv_eq_or .even (num * Nat.pow 2 (-unit).toNat) (den * Nat.pow 2 unit.toNat) with
    h | h <;> omega

/-- A quotient below the greatest power of two among the doubles does not round to infinity. -/
theorem magnitudeBits_lt {num den : ℕ} (hden : 0 < den) (h : num < den * 2 ^ 1023) :
    magnitudeBits num den < infinityBits := by
  unfold magnitudeBits
  split
  case isTrue => decide
  case isFalse hne =>
    have hnum : 0 < num := Nat.pos_of_ne_zero hne
    have hmantissa := mantissa_le hnum hden
    have hlog : floorLog2 num den < 1023 := by
      have hlt : (den : ℚ) * 2 ^ floorLog2 num den < den * 2 ^ (1023 : ℤ) := by
        refine lt_of_le_of_lt (floorLog2_spec hnum hden).1 ?_
        exact_mod_cast h
      rw [mul_lt_mul_iff_right₀ (by exact_mod_cast hden)] at hlt
      exact (zpow_lt_zpow_iff_right₀ (by norm_num)).1 hlt
    have hunit : (unitOf num den - leastUnit).toNat ≤ 2044 := by
      simp only [unitOf, leastUnit]
      omega
    have hexponent := Nat.mul_le_mul_right fractions hunit
    refine Nat.lt_of_le_of_lt (Nat.min_le_left _ _) ?_
    simp only [fractions, infinityBits] at *
    omega

/-- Such a quotient rounds to a finite double. -/
theorem isFinite_ofRatio {negative : Bool} {num den : ℕ} (hden : 0 < den)
    (h : num < den * 2 ^ 1023) : (ofRatio negative num den).isFinite = true := by
  have hbits := magnitudeBits_lt hden h
  apply isFinite_ofBits
  rw [UInt64.toNat_ofNat']
  simp only [fractions, infinityBits, exponents, signBit, specialExponent] at *
  cases negative <;> simp only [Bool.false_eq_true, if_true, if_false] <;> omega

/-! ## Rounding to thousandths -/

theorem mantissa_exact_lt (x : Float) : (exact x).mantissa < 2 * fractions := by
  have := Nat.mod_lt x.toBits.toNat (show 0 < fractions by decide)
  unfold exact
  dsimp only
  split
  · show x.toBits.toNat % fractions < 2 * fractions
    omega
  · show fractions + x.toBits.toNat % fractions < 2 * fractions
    omega

/-- The unit of a double with a fraction is below one. -/
theorem exponent_neg_of_fraction {x : Float} (h : isWhole x = false) : (exact x).exponent < 0 := by
  by_contra hge
  have hden : (exact x).den = 1 := by
    rw [ExactFloat.den, Int.toNat_of_nonpos (by omega)]
  simp [isWhole, hden, Nat.mod_one] at h

/-- A double with a fraction is less than its greatest mantissa. -/
theorem num_exact_lt {x : Float} (h : isWhole x = false) : (exact x).num < 2 * fractions := by
  have hexponent := exponent_neg_of_fraction h
  rw [ExactFloat.num, Int.toNat_of_nonpos (by omega)]
  simpa using mantissa_exact_lt x

/-- The thousandths that a fraction is rounded to are far from infinity. -/
theorem thousandths_lt {x : Float} (h : isWhole x = false) :
    roundDiv .even ((exact x).num * 1000) (exact x).den < 1000 * 2 ^ 1023 := by
  have hnum := num_exact_lt h
  have hbelow : (exact x).num * 1000 / (exact x).den ≤ (exact x).num * 1000 := Nat.div_le_self ..
  have hround : roundDiv .even ((exact x).num * 1000) (exact x).den ≤ (exact x).num * 1000 + 1 := by
    rcases roundDiv_eq_or .even ((exact x).num * 1000) (exact x).den with h | h <;> omega
  calc roundDiv .even ((exact x).num * 1000) (exact x).den
      ≤ (exact x).num * 1000 + 1 := hround
    _ < 1000 * 2 ^ 64 := by
        simp only [fractions] at hnum
        omega
    _ ≤ 1000 * 2 ^ 1023 := by gcongr <;> norm_num

/-- **Rounding a fraction to thousandths gives a finite double.** -/
theorem isFinite_roundThousandths {x : Float} (h : isWhole x = false) :
    (roundThousandths x).isFinite = true :=
  isFinite_ofRatio (by decide) (thousandths_lt h)

end DiceNotation.Binary64
