import DiceNotation.Rounding
import Mathlib

/-!
# DiceNotation.Proofs.Rounding

Which whole number a quotient is rounded to: the nearest, and the even one of
two that are as near. That is one number and depends on the quotient alone, so a
rounding that is known to be near is known.

* `Nearest`: the whole number that a rational is rounded to;
* `Nearest.unique`: it is the only one;
* `roundDiv_nearest`: rounding a quotient finds it.
-/

namespace DiceNotation

/-- A whole number is no further from a rational than a half, and is even if it is as far. -/
def Nearest (x : ℚ) (n : ℕ) : Prop := |x - n| ≤ 1 / 2 ∧ (|x - n| = 1 / 2 → Even n)

theorem nearest_of_lt {x : ℚ} {n : ℕ} (h : |x - n| < 1 / 2) : Nearest x n :=
  ⟨h.le, fun heq => absurd heq h.ne⟩

/-- The same in terms of a unit: no further than half a unit. -/
theorem nearest_div {x p : ℚ} {n : ℕ} (hp : 0 < p) (hlower : (n - 1 / 2) * p ≤ x)
    (hupper : x ≤ (n + 1 / 2) * p) (hends : x = (n - 1 / 2) * p ∨ x = (n + 1 / 2) * p → Even n) :
    Nearest (x / p) n := by
  have hlower' : n - 1 / 2 ≤ x / p := (le_div_iff₀ hp).2 hlower
  have hupper' : x / p ≤ n + 1 / 2 := (div_le_iff₀ hp).2 hupper
  refine ⟨abs_le.2 ⟨by linarith, by linarith⟩, fun hhalf => hends ?_⟩
  rcases (abs_eq (by norm_num)).1 hhalf with h | h
  · exact .inr ((div_eq_iff hp.ne').1 (by linarith))
  · exact .inl ((div_eq_iff hp.ne').1 (by linarith))

/-- A nearest number is no further than half a unit. -/
theorem Nearest.abs_sub_le {x p : ℚ} {n : ℕ} (h : Nearest (x / p) n) (hp : 0 < p) :
    |n * p - x| ≤ p / 2 := by
  have hscaled : n * p - x = (n - x / p) * p := by rw [sub_mul, div_mul_cancel₀ _ hp.ne']
  rw [hscaled, abs_mul, abs_of_pos hp, abs_sub_comm]
  have hhalf := mul_le_mul_of_nonneg_right h.1 hp.le
  linarith

/-- Only one whole number is nearest. -/
theorem Nearest.unique {x : ℚ} {m n : ℕ} (hm : Nearest x m) (hn : Nearest x n) : m = n := by
  wlog hle : m ≤ n generalizing m n
  · exact (this hn hm (Nat.le_of_not_le hle)).symm
  by_contra hne
  have hsucc : ((m + 1 : ℕ) : ℚ) ≤ n := by exact_mod_cast Nat.lt_of_le_of_ne hle hne
  push_cast at hsucc
  have hright := (abs_le.1 hm.1).2
  have hleft := (abs_le.1 hn.1).1
  -- They are neighbours, and the rational lies halfway.
  have hhalf : x - m = 1 / 2 := by linarith
  have hhalf' : x - n = -(1 / 2) := by linarith
  have heven : Even m := hm.2 (by rw [hhalf]; norm_num)
  have heven' : Even n := hn.2 (by rw [hhalf']; norm_num)
  have hnext : n = m + 1 := by
    have : (n : ℚ) = (m + 1 : ℕ) := by
      push_cast
      linarith
    exact_mod_cast this
  rw [hnext, Nat.even_add_one] at heven'
  exact heven' heven

/-- A larger rational has no smaller nearest number. -/
theorem Nearest.mono {x y : ℚ} {m n : ℕ} (hm : Nearest x m) (hn : Nearest y n) (h : x ≤ y) :
    m ≤ n := by
  by_contra hlt
  have hsucc : ((n + 1 : ℕ) : ℚ) ≤ m := by exact_mod_cast Nat.not_le.1 hlt
  push_cast at hsucc
  have hleft := (abs_le.1 hm.1).1
  have hright := (abs_le.1 hn.1).2
  -- Only a rational halfway between the two could have both.
  have hsame : x = y := by linarith
  exact hlt (hm.unique (hsame ▸ hn)).le

/-- **Rounding a quotient** finds a nearest number. -/
theorem roundDiv_nearest (num : ℕ) {den : ℕ} (h : 0 < den) :
    Nearest (num / den) (roundDiv .even num den) := by
  have hpos : (0 : ℚ) < den := by exact_mod_cast h
  obtain ⟨t, ht⟩ : ∃ t : ℚ, t = (num % den : ℕ) / den := ⟨_, rfl⟩
  have hrest : t * den = (num % den : ℕ) := by rw [ht, div_mul_cancel₀ _ hpos.ne']
  have hsplit : (num : ℚ) / den = (num / den : ℕ) + t := by
    rw [div_eq_iff hpos.ne', add_mul, hrest]
    exact_mod_cast (Nat.div_add_mod' num den).symm
  have hnonneg : 0 ≤ t := by rw [ht]; positivity
  have hdouble : 2 * t * den = (2 * (num % den) : ℕ) := by
    push_cast
    rw [← hrest, mul_assoc]
  rw [hsplit]
  unfold roundDiv
  dsimp only
  split
  case isTrue hbelow =>
    -- The half is not reached.
    have hlt : 2 * t < 1 := by
      rw [← mul_lt_mul_iff_left₀ hpos, hdouble, one_mul]
      exact_mod_cast hbelow
    apply nearest_of_lt
    rw [add_sub_cancel_left, abs_of_nonneg hnonneg]
    linarith
  case isFalse hbelow =>
    split
    case isTrue habove =>
      have hgt : 1 < 2 * t := by
        rw [← mul_lt_mul_iff_left₀ hpos, hdouble, one_mul]
        exact_mod_cast habove
      have hlt : t < 1 := by
        rw [← mul_lt_mul_iff_left₀ hpos, hrest, one_mul]
        exact_mod_cast Nat.mod_lt num h
      apply nearest_of_lt
      rw [Nat.cast_add_one, add_sub_add_left_eq_sub, abs_of_neg (by linarith)]
      linarith
    case isFalse habove =>
      have hhalf : t = 1 / 2 := by
        have heq : 2 * t * den = 1 * den := by
          rw [hdouble, one_mul]
          exact_mod_cast Nat.le_antisymm (Nat.not_lt.1 habove) (Nat.not_lt.1 hbelow)
        linarith [mul_right_cancel₀ hpos.ne' heq]
      rw [hhalf]
      rcases Nat.even_or_odd (num / den) with heven | hodd
      · rw [Nat.even_iff.1 heven, Nat.add_zero]
        exact ⟨by rw [add_sub_cancel_left]; norm_num, fun _ => heven⟩
      · rw [Nat.odd_iff.1 hodd]
        refine ⟨?_, fun _ => hodd.add_one⟩
        rw [Nat.cast_add_one, add_sub_add_left_eq_sub]
        norm_num

end DiceNotation
