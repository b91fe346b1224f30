import DiceNotation.Proofs.Binary64

/-!
# DiceNotation.Proofs.Binary64.Parts

The parts of a double: its sign, its mantissa and its exponent.

* `Canonical`, `bitsOf`: the parts of a finite double, and its bits from its parts;
* `parts_ofBits`, `exact_ofBits`, `ofBits_parts`: a double is made of its parts,
  and has the parts that it is made of;
* `exact_neg`: the negative of a double has the other sign.

The bits of the doubles are in the order of their values, so the mantissa that rounds up to a power
of two carries into the exponent and needs no case of its own (`bitsOf_carry`).
-/

namespace DiceNotation

namespace ExactFloat

/-- The absolute value of a double. -/
def magnitude (x : ExactFloat) : ℚ := x.mantissa * 2 ^ x.exponent

theorem den_pos (x : ExactFloat) : 0 < x.den := Nat.two_pow_pos _

/-- A double is known by its parts. -/
theorem eq_mk {x : ExactFloat} {negative : Bool} {m : ℕ} {q : ℤ} (hsign : x.negative = negative)
    (hparts : x.mantissa = m ∧ x.exponent = q) : x = ⟨negative, m, q⟩ := by
  obtain ⟨hmantissa, hexponent⟩ := hparts
  rw [← hsign, ← hmantissa, ← hexponent]

theorem num_eq (x : ExactFloat) : (x.num : ℚ) = x.magnitude * x.den := by
  rw [num, magnitude, den, Nat.cast_mul, mul_assoc, Binary64.two_zpow_mul]

end ExactFloat

namespace Binary64

/-! ## Parts and bits -/

/-- The parts of finite doubles: a mantissa has its leading bit unless the exponent is least. -/
structure Canonical (m : ℕ) (q : ℤ) : Prop where
  lt : m < 2 * fractions
  le : leastUnit ≤ q
  leading : q = leastUnit ∨ fractions ≤ m

/-- The bits of a double from its parts, without the sign. -/
def bitsOf (m : ℕ) (q : ℤ) : ℕ := (q - leastUnit).toNat * fractions + m

/-- A mantissa that is a power of two too large carries. -/
theorem bitsOf_carry {q : ℤ} (h : leastUnit ≤ q) :
    bitsOf (2 * fractions) q = bitsOf fractions (q + 1) := by
  have hnext : (q + 1 - leastUnit).toNat = (q - leastUnit).toNat + 1 := by omega
  simp only [bitsOf, hnext]
  ring

/-- Bits have one pair of parts. -/
theorem Canonical.eq_of_bitsOf {m m' : ℕ} {q q' : ℤ} (h : Canonical m q) (h' : Canonical m' q')
    (hbits : bitsOf m q = bitsOf m' q') : m = m' ∧ q = q' := by
  obtain ⟨hlt, hle, hleading⟩ := h
  obtain ⟨hlt', hle', hleading'⟩ := h'
  simp only [bitsOf, fractions, leastUnit] at *
  omega

theorem canonical_exact (x : Float) : Canonical (exact x).mantissa (exact x).exponent := by
  have hfraction := Nat.mod_lt x.toBits.toNat (show 0 < fractions by decide)
  unfold exact
  dsimp only
  split
  · exact ⟨by show _ % _ < _; omega, Int.le_refl _, .inl rfl⟩
  · exact ⟨by show _ + _ % _ < _; omega, Int.le_add_of_nonneg_right (Int.natCast_nonneg _),
      .inr (Nat.le_add_right _ _)⟩

theorem bitsOf_exact (x : Float) :
    bitsOf (exact x).mantissa (exact x).exponent = x.toBits.toNat % signBit := by
  unfold exact
  dsimp only
  generalize x.toBits.toNat = bits
  split <;> simp only [bitsOf, fractions, exponents, signBit, leastUnit] at * <;> omega

theorem negative_exact (x : Float) : (exact x).negative = decide (signBit ≤ x.toBits.toNat) := by
  unfold exact
  dsimp only
  split <;> rfl

/-- **The bits of a double** are those of its parts. -/
theorem toBits_eq (x : Float) :
    x.toBits.toNat =
      bitsOf (exact x).mantissa (exact x).exponent + if (exact x).negative then signBit else 0 := by
  have hlt : x.toBits.toNat < 2 ^ 64 := x.toBits.toNat_lt
  rw [bitsOf_exact, negative_exact]
  by_cases hsign : signBit ≤ x.toBits.toNat
  · rw [decide_eq_true hsign, if_pos rfl]
    simp only [signBit] at *
    omega
  · rw [decide_eq_false hsign, if_neg Bool.false_ne_true]
    exact (Nat.mod_eq_of_lt (Nat.not_le.1 hsign)).symm

/-- The finite doubles come before infinity. -/
theorem isFinite_iff_bitsOf (x : Float) :
    x.isFinite = true ↔ bitsOf (exact x).mantissa (exact x).exponent < infinityBits := by
  have hlt := x.toBits.toNat_lt
  rw [isFinite_iff, bitsOf_exact]
  simp only [fractions, exponents, signBit, infinityBits, specialExponent] at *
  omega

theorem toNat_ofNat_bits {bits : ℕ} (h : bits < infinityBits) (negative : Bool) :
    (UInt64.ofNat (bits + if negative then signBit else 0)).toNat =
      bits + if negative then signBit else 0 := by
  rw [UInt64.toNat_ofNat']
  apply Nat.mod_eq_of_lt
  simp only [infinityBits, signBit] at *
  split <;> omega

/-- A double is made of its parts. -/
theorem ofBits_parts (x : Float) :
    Float.ofBits (UInt64.ofNat (bitsOf (exact x).mantissa (exact x).exponent +
      if (exact x).negative then signBit else 0)) = x := by
  rw [← toBits_eq, UInt64.ofNat_toNat, Float.ofBits_toBits]

/-- The sign and the other bits of a double that is made of them. -/
theorem parts_ofBits {bits : ℕ} (h : bits < infinityBits) (negative : Bool) :
    let x := Float.ofBits (UInt64.ofNat (bits + if negative then signBit else 0))
    (exact x).negative = negative ∧ bitsOf (exact x).mantissa (exact x).exponent = bits := by
  intro x
  have hnat := toNat_ofNat_bits h negative
  have hbits : x.toBits = UInt64.ofNat (bits + if negative then signBit else 0) := by
    apply toBits_ofBits
    rw [hnat]
    simp only [fractions, exponents, signBit, infinityBits, specialExponent] at *
    split <;> omega
  have hbelow : bits < signBit := Nat.lt_trans h (by decide)
  rw [negative_exact, bitsOf_exact, hbits, hnat]
  cases negative with
  | false =>
    rw [if_neg Bool.false_ne_true, Nat.add_zero]
    exact ⟨decide_eq_false (Nat.not_le_of_lt hbelow), Nat.mod_eq_of_lt hbelow⟩
  | true =>
    rw [if_pos rfl, Nat.add_mod_right]
    exact ⟨decide_eq_true (Nat.le_add_left signBit bits), Nat.mod_eq_of_lt hbelow⟩

/-- The parts of a double that is made of parts. -/
theorem exact_ofBits {m : ℕ} {q : ℤ} (h : Canonical m q) (hfinite : bitsOf m q < infinityBits)
    (negative : Bool) :
    exact (Float.ofBits (UInt64.ofNat (bitsOf m q + if negative then signBit else 0))) =
      ⟨negative, m, q⟩ := by
  obtain ⟨hsign, hbits⟩ := parts_ofBits hfinite negative
  exact ExactFloat.eq_mk hsign ((canonical_exact _).eq_of_bitsOf h hbits)

/-- Doubles with the same parts are the same. -/
theorem eq_of_exact {x y : Float} (h : exact x = exact y) : x = y := by
  rw [← ofBits_parts x, h, ofBits_parts]

/-! ## The negative -/

section

open Float.Model Float.Model.UnpackedFloat

/-- What is finite is a number. -/
theorem unpack_ne_notANumber {x : Float} (h : x.isFinite = true) :
    UnpackedFloat.unpack Format.binary64 x.toBits.toBitVec ≠ .notANumber := by
  intro hnan
  have hfinite : (UnpackedFloat.unpack Format.binary64 x.toBits.toBitVec).isFinite = true := h
  rw [hnan] at hfinite
  cases hfinite

theorem isNaN_of_isFinite {x : Float} (h : x.isFinite = true) : x.isNaN = false := by
  have hnumber := unpack_ne_notANumber h
  show (UnpackedFloat.unpack Format.binary64 x.toBits.toBitVec).isNaN = false
  cases hunpacked : UnpackedFloat.unpack Format.binary64 x.toBits.toBitVec with
  | notANumber => exact absurd hunpacked hnumber
  | infinity _ | zero _ | finite _ _ _ _ => rfl

/-- A double is the one that its unpacked form is packed into. -/
theorem pack_unpack_toBits (x : Float) :
    (UnpackedFloat.unpack Format.binary64 x.toBits.toBitVec).pack Format.binary64 =
      x.toBits.toBitVec := by
  have hround := congrArg Float.toBits (Float.ofBits_toBits x)
  exact congrArg UInt64.toBitVec hround

/-- A number is packed in three parts, and its negative in the same with the other sign. -/
theorem pack_neg {x : UnpackedFloat} (h : x ≠ .notANumber) :
    ∃ sign exponent mantissa,
      UnpackedFloat.pack Format.binary64 x =
        packComponents Format.binary64 sign exponent mantissa ∧
      UnpackedFloat.pack Format.binary64 x.neg =
        packComponents Format.binary64 (-sign) exponent mantissa := by
  cases x with
  | notANumber => exact absurd rfl h
  | infinity sign | zero sign => exact ⟨sign, _, _, rfl, rfl⟩
  | finite sign m e hm =>
    unfold UnpackedFloat.pack UnpackedFloat.neg
    dsimp only
    split
    · exact ⟨sign, _, _, rfl, rfl⟩
    · split <;> exact ⟨sign, _, _, rfl, rfl⟩

theorem toNat_packComponents (sign : Sign) (exponent : BitVec 11) (mantissa : BitVec 52) :
    (packComponents Format.binary64 sign exponent mantissa).toNat =
      sign.toBitVec.toNat * signBit + (exponent.toNat * fractions + mantissa.toNat) := by
  have happend : ∀ {n k : ℕ} (x : BitVec n) (y : BitVec k),
      (x ++ y).toNat = x.toNat * 2 ^ k + y.toNat := by
    intro n k x y
    rw [BitVec.toNat_append, ← Nat.shiftLeft_add_eq_or_of_lt y.isLt, Nat.shiftLeft_eq]
  show (sign.toBitVec ++ exponent ++ mantissa).toNat = _
  rw [happend, happend]
  simp only [signBit, fractions]
  ring

/-- **The negative of a double** has the other sign and the same magnitude. -/
theorem exact_neg {x : Float} (h : x.isFinite = true) :
    exact (-x) = ⟨!(exact x).negative, (exact x).mantissa, (exact x).exponent⟩ := by
  obtain ⟨sign, exponent, mantissa, hx, hneg⟩ := pack_neg (unpack_ne_notANumber h)
  have hbits : x.toBits.toNat =
      sign.toBitVec.toNat * signBit + (exponent.toNat * fractions + mantissa.toNat) := by
    rw [← toNat_packComponents, ← hx, pack_unpack_toBits, UInt64.toNat_toBitVec]
  have hbits' : (-x).toBits.toNat =
      (-sign).toBitVec.toNat * signBit + (exponent.toNat * fractions + mantissa.toNat) := by
    rw [← toNat_packComponents, ← hneg]
    rfl
  have hrest : exponent.toNat * fractions + mantissa.toNat < signBit := by
    have hexponent : exponent.toNat < 2 ^ 11 := exponent.isLt
    have hmantissa : mantissa.toNat < 2 ^ 52 := mantissa.isLt
    simp only [fractions, signBit]
    omega
  apply ExactFloat.eq_mk
  · rw [negative_exact, negative_exact, hbits, hbits']
    generalize exponent.toNat * fractions + mantissa.toNat = rest at hrest
    cases sign with
    | negative =>
      show decide (signBit ≤ 0 * signBit + rest) = !decide (signBit ≤ 1 * signBit + rest)
      rw [Nat.zero_mul, Nat.zero_add, Nat.one_mul, decide_eq_false (Nat.not_le_of_lt hrest),
        decide_eq_true (Nat.le_add_right _ _)]
      rfl
    | positive =>
      show decide (signBit ≤ 1 * signBit + rest) = !decide (signBit ≤ 0 * signBit + rest)
      rw [Nat.zero_mul, Nat.zero_add, Nat.one_mul, decide_eq_false (Nat.not_le_of_lt hrest),
        decide_eq_true (Nat.le_add_right _ _)]
      rfl
  · apply (canonical_exact _).eq_of_bitsOf (canonical_exact _)
    rw [bitsOf_exact, bitsOf_exact, hbits, hbits', Nat.mul_add_mod_self_right,
      Nat.mul_add_mod_self_right]

end

end Binary64

end DiceNotation
