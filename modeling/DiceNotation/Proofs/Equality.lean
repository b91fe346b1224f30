import DiceNotation.Proofs.Binary64.Order

/-!
# DiceNotation.Proofs.Equality

When numbers are equal.

* `Binary64.beq_iff`: doubles are equal if they have the same parts, where the two zeros count as
  one and what is not a number equals nothing;
* `Number.beq_iff`: numbers are equal if their doubles are, and if they are the same where both are
  integers;
* `Number.Conflated`: a double that two different integers are rounded to;
* `Number.beq_equivalence`: equality is an equivalence up to that.

Equal doubles are an equivalence of all that are numbers. What breaks that for numbers is the second
part of `Number.beq_iff` alone, which says nothing of the double between two integers.
-/

namespace DiceNotation

namespace Binary64

/-! ## Doubles -/

section

open Float.Model Float.Model.UnpackedFloat

theorem compare_sign_iff (s s' : Sign) : compare s s' = .eq ↔ s = s' := by
  cases s <;> cases s' <;> simp [compare]

/-- The two zeros made one. -/
def unsignedZero : UnpackedFloat → UnpackedFloat
  | .zero _ => .zero .positive
  | u => u

theorem unpacked_beq_iff {u v : UnpackedFloat} (hu : u ≠ .notANumber) :
    u.beq v = true ↔ unsignedZero u = unsignedZero v := by
  rw [UnpackedFloat.beq, beq_iff_eq]
  cases u with
  | notANumber => exact absurd rfl hu
  | infinity s =>
    cases v with
    | infinity s' => simp [UnpackedFloat.compare, unsignedZero, compare_sign_iff]
    | notANumber | zero _ | finite _ _ _ _ => cases s <;> simp [UnpackedFloat.compare, unsignedZero]
  | zero s =>
    cases v with
    | notANumber | zero _ => simp [UnpackedFloat.compare, unsignedZero]
    | infinity s' | finite s' _ _ _ => cases s' <;> simp [UnpackedFloat.compare, unsignedZero]
  | finite s m e hm =>
    cases v with
    | notANumber => simp [UnpackedFloat.compare, unsignedZero]
    | infinity s' => cases s' <;> simp [UnpackedFloat.compare, unsignedZero]
    | zero _ => cases s <;> simp [UnpackedFloat.compare, unsignedZero]
    | finite s' m' e' hm' =>
      cases s <;> cases s' <;>
        simp [UnpackedFloat.compare, unsignedZero, Ordering.then_eq_eq, and_comm]

theorem eq_or_zeros {u v : UnpackedFloat} (h : unsignedZero u = unsignedZero v) :
    u = v ∨ (∃ s, u = .zero s) ∧ ∃ s, v = .zero s := by
  cases u with
  | zero s =>
    cases v with
    | zero s' => exact .inr ⟨⟨s, rfl⟩, s', rfl⟩
    | notANumber | infinity _ | finite _ _ _ _ => cases h
  | notANumber | infinity _ | finite _ _ _ _ =>
    cases v with
    | zero s' => cases h
    | notANumber | infinity _ | finite _ _ _ _ => exact .inl h

/-- What counts of a double when it is compared with another. -/
def comparand (x : Float) : UnpackedFloat :=
  unsignedZero (UnpackedFloat.unpack Format.binary64 x.toBits.toBitVec)

/-- **Equal doubles.** -/
theorem beq_iff {x y : Float} (hx : x.isNaN = false) :
    (x == y) = true ↔ comparand x = comparand y := by
  have hnumber : UnpackedFloat.unpack Format.binary64 x.toBits.toBitVec ≠ .notANumber := by
    intro hnan
    have hisNaN : (UnpackedFloat.unpack Format.binary64 x.toBits.toBitVec).isNaN = false := hx
    rw [hnan] at hisNaN
    cases hisNaN
  exact unpacked_beq_iff hnumber

theorem magnitude_of_zero {x : Float} {s : Sign}
    (h : UnpackedFloat.unpack Format.binary64 x.toBits.toBitVec = .zero s) :
    (exact x).magnitude = 0 := by
  have hbits : x.toBits.toNat = s.toBitVec.toNat * signBit := by
    rw [← UInt64.toNat_toBitVec, ← pack_unpack_toBits, h]
    show (packComponents Format.binary64 s 0#11 0#52).toNat = _
    rw [toNat_packComponents, BitVec.toNat_zero, BitVec.toNat_zero, Nat.zero_mul, Nat.add_zero]
  have hparts : bitsOf (exact x).mantissa (exact x).exponent = 0 := by
    rw [bitsOf_exact, hbits, Nat.mul_mod_left]
  have hmantissa : (exact x).mantissa = 0 := by
    unfold bitsOf at hparts
    omega
  rw [ExactFloat.magnitude, hmantissa, Nat.cast_zero, zero_mul]

/-- Doubles that compare alike are the same, or both are zeros. -/
theorem eq_or_zero_of_comparand {x y : Float} (h : comparand x = comparand y) :
    x = y ∨ (exact x).magnitude = 0 ∧ (exact y).magnitude = 0 := by
  rcases eq_or_zeros h with hsame | ⟨⟨s, hx⟩, s', hy⟩
  · left
    have hbits := congrArg (UnpackedFloat.pack Format.binary64) hsame
    rw [pack_unpack_toBits, pack_unpack_toBits] at hbits
    rw [← Float.ofBits_toBits x, UInt64.toBitVec_inj.1 hbits, Float.ofBits_toBits]
  · exact .inr ⟨magnitude_of_zero hx, magnitude_of_zero hy⟩

end

/-! ## Integers as doubles -/

/-- **Integers that are rounded alike** are the same or have more than 53 bits. -/
theorem le_natAbs_of_comparand {k l : ℤ} (hne : k ≠ l) (hl : l.natAbs < 2 ^ 1023)
    (h : comparand (ofInt k) = comparand (ofInt l)) : 2 * fractions ≤ k.natAbs := by
  by_contra hsmall
  have hvalue := (value_ofInt (Nat.lt_of_not_le hsmall)).2
  have hsame : (exact (ofInt k)).value = (exact (ofInt l)).value := by
    rcases eq_or_zero_of_comparand h with heq | ⟨hk, hl⟩
    · rw [heq]
    · rw [← ExactFloat.abs_value, abs_eq_zero] at hk hl
      rw [hk, hl]
  rcases Nat.lt_or_ge l.natAbs (2 * fractions) with hlt | hlarge
  · rw [hvalue, (value_ofInt hlt).2] at hsame
    exact hne (by exact_mod_cast hsame)
  · have hmagnitude := le_magnitude_ofInt hlarge hl
    rw [← ExactFloat.abs_value, ← hsame, hvalue, ← Int.cast_abs, ← Nat.cast_natAbs] at hmagnitude
    exact hsmall (by exact_mod_cast hmagnitude)

end Binary64

namespace Number

open Binary64

/-! ## Numbers -/

/-- Whether a number is not one. -/
def isNaN : Number → Bool
  | .int _ => false
  | .float x => x.isNaN

/-- What counts of a number when it is compared as a double. -/
def comparand (a : Number) : Float.Model.UnpackedFloat := Binary64.comparand a.toFloat

theorem natAbs_toInt_lt (n : Int64) : n.toInt.natAbs < 2 ^ 1023 := by
  have hle := n.le_toInt
  have hlt := n.toInt_lt
  have hword : n.toInt.natAbs < 2 ^ 64 := by omega
  exact hword.trans_le (by gcongr <;> norm_num)

theorem isNaN_toFloat {a : Number} (h : a.isNaN = false) : a.toFloat.isNaN = false := by
  cases a with
  | int n => exact isNaN_of_isFinite (isFinite_ofInt (natAbs_toInt_lt n))
  | float x => exact h

variable {a b c : Number}

/-- **Equal numbers.** -/
theorem beq_iff (ha : a.isNaN = false) :
    (a == b) = true ↔ a.comparand = b.comparand ∧ ∀ m n, a = .int m → b = .int n → m = n := by
  have hdoubles : (a.toFloat == b.toFloat) = true ↔ a.comparand = b.comparand :=
    Binary64.beq_iff (isNaN_toFloat ha)
  cases a with
  | float x => exact hdoubles.trans (and_iff_left (by rintro _ _ ⟨⟩)).symm
  | int m =>
    cases b with
    | float y => exact hdoubles.trans (and_iff_left (by rintro _ _ _ ⟨⟩)).symm
    | int n =>
      have hexact : (int m == int n) = true ↔ m = n := by
        show (m == n) = true ↔ m = n
        exact beq_iff_eq
      rw [hexact]
      constructor
      · rintro rfl
        exact ⟨rfl, fun _ _ h h' => int.inj (h.symm.trans h')⟩
      · exact fun h => h.2 m n rfl rfl

/-- A double between two different integers that are rounded to it. -/
def Conflated (a b c : Number) : Prop :=
  ∃ m n : Int64, a = .int m ∧ c = .int n ∧ m ≠ n ∧
    b = .float (ofInt m.toInt) ∧ b = .float (ofInt n.toInt) ∧
    2 ^ 53 ≤ m.toInt.natAbs ∧ 2 ^ 53 ≤ n.toInt.natAbs

/-- A double that equals a large integer is the one that it is rounded to. -/
theorem eq_ofInt_of_comparand {n : Int64} {x : Float} (hlarge : 2 * fractions ≤ n.toInt.natAbs)
    (h : (int n).comparand = (float x).comparand) : x = ofInt n.toInt := by
  rcases eq_or_zero_of_comparand h with heq | ⟨hzero, -⟩
  · exact heq.symm
  · have hpos := le_magnitude_ofInt hlarge (natAbs_toInt_lt n)
    have hmagnitude : (exact (ofInt n.toInt)).magnitude = 0 := hzero
    rw [hmagnitude] at hpos
    norm_num [fractions] at hpos

/-- What is between two different integers and equals both is a double that they are rounded to. -/
theorem conflated_of_beq {m n : Int64} (hb : b.isNaN = false) (hne : m ≠ n)
    (hm : (.int m == b) = true) (hn : (b == .int n) = true) : Conflated (.int m) b (.int n) := by
  rw [beq_iff rfl] at hm
  rw [beq_iff hb] at hn
  cases b with
  | int k => exact absurd ((hm.2 m k rfl rfl).trans (hn.2 k n rfl rfl)) hne
  | float x =>
    have hints : m.toInt ≠ n.toInt := fun h => hne (Int64.toInt_inj.1 h)
    have hsame : Binary64.comparand (ofInt m.toInt) = Binary64.comparand (ofInt n.toInt) :=
      hm.1.trans hn.1
    have hlargem := le_natAbs_of_comparand hints (natAbs_toInt_lt n) hsame
    have hlargen := le_natAbs_of_comparand hints.symm (natAbs_toInt_lt m) hsame.symm
    exact ⟨m, n, rfl, rfl, hne, congrArg float (eq_ofInt_of_comparand hlargem hm.1),
      congrArg float (eq_ofInt_of_comparand hlargen hn.1.symm), hlargem, hlargen⟩

/-- **Equality is an equivalence of numbers up to rounding.** It is reflexive and symmetric. It
passes from a number over a second one to a third exactly if these are not two different integers
and a double that both are rounded to; such integers have more than 53 bits. -/
theorem beq_equivalence (ha : a.isNaN = false) (hb : b.isNaN = false) :
    (a == a) = true ∧ ((a == b) = true → (b == a) = true) ∧
      ((a == b) = true → (b == c) = true → ((a == c) = true ↔ ¬ Conflated a b c)) := by
  refine ⟨?_, fun hab => ?_, fun hab hbc => ⟨fun hac => ?_, fun hfree => ?_⟩⟩
  · exact (beq_iff ha).2 ⟨rfl, fun m n hm hn => int.inj (hm.symm.trans hn)⟩
  · obtain ⟨hsame, hints⟩ := (beq_iff ha).1 hab
    exact (beq_iff hb).2 ⟨hsame.symm, fun m n hm hn => (hints n m hn hm).symm⟩
  · rintro ⟨m, n, hm, hn, hne, -⟩
    exact hne (((beq_iff ha).1 hac).2 m n hm hn)
  · refine (beq_iff ha).2 ⟨((beq_iff ha).1 hab).1.trans ((beq_iff hb).1 hbc).1, fun m n hm hn => ?_⟩
    subst hm hn
    by_contra hne
    exact hfree (conflated_of_beq hb hne hab hbc)

/-- An integer that is no double, between two doubles. -/
theorem beq_equivalence_large :
    let x := Number.float (ofInt 9007199254740992)
    let n := Number.int 9007199254740993
    x.isNaN = false ∧ n.isNaN = false ∧ (x == n) = true ∧ (n == x) = true ∧ (x == x) = true := by
  intro x n
  have hx : x.isNaN = false := by decide +kernel
  have hxn : (x == n) = true := by decide +kernel
  obtain ⟨-, hsymm, htrans⟩ := beq_equivalence (b := n) (c := x) hx rfl
  have hfree : ¬ Conflated x n x := by
    rintro ⟨_, _, hint, -⟩
    simp [x] at hint
  exact ⟨hx, rfl, hxn, hsymm hxn, (htrans hxn (hsymm hxn)).2 hfree⟩

/-- Two integers equal the double that they are rounded to, and do not equal each other. -/
theorem beq_not_transitive :
    let a := Number.int 9007199254740992
    let b := Number.float (ofInt 9007199254740992)
    let c := Number.int 9007199254740993
    a.isNaN = false ∧ b.isNaN = false ∧ c.isNaN = false ∧
      (a == b) = true ∧ (b == c) = true ∧ (a == c) = false := by
  decide +kernel

end Number

end DiceNotation
