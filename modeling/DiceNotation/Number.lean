import DiceNotation.Binary64

/-!
# DiceNotation.Number

The values of an expression. A number is a 64-bit integer as long as it can be
one and a double after that:

* `+`, `-`, `*` and negation of integers are exact, and are done again in doubles when the exact
  result does not fit (`Number.exactOr`);
* a power of integers is exact when the exponent is a 32-bit natural number and the result fits;
* division is always in doubles;
* an operation with a double in it is done in doubles.

An integer and a double may be equal, and both compare with `==` as doubles then.
-/

namespace DiceNotation

/-- A value of an expression. -/
inductive Number where
  | int (value : Int64)
  | float (value : Float)
  deriving DecidableEq

namespace Number

/-! ## Integers that fit a word -/

/-- The least 64-bit integer. -/
def least : Int := -9223372036854775808

/-- The greatest 64-bit integer. -/
def greatest : Int := 9223372036854775807

/-- Whether an integer is a 64-bit integer. -/
abbrev Fits (n : Int) : Prop := least ≤ n ∧ n ≤ greatest

/-- The 64-bit integer nearest to `n`. -/
def saturate (n : Int) : Int64 := Int64.ofInt (max least (min greatest n))

/-- An exact result as an integer if it fits, and otherwise the double given for it. -/
def exactOr (n : Int) (rounded : Float) : Number :=
  if Fits n then .int (Int64.ofInt n) else .float rounded

/-- The number zero. -/
def zero : Number := .int 0

instance : Inhabited Number := ⟨zero⟩

instance : Coe Int64 Number := ⟨.int⟩

/-! ## Views -/

/-- The double nearest to a number. -/
def toFloat : Number → Float
  | .int n => Binary64.ofInt n.toInt
  | .float x => x

/-- The number cut off to an integer, at the nearest end of the 64-bit range if it is outside.
Infinite values and values that are not numbers have no integer. -/
def truncate? : Number → Option Int64
  | .int n => some n
  | .float x => if x.isFinite then some (saturate (Binary64.truncate x)) else none

/-- Whether the nearest double is a zero of either sign. -/
def isZero (x : Number) : Bool := x.toFloat == 0.0

/-- Whether the number is neither infinite nor not a number. -/
def isFinite : Number → Bool
  | .int _ => true
  | .float x => x.isFinite

/-- Two integers are compared exactly, anything else as doubles. -/
protected def beq : Number → Number → Bool
  | .int m, .int n => m == n
  | x, y => x.toFloat == y.toFloat

instance : BEq Number := ⟨Number.beq⟩

/-! ## Arithmetic -/

/-- The sum, exact if it fits. -/
protected def add : Number → Number → Number
  | .int m, .int n => exactOr (m.toInt + n.toInt) (Binary64.ofInt m.toInt + Binary64.ofInt n.toInt)
  | x, y => .float (x.toFloat + y.toFloat)

/-- The difference, exact if it fits. -/
protected def sub : Number → Number → Number
  | .int m, .int n => exactOr (m.toInt - n.toInt) (Binary64.ofInt m.toInt - Binary64.ofInt n.toInt)
  | x, y => .float (x.toFloat - y.toFloat)

/-- The product, exact if it fits. -/
protected def mul : Number → Number → Number
  | .int m, .int n => exactOr (m.toInt * n.toInt) (Binary64.ofInt m.toInt * Binary64.ofInt n.toInt)
  | x, y => .float (x.toFloat * y.toFloat)

/-- The quotient, always a double. -/
protected def div (x y : Number) : Number := .float (x.toFloat / y.toFloat)

/-- The negative, exact if it fits. -/
protected def neg : Number → Number
  | .int n => exactOr (-n.toInt) (-Binary64.ofInt n.toInt)
  | .float x => .float (-x)

instance : Add Number := ⟨Number.add⟩
instance : Sub Number := ⟨Number.sub⟩
instance : Mul Number := ⟨Number.mul⟩
instance : Div Number := ⟨Number.div⟩
instance : Neg Number := ⟨Number.neg⟩

/-- A power of an integer that may fit 64 bits. The powers of `0`, `1` and `-1` repeat with the
parity of the exponent, and no other base has one that fits from the exponent 64 on. -/
def intPow? (base : Int) (exponent : Nat) : Option Int :=
  if exponent < 64 then some (Int.pow base exponent)
  else if base.natAbs ≤ 1 then some (Int.pow base (2 + exponent % 2))
  else none

/-- The exact power of two integers, when the exponent is a 32-bit natural number and the power
fits. -/
def exactPow? (base exponent : Int64) : Option Int64 :=
  if 0 ≤ exponent.toInt ∧ exponent.toInt < UInt32.size then
    (intPow? base.toInt exponent.toInt.toNat).bind fun power =>
      if Fits power then some (Int64.ofInt power) else none
  else none

/-- The power of two doubles. -/
def floatPow (x y : Number) : Number := .float (x.toFloat.pow y.toFloat)

/-- The power, exact for integers where `exactPow?` is. -/
protected def pow : Number → Number → Number
  | .int m, .int n => ((exactPow? m n).map Number.int).getD (floatPow (.int m) (.int n))
  | x, y => floatPow x y

instance : Pow Number Number := ⟨Number.pow⟩

/-- The sum of a list, added from its front to zero. -/
def sum (xs : List Number) : Number := xs.foldl (· + ·) zero

/-! ## Equations -/

@[simp] theorem int_add_int (m n : Int64) : (int m + int n : Number) =
    exactOr (m.toInt + n.toInt) (Binary64.ofInt m.toInt + Binary64.ofInt n.toInt) := rfl

@[simp] theorem int_sub_int (m n : Int64) : (int m - int n : Number) =
    exactOr (m.toInt - n.toInt) (Binary64.ofInt m.toInt - Binary64.ofInt n.toInt) := rfl

@[simp] theorem int_mul_int (m n : Int64) : (int m * int n : Number) =
    exactOr (m.toInt * n.toInt) (Binary64.ofInt m.toInt * Binary64.ofInt n.toInt) := rfl

@[simp] theorem neg_int (n : Int64) :
    (-(int n) : Number) = exactOr (-n.toInt) (-Binary64.ofInt n.toInt) := rfl

@[simp] theorem isFinite_int (n : Int64) : (int n).isFinite = true := rfl

@[simp] theorem isFinite_zero : zero.isFinite = true := rfl

theorem toInt_of_fits {n : Int} (h : Fits n) : (Int64.ofInt n).toInt = n :=
  Int64.toInt_ofInt_of_le h.1 (Int.lt_of_le_of_lt h.2 (by decide))

/-- An exact result that fits is kept exactly. -/
theorem exactOr_of_fits {n : Int} (h : Fits n) (rounded : Float) :
    exactOr n rounded = .int (Int64.ofInt n) := if_pos h

end Number

end DiceNotation
