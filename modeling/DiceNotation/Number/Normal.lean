import DiceNotation.Number

/-!
# DiceNotation.Number.Normal

The normal form in which results are reported: three decimal places at most, and no fraction where
there is none.

* `roundThousandths`: the thousandth nearest to the exact value of a double, read back as a double;
* `Number.normalize`: the normal form of a number.

The rounding looks at the exact value. The double written `1.2345` lies just
below the half and becomes `1.234`; only a value with an exact half in binary,
such as `0.0625`, is a tie, and goes to the even thousandth.
-/

namespace DiceNotation

/-- The double nearest to the thousandth nearest to a finite double; exact halves go to the even
thousandth. The sign is kept, also that of a value that rounds to zero. -/
def roundThousandths (x : Float) : Float :=
  let e := Binary64.exact x
  Binary64.ofRatio e.negative (roundDiv .even (e.num * 1000) e.den) 1000

namespace Number

/-- A double without a fraction as an integer, if it lies strictly between the powers `-2 ^ 63` and
`2 ^ 63`; any other double stays one. -/
def ofFloat (x : Float) : Number :=
  let n := Binary64.truncate x
  if x.isFinite && Binary64.isWhole x && n.natAbs < Binary64.signBit then
    .int (Int64.ofInt n)
  else .float x

/-- The normal form of a number: integers are normal, a double with a fraction is rounded to
thousandths, and a double without one is an integer if it is in range. -/
def normalize : Number → Number
  | .int n => .int n
  | .float x => ofFloat (if x.isFinite && !Binary64.isWhole x then roundThousandths x else x)

@[simp] theorem normalize_int (n : Int64) : normalize (.int n) = .int n := rfl

end Number

end DiceNotation
