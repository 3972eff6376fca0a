import TradingRules.Double.Magnitude

/-!
# The remainder of doubles

`x - n · y` with `n` the quotient cut off toward zero. Both operands are multiples of one power of
two, so the remainder is one of natural numbers and exact.
-/

namespace TradingRules.Double

open TradingRules.Decimal (twoTo)

/-- The exact remainder of magnitudes; the divisor is not zero. -/
def Magnitude.remainder (a b : Magnitude) : Magnitude :=
  let exponent := min a.exponent b.exponent
  let units (c : Magnitude) : Nat := c.significand * twoTo (c.exponent - exponent).toNat
  let rest := units a % units b
  if rest = 0 then .zero else .nearest (rest * twoTo exponent.toNat) (twoTo (-exponent).toNat)

/-- The remainder has the sign of `x`. There is none of an infinity and none by zero. -/
def remainder (x y : Double) : Double :=
  if x.isNaN then x
  else if y.isNaN then y
  else match x.magnitude?, y.magnitude? with
    | some a, some b =>
      if b.significand = 0 then -notANumber else ofMagnitude x.isNegative (a.remainder b)
    | some _, none => x
    | none, _ => -notANumber

end TradingRules.Double
