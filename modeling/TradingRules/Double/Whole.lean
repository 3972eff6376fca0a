import TradingRules.Double.Magnitude

/-!
# Whole parts of doubles

The bits of a significand below its unit stand behind the point. Cutting them off leaves the whole part,
which is exact as a double and as an integer.
-/

namespace TradingRules.Double

open TradingRules.Decimal (twoTo)

namespace Magnitude

/-- The steps of the significand that make one; a single step if it is one or more. -/
def unit (m : Magnitude) : Nat := twoTo (-m.exponent).toNat

/-- The greatest natural number that is not above the magnitude. -/
def whole (m : Magnitude) : Nat := m.significand / m.unit * twoTo m.exponent.toNat

/-- The whole part as a magnitude. -/
def truncate (m : Magnitude) : Magnitude :=
  if m.significand < m.unit then .zero else ⟨m.significand - m.significand % m.unit, m.exponent⟩

end Magnitude

/-- The whole part as an integer: the nearest one if it does not fit, zero for a NaN. -/
def toInt64 (x : Double) : Int64 :=
  match x.magnitude? with
  | some m => .ofIntClamp (if x.isNegative then -m.whole else m.whole)
  | none => if x.isNaN then 0 else if x.isNegative then .minValue else .maxValue

/-- The whole part. -/
def truncate (x : Double) : Double :=
  match x.magnitude? with
  | some m => ofMagnitude x.isNegative m.truncate
  | none => x

/-- The part behind the point; a NaN for an infinity. -/
def fractional (x : Double) : Double := x - x.truncate

end TradingRules.Double
