import TradingRules.Double.Basic
import TradingRules.Decimal.Power

/-!
# Orders of doubles

The numeric order leaves NaNs out and sees one zero. The total order has a place for each: the
negative NaNs, `-inf`, the numbers with `-0` before `0`, `inf`, the positive NaNs.
-/

namespace TradingRules.Double

open TradingRules.Decimal (twoTo)

/-- The place in the total order. -/
def totalRank (x : Double) : Int :=
  let word := x.bits.toNat
  if word < twoTo 63 then word else twoTo 63 - 1 - (word : Int)

/-- The larger of two numbers; a NaN gives way. -/
def larger (x y : Double) : Double := if x.isNaN then y else if x < y then y else x

/-- The smaller of two numbers; a NaN gives way. -/
def smaller (x y : Double) : Double := if x.isNaN then y else if y < x then y else x

end TradingRules.Double
