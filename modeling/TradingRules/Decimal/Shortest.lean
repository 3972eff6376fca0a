import TradingRules.Double.Magnitude

/-!
# The shortest decimal that reads back

The reals that round to a double form an interval around it, with its ends iff the significand is
even. The digits written are those of a decimal in that interval with the fewest digits and, among
those, nearest to the double. A double exactly halfway between two of them is a tie, which each
layout settles in its own way.
-/

namespace TradingRules.Decimal

open TradingRules.Double (Magnitude)

/-- `digits · 10 ^ exponent`. -/
structure Scaled where
  digits : Nat
  exponent : Int
  deriving DecidableEq, Repr

/-- Where a tie between two decimals goes. -/
inductive Tie where
  | up
  | even
  deriving DecidableEq, Repr

/-- The same number without trailing zeros; `fuel` bounds how many are dropped. -/
def Scaled.dropZeros : Nat → Scaled → Scaled
  | 0, s => s
  | fuel + 1, s =>
    if s.digits ≠ 0 ∧ s.digits % 10 = 0 then dropZeros fuel ⟨s.digits / 10, s.exponent + 1⟩ else s

/-- The interval of reals that round to a double, as multiples of `2 ^ exponent`. -/
structure Interval where
  low : Nat
  value : Nat
  high : Nat
  closed : Bool
  exponent : Int

/-- The gap below a power of two is half the gap above, except at the least exponent. -/
def Interval.around (m : Magnitude) : Interval :=
  let narrow := m.significand == twoTo 52 && decide (Magnitude.leastExponent < m.exponent)
  { low := 4 * m.significand - if narrow then 1 else 2
    value := 4 * m.significand
    high := 4 * m.significand + 2
    closed := m.significand % 2 == 0
    exponent := m.exponent - 2 }

/-- Units of the interval per `den` and of the grid `10 ^ k` per `num`: `value · num / den` is the
double in grid steps. -/
def gridRatio (i : Interval) (k : Int) : Nat × Nat :=
  (twoTo i.exponent.toNat * tenTo (-k).toNat, twoTo (-i.exponent).toNat * tenTo k.toNat)

def Interval.holds (i : Interval) (num den candidate : Nat) : Bool :=
  if i.closed then i.low * num ≤ candidate * den && candidate * den ≤ i.high * num
  else i.low * num < candidate * den && candidate * den < i.high * num

/-- The better neighbour of the double on the grid `10 ^ k`, if one is in the interval. -/
def Interval.onGrid? (tie : Tie) (i : Interval) (k : Int) : Option Scaled :=
  let (num, den) := gridRatio i k
  let below := i.value * num / den
  let above := below + 1
  let belowHolds := 0 < below && i.holds num den below
  let aboveHolds := i.holds num den above
  let toAbove := above * den - i.value * num
  let toBelow := i.value * num - below * den
  let aboveNearer := toAbove < toBelow || (toAbove == toBelow && (tie == .up || below % 2 == 1))
  if belowHolds && !(aboveHolds && aboveNearer) then some ⟨below, k⟩
  else if aboveHolds then some ⟨above, k⟩
  else none

/-- The power of ten of the leading digit. -/
def Interval.leading (i : Interval) : Int :=
  let estimate : Int := ((i.value.log2 : Int) + i.exponent) * 30103 / 100000
  let (num, den) := gridRatio i (estimate + 1)
  if den ≤ i.value * num then estimate + 1 else estimate

/-- Tries ever finer grids. -/
def Interval.search (tie : Tie) (i : Interval) (leading : Int) : Nat → Nat → Scaled
  | 0, _ => ⟨0, 0⟩
  | fuel + 1, places =>
    match i.onGrid? tie (leading - places) with
    | some s => s
    | none => i.search tie leading fuel (places + 1)

/-- Seventeen digits always suffice. -/
def shortest (tie : Tie) (m : Magnitude) : Scaled :=
  if m.significand = 0 then ⟨0, 0⟩
  else
    let i := Interval.around m
    (i.search tie i.leading 18 0).dropZeros 20

end TradingRules.Decimal
