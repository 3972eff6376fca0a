import TradingRules.Double.Basic
import TradingRules.Decimal.Power

/-!
# Doubles as exact fractions

A finite double is `± significand · 2 ^ exponent`. Reading a decimal, writing the shortest digits and
taking a remainder all work on this form in exact arithmetic, so none of them depends on how a
machine rounds on the way.
-/

namespace TradingRules.Double

open TradingRules.Decimal (twoTo)

/-- The magnitude of a finite double. The significand is below `2 ^ 53`, and below `2 ^ 52` only with
the least exponent. -/
structure Magnitude where
  significand : Nat
  exponent : Int
  deriving DecidableEq, Repr

namespace Magnitude

def fractionModulus : Nat := twoTo 52

def leastExponent : Int := -1074

def greatestExponent : Int := 971

def zero : Magnitude := ⟨0, leastExponent⟩

/-- The 63 bits below the sign; a magnitude past the greatest double becomes infinity. -/
def toWord (m : Magnitude) : Nat :=
  if greatestExponent < m.exponent then 2047 * fractionModulus
  else if m.significand < fractionModulus then m.significand
  else (m.exponent + 1075).toNat * fractionModulus + (m.significand - fractionModulus)

/-- A quotient to the nearest natural number, a half to the even neighbour. -/
def roundQuotient (num den : Nat) : Nat :=
  let quotient := num / den
  let rest := num % den
  if den < 2 * rest || (2 * rest == den && quotient % 2 == 1) then quotient + 1 else quotient

/-- `num / den · 2 ^ -shift` as a fraction of natural numbers. -/
def shifted (num den : Nat) (shift : Int) : Nat × Nat :=
  if 0 ≤ shift then (num, den * twoTo shift.toNat) else (num * twoTo (-shift).toNat, den)

/-- The double nearest to a positive fraction, a tie to the even significand. -/
def nearest (num den : Nat) : Magnitude :=
  let estimate : Int := (num.log2 : Int) - den.log2 - 53
  let scaled := shifted num den estimate
  let exponent :=
    if scaled.1 / scaled.2 < twoTo 53 then estimate
    else if scaled.1 / scaled.2 < twoTo 54 then estimate + 1 else estimate + 2
  let exponent := max exponent leastExponent
  let scaled := shifted num den exponent
  let significand := roundQuotient scaled.1 scaled.2
  if significand = twoTo 53 then ⟨twoTo 52, exponent + 1⟩ else ⟨significand, exponent⟩

end Magnitude

/-- The magnitude, `none` for an infinity or a NaN. -/
def magnitude? (x : Double) : Option Magnitude :=
  let word := x.bits.toNat
  let fraction := word % Magnitude.fractionModulus
  let biased := word / Magnitude.fractionModulus % 2048
  if biased = 2047 then none
  else if biased = 0 then some ⟨fraction, Magnitude.leastExponent⟩
  else some ⟨Magnitude.fractionModulus + fraction, (biased : Int) - 1075⟩

def ofMagnitude (negative : Bool) (m : Magnitude) : Double :=
  ⟨UInt64.ofNat (m.toWord + if negative then twoTo 63 else 0)⟩

/-- The double nearest to a machine integer. -/
def ofInt64 (i : Int64) : Double :=
  ofMagnitude (decide (i < 0)) (Magnitude.nearest i.toInt.natAbs 1)

end TradingRules.Double
