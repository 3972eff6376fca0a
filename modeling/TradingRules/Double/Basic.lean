/-!
# Doubles

A number is the 64 bits of a binary64: a sign, an exponent and a fraction. A NaN has a sign too, and
operations keep it: sorting puts the negative NaNs first and the positive ones last. An operation on
a NaN gives that NaN, the left one of two; an operation that has no result gives the negative NaN.
-/

namespace TradingRules

/-- A binary64 number. The relations on it compare numbers, so a NaN differs from itself and `-0`
equals `0`; the bits tell them apart. -/
structure Double where
  bits : UInt64
  deriving Inhabited

namespace Double

def signBit : UInt64 := 0x8000000000000000

def infinity : Double := ⟨0x7FF0000000000000⟩

def notANumber : Double := ⟨0x7FF8000000000000⟩

def isNegative (x : Double) : Bool := signBit ≤ x.bits

/-- The number without its sign. -/
def abs (x : Double) : Double := ⟨x.bits &&& ~~~signBit⟩

def neg (x : Double) : Double := ⟨x.bits ^^^ signBit⟩

instance : Neg Double := ⟨neg⟩

def isNaN (x : Double) : Bool := infinity.bits < x.abs.bits

def isFinite (x : Double) : Bool := x.abs.bits < infinity.bits

/-- The value as the machine computes with it; the sign of a NaN is lost. -/
def toFloat (x : Double) : Float := Float.ofBits x.bits

/-- The result of an operation on numbers. -/
def ofFloat (x : Float) : Double := if x.isNaN then -notANumber else ⟨x.toBits⟩

def map (f : Float → Float) (x : Double) : Double := if x.isNaN then x else ofFloat (f x.toFloat)

def map₂ (f : Float → Float → Float) (x y : Double) : Double :=
  if x.isNaN then x else if y.isNaN then y else ofFloat (f x.toFloat y.toFloat)

instance : Add Double := ⟨map₂ (· + ·)⟩

instance : Sub Double := ⟨map₂ (· - ·)⟩

instance : Mul Double := ⟨map₂ (· * ·)⟩

instance : Div Double := ⟨map₂ (· / ·)⟩

instance : BEq Double := ⟨fun x y => x.toFloat == y.toFloat⟩

instance : LT Double := ⟨fun x y => x.toFloat < y.toFloat⟩

instance : LE Double := ⟨fun x y => x.toFloat ≤ y.toFloat⟩

instance (x y : Double) : Decidable (x < y) := inferInstanceAs (Decidable (x.toFloat < y.toFloat))

instance (x y : Double) : Decidable (x ≤ y) := inferInstanceAs (Decidable (x.toFloat ≤ y.toFloat))

/-- The double nearest to a natural number. -/
def ofNat (n : Nat) : Double := ofFloat (Float.ofNat n)

instance (n : Nat) : OfNat Double n := ⟨ofNat n⟩

instance : OfScientific Double where
  ofScientific digits negative power := ofFloat (OfScientific.ofScientific digits negative power)

def floor : Double → Double := map Float.floor

def ceil : Double → Double := map Float.ceil

/-- The nearest whole number, a half away from zero. -/
def round : Double → Double := map Float.round

def sqrt : Double → Double := map Float.sqrt

def exp : Double → Double := map Float.exp

def log : Double → Double := map Float.log

def log10 : Double → Double := map Float.log10

/-- A NaN to the power 0 is 1, and so is 1 to the power of a NaN. -/
def pow (x y : Double) : Double := ofFloat (Float.pow x.toFloat y.toFloat)

end Double

end TradingRules
