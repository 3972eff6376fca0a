import TradingRules.Decimal.Shortest

/-!
# Layouts of numbers

Expression text never uses an exponent, and a tie goes up. Stored text uses one outside
`1e-5 ≤ |x| < 1e16`, and a tie goes to the even digit. Tables use a fixed number of places.
-/

namespace TradingRules.Decimal

open TradingRules.Double (Magnitude)

def zeros (n : Nat) : String := String.ofList (List.replicate n '0')

def signOf (x : Double) : String := if x.isNegative then "-" else ""

/-- The digits of `s` around a point, none if the number is whole. -/
def Scaled.positional (s : Scaled) : String :=
  let digits := toString s.digits
  if 0 ≤ s.exponent then digits ++ zeros s.exponent.toNat
  else
    let places := (-s.exponent).toNat
    if places < digits.length then
      String.ofList (digits.toList.take (digits.length - places)) ++ "." ++
        String.ofList (digits.toList.drop (digits.length - places))
    else "0." ++ zeros (places - digits.length) ++ digits

/-- One digit before the point, the others after it, and a signed exponent. -/
def Scaled.scientific (s : Scaled) : String :=
  let digits := toString s.digits
  let power : Int := s.exponent + digits.length - 1
  let fraction := if digits.length ≤ 1 then "" else "." ++ String.ofList (digits.toList.drop 1)
  String.ofList (digits.toList.take 1) ++ fraction ++ "e" ++
    (if power < 0 then "-" else "+") ++ toString power.natAbs

def special (x : Double) : String :=
  if x.isNaN then "NaN" else signOf x ++ "inf"

/-- Shortest digits without an exponent and without a point if the number is whole. -/
def plainText (x : Double) : String :=
  match x.magnitude? with
  | none => special x
  | some m => signOf x ++ (shortest .up m).positional

/-- The text of a number in an expression or a message: a whole number below `1e15` keeps one place,
so that it is read back as a fraction. -/
def text (x : Double) : String :=
  match x.magnitude? with
  | none => special x
  | some m =>
    let s := shortest .up m
    if 0 ≤ s.exponent ∧ x.abs < 1e15 then signOf x ++ s.positional ++ ".0"
    else signOf x ++ s.positional

/-- The text of a finite number in a stored file. -/
def storedText (x : Double) : String :=
  match x.magnitude? with
  | none => "null"
  | some m =>
    let s := shortest .even m
    let power : Int := s.exponent + (toString s.digits).length - 1
    if m.significand = 0 then signOf x ++ "0.0"
    else if power < -5 ∨ 16 ≤ power then signOf x ++ s.scientific
    else if 0 ≤ s.exponent then signOf x ++ s.positional ++ ".0"
    else signOf x ++ s.positional

/-- The given number of places, a tie to the even neighbour. -/
def fixedText (places : Nat) (x : Double) : String :=
  match x.magnitude? with
  | none => special x
  | some m =>
    let units := Magnitude.roundQuotient (m.significand * twoTo m.exponent.toNat * tenTo places)
      (twoTo (-m.exponent).toNat)
    let digits := toString units
    let digits := zeros (places + 1 - digits.length) ++ digits
    let whole := String.ofList (digits.toList.take (digits.length - places))
    let fraction := String.ofList (digits.toList.drop (digits.length - places))
    signOf x ++ whole ++ (if places = 0 then "" else "." ++ fraction)

end TradingRules.Decimal
