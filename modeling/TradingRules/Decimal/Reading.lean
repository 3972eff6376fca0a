import TradingRules.Double.Magnitude
import TradingRules.Text.CharClass

/-!
# Reading numbers

An integer is digits after an optional sign. A decimal is digits with an optional point, at least
one digit beside it, and an optional exponent; `inf`, `infinity` and `nan` are read in any case.
-/

namespace TradingRules.Decimal

open TradingRules.Text (isAsciiDigit digitValue)
open TradingRules.Double (Magnitude ofMagnitude)

/-- The value of a run of digits read after `start`. -/
def digitsValue (start : Nat) (digits : List Char) : Nat :=
  digits.foldl (fun n c => 10 * n + digitValue c) start

/-- A non-empty run of ASCII digits and nothing else. -/
def readNat? (text : List Char) : Option Nat :=
  if text.isEmpty || !text.all isAsciiDigit then none else some (digitsValue 0 text)

def splitSign : List Char → Bool × List Char
  | '-' :: rest => (true, rest)
  | '+' :: rest => (false, rest)
  | text => (false, text)

def readInt? (text : List Char) : Option Int :=
  let (negative, digits) := splitSign text
  (readNat? digits).map fun n => if negative then -(n : Int) else n

def inInt64 (i : Int) : Bool := -(twoTo 63 : Int) ≤ i && i < twoTo 63

/-- The machine integer equal to `i`, if there is one. -/
def int64? (i : Int) : Option Int64 := if inInt64 i then some (Int64.ofInt i) else none

def readInt64? (text : List Char) : Option Int64 := (readInt? text).bind int64?

/-- An optional exponent that ends the text. -/
def readExponent? : List Char → Option Int
  | [] => some 0
  | c :: rest => if c = 'e' ∨ c = 'E' then readInt? rest else none

/-- Unsigned `digits [. digits] [exponent]`. -/
def readUnsigned? (text : List Char) : Option (Nat × Int) :=
  let whole := text.takeWhile isAsciiDigit
  let afterWhole := text.dropWhile isAsciiDigit
  let (fraction, rest) := match afterWhole with
    | '.' :: tail => (tail.takeWhile isAsciiDigit, tail.dropWhile isAsciiDigit)
    | tail => ([], tail)
  if whole.isEmpty && fraction.isEmpty then none
  else (readExponent? rest).map fun power =>
    (digitsValue (digitsValue 0 whole) fraction, power - fraction.length)

/-- `± digits · 10 ^ exponent` rounded to the nearest double. Exponents far outside the range of
doubles are answered without forming the power. -/
def toDouble (negative : Bool) (digits : Nat) (exponent : Int) : Double :=
  let magnitude : Int := (Nat.log2 digits : Int) * 30103 / 100000 + exponent
  if digits = 0 ∨ magnitude < -400 then ofMagnitude negative .zero
  else if 400 < magnitude then if negative then -.infinity else .infinity
  else if 0 ≤ exponent then
    ofMagnitude negative (Magnitude.nearest (digits * tenTo exponent.toNat) 1)
  else ofMagnitude negative (Magnitude.nearest digits (tenTo (-exponent).toNat))

def named? (text : List Char) : Option Double :=
  match text.map Char.toLower with
  | ['n', 'a', 'n'] => some .notANumber
  | ['i', 'n', 'f'] | ['i', 'n', 'f', 'i', 'n', 'i', 't', 'y'] => some .infinity
  | _ => none

/-- A sign belongs to `nan` too. -/
def readDouble? (text : List Char) : Option Double :=
  let (negative, body) := splitSign text
  match named? body with
  | some x => some (if negative then -x else x)
  | none => (readUnsigned? body).map fun (digits, power) => toDouble negative digits power

end TradingRules.Decimal
