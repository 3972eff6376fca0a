import TradingRules.Text.AlphabeticTable
import TradingRules.Text.NumericTable
import TradingRules.Text.PrintableTable
import TradingRules.Text.CasedTable

/-!
# Character classes

Words, blanks and quoted text are told apart by Unicode properties. A character below 128 is decided
without a table.
-/

namespace TradingRules.Text

/-- Membership changes at every boundary, so a code point belongs to the table iff the number of
boundaries not above it is odd. -/
def inTable (n : Nat) : List Nat → Bool
  | [] => false
  | b :: rest => if n < b then false else !inTable n rest

def isAsciiDigit (c : Char) : Bool := '0' ≤ c && c ≤ '9'

def isAsciiLetter (c : Char) : Bool := ('a' ≤ c && c ≤ 'z') || ('A' ≤ c && c ≤ 'Z')

def isAlphabetic (c : Char) : Bool :=
  if c.toNat < 128 then isAsciiLetter c else inTable c.toNat alphabeticBounds

def isNumeric (c : Char) : Bool :=
  if c.toNat < 128 then isAsciiDigit c else inTable c.toNat numericBounds

def isAlphanumeric (c : Char) : Bool := isAlphabetic c || isNumeric c

/-- The Unicode property White_Space. -/
def isBlank (c : Char) : Bool :=
  let n := c.toNat
  (0x9 ≤ n && n ≤ 0xD) || n == 0x20 || n == 0x85 || n == 0xA0 || n == 0x1680 ||
    (0x2000 ≤ n && n ≤ 0x200A) || n == 0x2028 || n == 0x2029 || n == 0x202F || n == 0x205F ||
    n == 0x3000

def isPrintable (c : Char) : Bool :=
  if c.toNat < 128 then 0x20 ≤ c.toNat && c.toNat < 0x7F
  else !inTable c.toNat unprintableBounds

/-- A mark that is drawn onto the character before it. -/
def isExtending (c : Char) : Bool :=
  if c.toNat < 128 then false else inTable c.toNat extendBounds

def isCased (c : Char) : Bool :=
  if c.toNat < 128 then isAsciiLetter c else inTable c.toNat casedBounds

def isCaseIgnorable (c : Char) : Bool := inTable c.toNat caseIgnorableBounds

/-- The decimal value of an ASCII digit. -/
def digitValue (c : Char) : Nat := c.toNat - '0'.toNat

end TradingRules.Text
