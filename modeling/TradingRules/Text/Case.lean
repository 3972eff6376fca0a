import TradingRules.Text.CharClass
import TradingRules.Text.CaseTable

/-!
# Letter case

The full mappings of Unicode: a letter may become several, and a capital sigma at the end of a word
becomes the final form. No mapping depends on a language.
-/

namespace TradingRules.Text

def mapByRuns (n : Nat) : List (Nat × Nat × Nat × Int) → Option Nat
  | [] => none
  | (first, count, stride, shift) :: rest =>
    if first ≤ n ∧ n ≤ first + (count - 1) * stride ∧ (n - first) % stride = 0 then
      some ((n : Int) + shift).toNat
    else mapByRuns n rest

def mapChar (expansions : List (Nat × List Nat)) (runs : List (Nat × Nat × Nat × Int))
    (c : Char) : List Char :=
  match expansions.lookup c.toNat with
  | some image => image.map Char.ofNat
  | none => match mapByRuns c.toNat runs with
    | some n => [Char.ofNat n]
    | none => [c]

def upperChar (c : Char) : List Char :=
  if c.toNat < 128 then [c.toUpper] else mapChar upperExpansions upperRuns c

def lowerChar (c : Char) : List Char :=
  if c.toNat < 128 then [c.toLower] else mapChar lowerExpansions lowerRuns c

/-- Whether a word goes on in the given direction: the first character that does not ignore case is
cased. -/
def wordGoesOn (text : List Char) : Bool :=
  match text.dropWhile isCaseIgnorable with
  | [] => false
  | c :: _ => isCased c

/-- `before` holds the characters already read, nearest first. -/
def lowerCore (before : List Char) : List Char → List Char
  | [] => []
  | c :: rest =>
    let image :=
      if c = 'Σ' then [if wordGoesOn before && !wordGoesOn rest then 'ς' else 'σ'] else lowerChar c
    image ++ lowerCore (c :: before) rest

def lower (text : String) : String := String.ofList (lowerCore [] text.toList)

def upper (text : String) : String := String.ofList (text.toList.flatMap upperChar)

/-- Only the ASCII letters change. -/
def asciiLower (text : String) : String := String.ofList (text.toList.map Char.toLower)

end TradingRules.Text
