import TradingRules.Json.Basic
import TradingRules.Decimal.Layout
import TradingRules.Text.Quoted

/-!
# Writing JSON text

Stored files are indented by two spaces a level; messages stand on one line.
-/

namespace TradingRules.Json

open TradingRules.Text (hexDigit)

/-- Quotes, backslashes and control characters are escaped; every other character stands for
itself. -/
def escape (c : Char) : List Char :=
  match c with
  | '"' => ['\\', '"']
  | '\\' => ['\\', '\\']
  | '\n' => ['\\', 'n']
  | '\r' => ['\\', 'r']
  | '\t' => ['\\', 't']
  | c =>
    if c.toNat = 0x08 then ['\\', 'b']
    else if c.toNat = 0x0C then ['\\', 'f']
    else if c.toNat < 0x20 then
      ['\\', 'u', '0', '0', hexDigit (c.toNat / 16), hexDigit (c.toNat % 16)]
    else [c]

def string (s : String) : List Char := '"' :: s.toList.flatMap escape ++ ['"']

def scalar : Json → List Char
  | .bool true => ['t', 'r', 'u', 'e']
  | .bool false => ['f', 'a', 'l', 's', 'e']
  | .int i => (toString i).toList
  | .float x => (Decimal.storedText x).toList
  | .str s => string s
  | _ => ['n', 'u', 'l', 'l']

mutual

/-- The text on one line, with nothing between the tokens. -/
def compact : Json → List Char
  | .arr items => '[' :: compactItems items ++ [']']
  | .obj members => '{' :: compactMembers members ++ ['}']
  | j => scalar j

def compactItems : List Json → List Char
  | [] => []
  | [j] => compact j
  | j :: rest => compact j ++ ',' :: compactItems rest

def compactMembers : List (String × Json) → List Char
  | [] => []
  | [(name, j)] => string name ++ ':' :: compact j
  | (name, j) :: rest => string name ++ ':' :: compact j ++ ',' :: compactMembers rest

end

def newLine (level : Nat) : List Char := '\n' :: List.replicate (2 * level) ' '

mutual

/-- The text with one item or member a line; an empty container stays on its line. -/
def pretty (level : Nat) : Json → List Char
  | .arr [] => ['[', ']']
  | .arr items => '[' :: prettyItems (level + 1) items ++ newLine level ++ [']']
  | .obj [] => ['{', '}']
  | .obj members => '{' :: prettyMembers (level + 1) members ++ newLine level ++ ['}']
  | j => scalar j

def prettyItems (level : Nat) : List Json → List Char
  | [] => []
  | [j] => newLine level ++ pretty level j
  | j :: rest => newLine level ++ pretty level j ++ ',' :: prettyItems level rest

def prettyMembers (level : Nat) : List (String × Json) → List Char
  | [] => []
  | [(name, j)] => newLine level ++ string name ++ ':' :: ' ' :: pretty level j
  | (name, j) :: rest =>
    newLine level ++ string name ++ ':' :: ' ' :: pretty level j ++ ',' :: prettyMembers level rest

end

def line (j : Json) : String := String.ofList (compact j)

def document (j : Json) : String := String.ofList (pretty 0 j)

end TradingRules.Json
