import TradingRules.Json.Basic
import TradingRules.Decimal.Reading

/-!
# Reading JSON text

The grammar is the strict one: no comment, no trailing comma, no leading zero, no control character
inside a string, and nothing but blanks after the document.
-/

namespace TradingRules.Json

open TradingRules.Text (isAsciiDigit)
open TradingRules.Decimal (digitsValue twoTo)

def isSpace (c : Char) : Bool := c == ' ' || c == '\n' || c == '\t' || c == '\r'

def skipSpace (text : List Char) : List Char := text.dropWhile isSpace

def hexValue? (c : Char) : Option Nat :=
  if '0' ≤ c ∧ c ≤ '9' then some (c.toNat - '0'.toNat)
  else if 'a' ≤ c ∧ c ≤ 'f' then some (c.toNat - 'a'.toNat + 10)
  else if 'A' ≤ c ∧ c ≤ 'F' then some (c.toNat - 'A'.toNat + 10)
  else none

/-- What one step of a string literal stands for: a character, or a UTF-16 unit in hexadecimal. -/
inductive Piece where
  | char (c : Char)
  | unit (n : Nat)

def escaped? : Char → Option Char
  | '"' => some '"'
  | '\\' => some '\\'
  | '/' => some '/'
  | 'b' => some '\x08'
  | 'f' => some '\x0c'
  | 'n' => some '\n'
  | 'r' => some '\r'
  | 't' => some '\t'
  | _ => none

/-- The pieces up to the closing quote, and the text after it. -/
def pieces? : List Char → Option (List Piece × List Char)
  | [] => none
  | '"' :: rest => some ([], rest)
  | '\\' :: 'u' :: a :: b :: c :: d :: rest => do
    let n := (((← hexValue? a) * 16 + (← hexValue? b)) * 16 + (← hexValue? c)) * 16 + (← hexValue? d)
    let (pieces, after) ← pieces? rest
    some (.unit n :: pieces, after)
  | '\\' :: e :: rest => do
    let c ← escaped? e
    let (pieces, after) ← pieces? rest
    some (.char c :: pieces, after)
  | c :: rest =>
    if c.toNat < 0x20 then none
    else do
      let (pieces, after) ← pieces? rest
      some (.char c :: pieces, after)

/-- Units above the basic plane come in pairs, high half first. -/
def joinPieces? : List Piece → Option (List Char)
  | [] => some []
  | .char c :: rest => (joinPieces? rest).map (c :: ·)
  | .unit n :: rest =>
    if 0xD800 ≤ n ∧ n ≤ 0xDBFF then
      match rest with
      | .unit m :: rest =>
        if 0xDC00 ≤ m ∧ m ≤ 0xDFFF then
          (joinPieces? rest).map (Char.ofNat (0x10000 + (n - 0xD800) * 0x400 + (m - 0xDC00)) :: ·)
        else none
      | _ => none
    else if 0xDC00 ≤ n ∧ n ≤ 0xDFFF then none
    else (joinPieces? rest).map (Char.ofNat n :: ·)

/-- Digits, at least one. -/
def digits? (text : List Char) : Option (List Char × List Char) :=
  match text.takeWhile isAsciiDigit with
  | [] => none
  | run => some (run, text.dropWhile isAsciiDigit)

def whole? : List Char → Option (List Char × List Char)
  | '0' :: rest => some (['0'], rest)
  | text => digits? text

def fraction? : List Char → Option (Option (List Char) × List Char)
  | '.' :: rest => (digits? rest).map fun (run, after) => (some run, after)
  | text => some (none, text)

def power? : List Char → Option (Option Int × List Char)
  | c :: rest =>
    if c = 'e' ∨ c = 'E' then
      match rest with
      | '-' :: rest => (digits? rest).map fun (run, after) => (some (-(digitsValue 0 run : Int)), after)
      | '+' :: rest => (digits? rest).map fun (run, after) => (some (digitsValue 0 run : Int), after)
      | rest => (digits? rest).map fun (run, after) => (some (digitsValue 0 run : Int), after)
    else some (none, c :: rest)
  | [] => some (none, [])

def ofDouble (x : Double) : Json := if x.isFinite then .float x else .unreadable

/-- A whole number is an integer while it fits; `-0` is the negative zero. -/
def ofWhole (negative : Bool) (n : Nat) : Json :=
  if negative then
    if n ≠ 0 ∧ n ≤ twoTo 63 then .int (-(n : Int)) else ofDouble (Decimal.toDouble true n 0)
  else if n < twoTo 64 then .int n
  else ofDouble (Decimal.toDouble false n 0)

def unsigned? (negative : Bool) (text : List Char) : Option (Json × List Char) := do
  let (whole, text) ← whole? text
  let (fraction, text) ← fraction? text
  let (power, text) ← power? text
  match fraction, power with
  | none, none => some (ofWhole negative (digitsValue 0 whole), text)
  | fraction, power =>
    let run := fraction.getD []
    some (ofDouble (Decimal.toDouble negative (digitsValue (digitsValue 0 whole) run)
      (power.getD 0 - run.length)), text)

def number? : List Char → Option (Json × List Char)
  | '-' :: rest => unsigned? true rest
  | text => unsigned? false text

def literal? (word : List Char) (j : Json) (text : List Char) : Option (Json × List Char) :=
  if word.isPrefixOf text then some (j, text.drop word.length) else none

/-- A string literal after its opening quote. -/
def string? (text : List Char) : Option (Option String × List Char) :=
  (pieces? text).map fun (pieces, rest) => ((joinPieces? pieces).map String.ofList, rest)

/-- An object with an unreadable name is unreadable. -/
def ofMembers (members : List (Option String × Json)) : Json :=
  match members.mapM fun (name, j) => name.map (·, j) with
  | some members => .obj members
  | none => .unreadable

mutual

/-- A value and the text after it. Every step into an array or an object takes fuel; the length of
the text suffices. -/
def value? : Nat → List Char → Option (Json × List Char)
  | 0, _ => none
  | fuel + 1, text =>
    match skipSpace text with
    | '{' :: rest =>
      match skipSpace rest with
      | '}' :: rest => some (.obj [], rest)
      | rest => (members? fuel rest).map fun (members, rest) => (ofMembers members, rest)
    | '[' :: rest =>
      match skipSpace rest with
      | ']' :: rest => some (.arr [], rest)
      | rest => (items? fuel rest).map fun (items, rest) => (.arr items, rest)
    | '"' :: rest =>
      (string? rest).map fun (s, rest) => (s.elim .unreadable .str, rest)
    | 'n' :: rest => literal? ['u', 'l', 'l'] .null rest
    | 't' :: rest => literal? ['r', 'u', 'e'] (.bool true) rest
    | 'f' :: rest => literal? ['a', 'l', 's', 'e'] (.bool false) rest
    | text => number? text

/-- Items up to the closing bracket; at least one. -/
def items? : Nat → List Char → Option (List Json × List Char)
  | 0, _ => none
  | fuel + 1, text => do
    let (j, rest) ← value? fuel text
    match skipSpace rest with
    | ',' :: rest =>
      let (items, rest) ← items? fuel rest
      some (j :: items, rest)
    | ']' :: rest => some ([j], rest)
    | _ => none

/-- Members up to the closing brace; at least one. -/
def members? : Nat → List Char → Option (List (Option String × Json) × List Char)
  | 0, _ => none
  | fuel + 1, text =>
    match skipSpace text with
    | '"' :: rest => do
      let (name, rest) ← string? rest
      match skipSpace rest with
      | ':' :: rest =>
        let (j, rest) ← value? fuel rest
        match skipSpace rest with
        | ',' :: rest =>
          let (members, rest) ← members? fuel rest
          some ((name, j) :: members, rest)
        | '}' :: rest => some ([(name, j)], rest)
        | _ => none
      | _ => none
    | _ => none

end

/-- The document written by a text. -/
def ofText? (text : String) : Option Json :=
  let chars := text.toList
  match value? (2 * chars.length + 2) chars with
  | some (j, rest) => if (skipSpace rest).isEmpty then some j else none
  | none => none

end TradingRules.Json
