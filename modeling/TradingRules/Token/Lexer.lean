import TradingRules.Token.Basic
import TradingRules.Text.CharClass

/-!
# From text to tokens

`lexeme` says which token begins a text and how many characters it takes. The lexer walks the text
once, character by character, passing over the characters of the token just found; the strict lexer
ends at the first fault, the recovering one only at a string without an end.
-/

namespace TradingRules.Token

open TradingRules.Text (isAsciiDigit isAlphabetic isAlphanumeric isBlank)

def startsWord (c : Char) : Bool := isAlphabetic c || c == '_'

def continuesWord (c : Char) : Bool := isAlphanumeric c || c == '_'

/-- How many characters at the front satisfy a test. -/
def run (p : Char → Bool) (text : List Char) : Nat := (text.takeWhile p).length

/-- What begins a text: the kind of the token, its text, and the number of characters taken. -/
structure Lexeme where
  kind : Kind
  text : List Char
  length : Nat

/-- A number glued to a word is malformed as a whole. -/
def unglued (text : List Char) (kind : Kind) (length : Nat) : Kind × Nat :=
  match text.drop length with
  | c :: rest =>
    if startsWord c then (.fault .malformedNumber, length + run continuesWord (c :: rest))
    else (kind, length)
  | [] => (kind, length)

/-- A point and digits; nothing if no digit follows the point. -/
def fractionLength : List Char → Nat
  | '.' :: c :: rest => if isAsciiDigit c then 1 + run isAsciiDigit (c :: rest) else 0
  | _ => 0

def signLength : List Char → Nat
  | '+' :: _ | '-' :: _ => 1
  | _ => 0

/-- Digits, an optional fraction and an optional exponent; an exponent without digits is
malformed. -/
def number (text : List Char) : Kind × Nat :=
  let whole := run isAsciiDigit text
  let fraction := fractionLength (text.drop whole)
  let mantissa := whole + fraction
  let kind := if fraction = 0 then Kind.int else .float
  match text.drop mantissa with
  | c :: rest =>
    if c = 'e' ∨ c = 'E' then
      let sign := signLength rest
      let digits := run isAsciiDigit (rest.drop sign)
      let length := mantissa + 1 + sign + digits
      if digits = 0 then (.fault .malformedNumber, length) else unglued text .float length
    else unglued text kind mantissa
  | [] => (kind, mantissa)

/-- A backslash stands for itself before a character that it does not escape. -/
def unescape : Char → List Char
  | 'n' => ['\n']
  | 't' => ['\t']
  | 'r' => ['\r']
  | '\\' => ['\\']
  | '\'' => ['\'']
  | '"' => ['"']
  | c => ['\\', c]

/-- The content after an opening quote, whether it is closed, and the number of characters taken. A
bare line feed ends the string unclosed. -/
def stringBody (quote : Char) : List Char → Bool × List Char × Nat
  | [] => (false, [], 0)
  | c :: rest =>
    if c = quote then (true, [], 1)
    else if c = '\n' then (false, [], 1)
    else if c = '\\' then
      match rest with
      | [] => (false, [], 1)
      | e :: rest =>
        let (closed, content, length) := stringBody quote rest
        (closed, unescape e ++ content, length + 2)
    else
      let (closed, content, length) := stringBody quote rest
      (closed, c :: content, length + 1)

def isPair : Char → Char → Bool
  | '&', '&' | '|', '|' | '=', '=' | '!', '=' | '<', '=' | '>', '=' => true
  | _, _ => false

def symbolKind (c : Char) : Kind :=
  if c ∈ ['(', ')', '[', ']', ','] then .delimiter
  else if c ∈ ['+', '-', '*', '/', '%', '<', '>', '!', '?', ':', '.'] then .operator
  else .fault .illegalCharacter

def symbolLength : List Char → Nat
  | c :: d :: _ => if isPair c d then 2 else 1
  | _ => 1

/-- The token at the front of a text that starts with `c`, which is no blank. -/
def lexeme (c : Char) (rest : List Char) : Lexeme :=
  let text := c :: rest
  if isAsciiDigit c then
    let (kind, length) := number text
    ⟨kind, text.take length, length⟩
  else if c = '"' ∨ c = '\'' then
    let (closed, content, length) := stringBody c rest
    ⟨if closed then .string else .fault .unterminatedString, content, length + 1⟩
  else if startsWord c then
    let length := run continuesWord text
    let word := text.take length
    ⟨if String.ofList word ∈ keywords then .keyword else .identifier, word, length⟩
  else if symbolLength text = 2 then ⟨.operator, text.take 2, 2⟩
  else ⟨symbolKind c, [c], 1⟩

/-- Whether lexing ends at a token of this kind. -/
def Kind.ends (recover : Bool) : Kind → Bool
  | .fault .unterminatedString => true
  | .fault _ => !recover
  | _ => false

/-- `passed` characters at the front belong to the token before. -/
def lexFrom (recover : Bool) : (passed : Nat) → Position → List Char → List Token
  | _, _, [] => []
  | passed + 1, p, c :: rest => lexFrom recover passed (p.after c) rest
  | 0, p, c :: rest =>
    if isBlank c then lexFrom recover 0 (p.after c) rest
    else
      let found := lexeme c rest
      let token : Token := ⟨found.kind, String.ofList found.text, p⟩
      if found.kind.ends recover then [token]
      else token :: lexFrom recover (found.length - 1) (p.after c) rest

/-- The tokens of a source, up to and including the first fault. -/
def strict (source : String) : List Token := lexFrom false 0 .start source.toList

/-- The tokens of a source with every fault but those behind a string without an end. -/
def recovering (source : String) : List Token := lexFrom true 0 .start source.toList

end TradingRules.Token
