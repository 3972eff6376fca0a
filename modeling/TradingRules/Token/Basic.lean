/-!
# Tokens

A token knows its kind, its text and where it starts. What cannot be read is a token too, of kind
`fault`, so that a caller may stop at the first or go on to collect them all.
-/

namespace TradingRules

/-- A place in a source text. Lines and columns count from one, columns in characters; the offset
counts UTF-8 bytes from zero. -/
structure Position where
  line : Nat
  column : Nat
  offset : Nat
  deriving DecidableEq, Repr

namespace Position

def start : Position := ⟨1, 1, 0⟩

/-- The place after one more character. -/
def after (p : Position) (c : Char) : Position :=
  if c = '\n' then ⟨p.line + 1, 1, p.offset + c.utf8Size⟩
  else ⟨p.line, p.column + 1, p.offset + c.utf8Size⟩

def advance (p : Position) (text : List Char) : Position := text.foldl after p

/-- The place just past the last character. -/
def endOf (source : String) : Position := start.advance source.toList

end Position

namespace Token

/-- Text that is no token of the language. -/
inductive Fault where
  | unterminatedString
  | illegalCharacter
  | malformedNumber
  deriving DecidableEq, Repr

inductive Kind where
  | int
  | float
  | string
  | identifier
  | keyword
  | operator
  | delimiter
  | fault (f : Fault)
  deriving DecidableEq, Repr

def keywords : List String := ["true", "false", "null", "and", "or", "not", "in"]

end Token

/-- The text of a string token is its content, without quotes and with escapes undone; any other
token has the text of the source. -/
structure Token where
  kind : Token.Kind
  text : String
  place : Position
  deriving DecidableEq, Repr

namespace Token

def fault? (t : Token) : Option Fault :=
  match t.kind with
  | .fault f => some f
  | _ => none

def isFault (t : Token) : Bool := t.fault?.isSome

def isOperator (t : Token) (text : String) : Bool := t.kind == .operator && t.text == text

def isDelimiter (t : Token) (text : String) : Bool := t.kind == .delimiter && t.text == text

def isKeyword (t : Token) (text : String) : Bool := t.kind == .keyword && t.text == text

end Token

end TradingRules
