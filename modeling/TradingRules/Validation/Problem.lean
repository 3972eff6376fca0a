import TradingRules.Expr.Parser

/-!
# Problems of a source text
-/

namespace TradingRules.Validation

inductive Severity where
  | error
  | warning
  | info
  deriving DecidableEq, Repr

namespace Severity

def name : Severity → String
  | .error => "error"
  | .warning => "warning"
  | .info => "info"

/-- Of problems in one place the gravest is listed first. -/
def rank : Severity → Nat
  | .error => 0
  | .warning => 1
  | .info => 2

end Severity

/-- What is wrong. A bracket that does not match names its opening bracket and where that stands. -/
inductive Finding where
  | empty
  | mismatched (closing opening : String) (line column : Nat)
  | unopened (closing : String)
  | unclosed (opening : String)
  | lexical (f : Token.Fault) (text : String)
  | questionAlone
  | colonAlone
  | unknownFunction (name : String) (close : Option String)
  | unusedFunction (name : String)
  | grammar (cause : Expr.Cause)
  | floatEquality (operator : String)
  | timeout (limit : Nat)
  deriving DecidableEq, Repr

namespace Finding

def severity : Finding → Severity
  | .unusedFunction _ => .warning
  | .floatEquality _ => .info
  | _ => .error

/-- A stable name for tools. -/
def code : Finding → String
  | .empty => "E_EMPTY"
  | .mismatched .. | .unopened _ | .unclosed _ => "E_UNBALANCED"
  | .lexical .illegalCharacter _ => "E_ILLEGAL_CHAR"
  | .lexical .malformedNumber _ => "E_MALFORMED_NUMBER"
  | .lexical .unterminatedString _ => "E_UNTERMINATED_STRING"
  | .questionAlone | .colonAlone => "E_TERNARY"
  | .unknownFunction .. => "E_UNKNOWN_FUNCTION"
  | .unusedFunction _ => "W_UNUSED_FUNCTION"
  | .grammar _ => "E_SYNTAX"
  | .floatEquality _ => "I_FLOAT_EQUALITY"
  | .timeout _ => "E_TIMEOUT"

def message : Finding → String
  | .empty => "expression is empty"
  | .mismatched closing opening line column =>
    "'" ++ closing ++ "' does not match '" ++ opening ++ "' opened at line " ++ toString line ++
      ", column " ++ toString column
  | .unopened closing => "unmatched closing '" ++ closing ++ "'"
  | .unclosed opening => "'" ++ opening ++ "' is never closed"
  | .lexical .illegalCharacter text => "illegal character '" ++ text ++ "'"
  | .lexical .malformedNumber text => "malformed number '" ++ text ++ "'"
  | .lexical .unterminatedString _ => "string literal is never closed"
  | .questionAlone => "'?' without matching ':'"
  | .colonAlone => "':' without preceding '?'"
  | .unknownFunction name (some close) =>
    "unknown function '" ++ name ++ "'; did you mean '" ++ close ++ "'?"
  | .unknownFunction name none => "unknown function '" ++ name ++ "'"
  | .unusedFunction name => "custom function '" ++ name ++ "' is declared but never used"
  | .grammar cause => cause.message
  | .floatEquality operator =>
    "exact '" ++ operator ++ "' on a float literal; consider approx_eq()"
  | .timeout limit => "evaluation exceeded " ++ toString limit ++ " ms"

end Finding

structure Problem where
  line : Nat
  column : Nat
  finding : Finding
  deriving DecidableEq, Repr

namespace Problem

def ofToken (t : Token) (finding : Finding) : Problem := ⟨t.place.line, t.place.column, finding⟩

def severity (p : Problem) : Severity := p.finding.severity

def isError (p : Problem) : Bool := p.severity == .error

def text (p : Problem) : String :=
  toString p.line ++ ":" ++ toString p.column ++ ": " ++ p.severity.name ++ " [" ++
    p.finding.code ++ "] " ++ p.finding.message

/-- By place, then by severity. -/
def notAfter (a b : Problem) : Bool :=
  if a.line ≠ b.line then decide (a.line < b.line)
  else if a.column ≠ b.column then decide (a.column < b.column)
  else a.severity.rank ≤ b.severity.rank

end Problem

end TradingRules.Validation
