import TradingRules.Expr.Parser
import TradingRules.Expr.Names
import TradingRules.Token.Lexer
import TradingRules.Text.Search

/-!
# Compiled rules

Compiling looks at the syntax alone: which functions exist is not its business. A compile error says
what is wrong and where.
-/

namespace TradingRules

structure CompileError where
  cause : Expr.Cause
  place : Position
  deriving DecidableEq, Repr

namespace CompileError

def reason (e : CompileError) : String := e.cause.message

def message (e : CompileError) : String :=
  "compile error at line " ++ toString e.place.line ++ ", column " ++ toString e.place.column ++
    ": " ++ e.reason

/-- The line of the fault, a caret under its column, and the message. -/
def excerpt (e : CompileError) (source : String) : String :=
  let line := (Text.lines source)[e.place.line - 1]?.getD ""
  line ++ "\n" ++ String.ofList (List.replicate (e.place.column - 1) ' ') ++ "^\n" ++ e.message

end CompileError

/-- A fault at the end of the tokens is placed behind the last character of the source. -/
def Expr.ofTokensOf (source : String) (tokens : List Token) : Except CompileError Expr :=
  (Expr.ofTokens tokens).mapError fun f => ⟨f.cause, f.place.getD (Position.endOf source)⟩

def Expr.parse (source : String) : Except CompileError Expr :=
  Expr.ofTokensOf source (Token.strict source)

/-- An expression with its source and the names it mentions. -/
structure Compiled where
  source : String
  expr : Expr
  freeNames : Names
  calledNames : Names

def compile (source : String) : Except CompileError Compiled :=
  (Expr.parse source).map fun e => ⟨source, e, e.freeNames, e.calledNames⟩

end TradingRules
