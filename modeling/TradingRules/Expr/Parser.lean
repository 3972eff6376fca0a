import TradingRules.Expr.Basic
import TradingRules.Token.Basic
import TradingRules.Decimal.Reading

/-!
# From tokens to an expression

Precedence, loosest first: `?:`, or, and, equality, relations, sums, products, unary operators,
postfix steps. All binary operators associate to the left.

`depth` counts the levels open around the cursor, at most `maxDepth`, and `peak` the deepest level
reached inside the phrase being read. An operator or a postfix step puts one more level on top of the
phrase to its left, so the first of a chain starts to count at that phrase's peak; the next ones go on
from there, whatever peaks the operands between have reached.
-/

namespace TradingRules.Expr

def maxDepth : Nat := 256

/-- Why a list of tokens is no expression. `found` is the text of the token in the way, `none` at the
end. -/
inductive Cause where
  | lexical (f : Token.Fault) (text : String)
  | empty
  | expected (what : String) (found : Option String)
  | expectedExpression (found : String)
  | keywordForExpression (word : String)
  | integerOutOfRange (text : String)
  | malformedNumber (text : String)
  | hasWithoutField
  | nestedTooDeeply
  | trailing (found : Option String)
  deriving DecidableEq, Repr

namespace Cause

def describe : Option String → String
  | some text => "'" ++ text ++ "'"
  | none => "end of input"

def message : Cause → String
  | .lexical .unterminatedString _ => "unterminated string literal"
  | .lexical .illegalCharacter text => "unexpected character '" ++ text ++ "'"
  | .lexical .malformedNumber text => "malformed number '" ++ text ++ "'"
  | .empty => "empty expression"
  | .expected what found => "expected " ++ what ++ ", found " ++ describe found
  | .expectedExpression found => "expected expression, found '" ++ found ++ "'"
  | .keywordForExpression word => "expected expression, found keyword '" ++ word ++ "'"
  | .integerOutOfRange text => "integer literal out of range: " ++ text
  | .malformedNumber text => "invalid number: " ++ text
  | .hasWithoutField => "has() expects a single field selection such as has(trade.side)"
  | .nestedTooDeeply => "expression nested too deeply"
  | .trailing found => "unexpected trailing input " ++ describe found

end Cause

/-- A cause and its place, `none` at the end of the tokens. -/
structure Fault where
  cause : Cause
  place : Option Position
  deriving DecidableEq, Repr

/-- The tokens still to read, with the count of levels. -/
structure Cursor where
  tokens : List Token
  depth : Nat
  peak : Nat

abbrev Parse := StateT Cursor (Except Fault)

namespace Parse

def next? : Parse (Option Token) := do return (← get).tokens.head?

def skip : Parse Unit := modify fun c => { c with tokens := c.tokens.tail }

def failAt {α : Type} (t : Token) (cause : Cause) : Parse α := throw ⟨cause, some t.place⟩

/-- The fault of the next token or of the end. -/
def failHere {α : Type} (cause : Option String → Cause) : Parse α := do
  match ← next? with
  | some t => throw ⟨cause (some t.text), some t.place⟩
  | none => throw ⟨cause none, none⟩

/-- Takes the next token if it passes a test. -/
def accept (test : Token → Bool) : Parse Bool := do
  match ← next? with
  | some t => if test t then do skip; return true else return false
  | none => return false

def acceptOperator (text : String) : Parse Bool := accept (·.isOperator text)

def acceptDelimiter (text : String) : Parse Bool := accept (·.isDelimiter text)

def expectOperator (text : String) : Parse Unit := do
  unless ← acceptOperator text do failHere (.expected ("'" ++ text ++ "'"))

def expectDelimiter (text : String) : Parse Unit := do
  unless ← acceptDelimiter text do failHere (.expected ("'" ++ text ++ "'"))

def expectIdentifier : Parse String := do
  match ← next? with
  | some t => if t.kind = .identifier then do skip; return t.text else failHere (.expected "identifier")
  | none => failHere (.expected "identifier")

/-- Opens one more level. -/
def enter : Parse Unit := do
  modify fun c => { c with depth := c.depth + 1, peak := max c.peak (c.depth + 1) }
  if maxDepth < (← get).depth then failHere fun _ => .nestedTooDeeply

/-- Reads a phrase one level deeper, after which the depth is as before. -/
def nested {α : Type} (phrase : Parse α) : Parse α := do
  enter
  let a ← phrase
  modify fun c => { c with depth := c.depth - 1 }
  return a

/-- Reads a phrase with a peak of its own, after which the depth is as before. -/
def withOwnPeak {α : Type} (phrase : Parse α) : Parse α := do
  let outer ← get
  set { outer with peak := outer.depth }
  let a ← phrase
  modify fun c => { c with depth := outer.depth, peak := max c.peak outer.peak }
  return a

/-- Continues to count at the peak of the phrase just read. -/
def stack : Parse Unit := modify fun c => { c with depth := c.peak }

end Parse

open Parse

/-- The binary operators by precedence, loosest first. -/
inductive Level where
  | or
  | and
  | equality
  | relation
  | sum
  | product
  deriving DecidableEq, Repr

namespace Level

/-- The level of the operands; `none` for a unary phrase. -/
def tighter? : Level → Option Level
  | .or => some .and
  | .and => some .equality
  | .equality => some .relation
  | .relation => some .sum
  | .sum => some .product
  | .product => none

/-- The operator a token stands for on a level. -/
def operator? (level : Level) (t : Token) : Option BinaryOp :=
  match level with
  | .or => if t.isOperator "||" || t.isKeyword "or" then some .or else none
  | .and => if t.isOperator "&&" || t.isKeyword "and" then some .and else none
  | .equality =>
    if t.isOperator "==" then some .eq else if t.isOperator "!=" then some .ne else none
  | .relation =>
    if t.isOperator "<=" then some .le
    else if t.isOperator ">=" then some .ge
    else if t.isOperator "<" then some .lt
    else if t.isOperator ">" then some .gt
    else if t.isKeyword "in" then some .member
    else none
  | .sum => if t.isOperator "+" then some .add else if t.isOperator "-" then some .sub else none
  | .product =>
    if t.isOperator "*" then some .mul
    else if t.isOperator "/" then some .div
    else if t.isOperator "%" then some .rem
    else none

/-- Takes an operator of the level. -/
def acceptFrom (level : Level) : Parse (Option BinaryOp) := do
  match ← next? with
  | some t =>
    match level.operator? t with
    | some op => do skip; return some op
    | none => return none
  | none => return none

end Level

/-- The negation of a number literal is a literal. -/
def negated : Expr → Expr
  | .literal (.float x) => .literal (.float (-x))
  | .literal (.int i) =>
    if i = Int64.minValue then .unary .negate (.literal (.int i)) else .literal (.int (-i))
  | e => .unary .negate e

/-- `f(args)`. A comprehension is written with its range, a variable and a body; `has` takes one
path. Other calls of these names are ordinary calls. -/
def ofFunctionForm (name : String) (args : List Expr) : Except Cause Expr :=
  if name = "has" then
    match args with
    | [target] => if target.path?.isSome then .ok (.has target) else .error .hasWithoutField
    | _ => .error .hasWithoutField
  else
    match Comprehension.ofName? name, args with
    | some kind, [range, .ident var, body] => .ok (.comprehension kind range var body)
    | _, _ => .ok (.call name args)

/-- `target.f(args)`. -/
def ofMethodForm (target : Expr) (name : String) (args : List Expr) : Expr :=
  match Comprehension.ofName? name, args with
  | some kind, [.ident var, body] => .comprehension kind target var body
  | _, _ => .call name (target :: args)

/-- The literal a token stands for. -/
def literalOf? (t : Token) : Option (Except Cause Expr) :=
  match t.kind with
  | .int =>
    some <| match Decimal.readInt64? t.text.toList with
      | some i => .ok (.literal (.int i))
      | none => .error (.integerOutOfRange t.text)
  | .float =>
    some <| match Decimal.readDouble? t.text.toList with
      | some x => .ok (.literal (.float x))
      | none => .error (.malformedNumber t.text)
  | .string => some (.ok (.literal (.str t.text)))
  | .keyword =>
    match t.text with
    | "true" => some (.ok (.literal (.bool true)))
    | "false" => some (.ok (.literal (.bool false)))
    | "null" => some (.ok (.literal .null))
    | _ => none
  | _ => none

/-- Lifts a verdict on a token, whose place a fault gets. -/
def Parse.settle {α : Type} (t : Token) : Except Cause α → Parse α
  | .ok a => return a
  | .error cause => failAt t cause

end TradingRules.Expr

namespace TradingRules.Expr.Phrase

open Parse

mutual

/-- Each phrase takes fuel, which bounds the nesting of phrases as `maxDepth` bounds that of levels. -/
def expression : Nat → Parse Expr
  | 0 => failHere fun _ => .nestedTooDeeply
  | fuel + 1 => nested do
    let condition ← chain fuel .or
    if ← acceptOperator "?" then
      let yes ← expression fuel
      expectOperator ":"
      let no ← expression fuel
      return .ternary condition yes no
    else return condition

/-- `operand (operator operand)*` of one level. -/
def chain : Nat → Level → Parse Expr
  | 0, _ => failHere fun _ => .nestedTooDeeply
  | fuel + 1, level => withOwnPeak do
    let left ← operand fuel level
    chainTail fuel level false left

def operand : Nat → Level → Parse Expr
  | 0, _ => failHere fun _ => .nestedTooDeeply
  | fuel + 1, level =>
    match level.tighter? with
    | some tighter => chain fuel tighter
    | none => unary fuel

/-- `stacked` says that the levels are counted from the peak of the first operand already. -/
def chainTail : Nat → Level → (stacked : Bool) → Expr → Parse Expr
  | 0, _, _, _ => failHere fun _ => .nestedTooDeeply
  | fuel + 1, level, stacked, left => do
    match ← level.acceptFrom with
    | none => return left
    | some op =>
      unless stacked do stack
      enter
      let right ← operand fuel level
      chainTail fuel level true (.binary op left right)

def unary : Nat → Parse Expr
  | 0 => failHere fun _ => .nestedTooDeeply
  | fuel + 1 => nested do
    if ← accept fun t => t.isOperator "!" || t.isKeyword "not" then
      return .unary .not (← unary fuel)
    else if ← acceptOperator "-" then return negated (← unary fuel)
    else postfixed fuel

def postfixed : Nat → Parse Expr
  | 0 => failHere fun _ => .nestedTooDeeply
  | fuel + 1 => withOwnPeak do
    let e ← primary fuel
    postfixTail fuel false e

/-- Members, method calls and indices after a phrase. -/
def postfixTail : Nat → (stacked : Bool) → Expr → Parse Expr
  | 0, _, _ => failHere fun _ => .nestedTooDeeply
  | fuel + 1, stacked, e => do
    if ← acceptOperator "." then
      unless stacked do stack
      enter
      let name ← expectIdentifier
      if ← acceptDelimiter "(" then
        let args ← arguments fuel
        postfixTail fuel true (ofMethodForm e name args)
      else postfixTail fuel true (.member e name)
    else if ← acceptDelimiter "[" then
      unless stacked do stack
      enter
      let key ← expression fuel
      expectDelimiter "]"
      postfixTail fuel true (.index e key)
    else return e

/-- Arguments behind an opening bracket, through the closing one. -/
def arguments : Nat → Parse (List Expr)
  | 0 => failHere fun _ => .nestedTooDeeply
  | fuel + 1 => do
    if ← acceptDelimiter ")" then return [] else moreArguments fuel

def moreArguments : Nat → Parse (List Expr)
  | 0 => failHere fun _ => .nestedTooDeeply
  | fuel + 1 => do
    let e ← expression fuel
    if ← acceptDelimiter ")" then return [e]
    else if ← acceptDelimiter "," then return e :: (← moreArguments fuel)
    else failHere (.expected "',' or ')'")

/-- Items behind an opening square bracket, through the closing one; a comma may follow the last. -/
def items : Nat → Parse (List Expr)
  | 0 => failHere fun _ => .nestedTooDeeply
  | fuel + 1 => do
    if ← acceptDelimiter "]" then return []
    else
      let e ← expression fuel
      if ← acceptDelimiter "]" then return [e]
      else if ← acceptDelimiter "," then return e :: (← items fuel)
      else failHere (.expected "',' or ']'")

def primary : Nat → Parse Expr
  | 0 => failHere fun _ => .nestedTooDeeply
  | fuel + 1 => do
    match ← next? with
    | none => failHere (.expected "expression")
    | some t =>
      match literalOf? t with
      | some verdict => do skip; settle t verdict
      | none =>
        if t.kind = .keyword then failAt t (.keywordForExpression t.text)
        else if t.kind = .identifier then
          skip
          if ← acceptDelimiter "(" then
            let args ← arguments fuel
            settle t (ofFunctionForm t.text args)
          else return .ident t.text
        else if t.isDelimiter "(" then
          skip
          let e ← expression fuel
          expectDelimiter ")"
          return e
        else if t.isDelimiter "[" then
          skip
          return .list (← items fuel)
        else failAt t (.expectedExpression t.text)

end

/-- An expression and nothing after it. -/
def whole (fuel : Nat) : Parse Expr := do
  let e ← expression fuel
  unless (← get).tokens.isEmpty do failHere .trailing
  return e

end TradingRules.Expr.Phrase

namespace TradingRules.Expr

/-- The expression a list of tokens spells. The first fault token decides before the grammar does. -/
def ofTokens (tokens : List Token) : Except Fault Expr :=
  match tokens.findSome? fun t => t.fault?.map fun f => (t, f) with
  | some (t, f) => .error ⟨.lexical f t.text, some t.place⟩
  | none =>
    if tokens.isEmpty then .error ⟨.empty, some .start⟩
    else ((Phrase.whole (32 * (tokens.length + 1))).run ⟨tokens, 0, 0⟩).map Prod.fst

end TradingRules.Expr
