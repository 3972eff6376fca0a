import TradingRules.Validation.Problem
import TradingRules.Validation.EditDistance
import TradingRules.Expr.Compiled
import TradingRules.Eval.Evaluator

/-!
# Validating a source text

Each pass looks at all tokens of the recovering lexer on its own. The grammar is asked only when the
passes found nothing to say.
-/

namespace TradingRules.Validation

def opens (t : Token) : Bool := t.isDelimiter "(" || t.isDelimiter "["

def closes (t : Token) : Bool := t.isDelimiter ")" || t.isDelimiter "]"

def opening (closing : Token) : String := if closing.text = ")" then "(" else "["

/-- `stack` holds the brackets open before, innermost first. A closing bracket of the wrong kind
closes the innermost one all the same. -/
def bracketsFrom (stack : List Token) : List Token → List Problem
  | [] => stack.reverse.map fun t => .ofToken t (.unclosed t.text)
  | t :: rest =>
    if opens t then bracketsFrom (t :: stack) rest
    else if closes t then
      match stack with
      | [] => .ofToken t (.unopened t.text) :: bracketsFrom [] rest
      | o :: stack =>
        if o.text = opening t then bracketsFrom stack rest
        else
          .ofToken t (.mismatched t.text o.text o.place.line o.place.column) ::
            bracketsFrom stack rest
    else bracketsFrom stack rest

def brackets (tokens : List Token) : List Problem := bracketsFrom [] tokens

def lexical (tokens : List Token) : List Problem :=
  tokens.filterMap fun t => t.fault?.map fun f => .ofToken t (.lexical f t.text)

def questions (pending : List Token) : List Problem :=
  pending.reverse.map fun t => .ofToken t .questionAlone

/-- `pending` holds the question marks without a colon in the innermost bracket, last first, and
`outer` those of the brackets around. -/
def ternariesFrom (pending : List Token) (outer : List (List Token)) :
    List Token → List Problem
  | [] => (outer.reverse.flatMap questions) ++ questions pending
  | t :: rest =>
    if opens t then ternariesFrom [] (pending :: outer) rest
    else if closes t then
      match outer with
      | [] => ternariesFrom pending [] rest
      | around :: outer => questions pending ++ ternariesFrom around outer rest
    else if t.isDelimiter "," then questions pending ++ ternariesFrom [] outer rest
    else if t.isOperator "?" then ternariesFrom (t :: pending) outer rest
    else if t.isOperator ":" then
      match pending with
      | [] => .ofToken t .colonAlone :: ternariesFrom [] outer rest
      | _ :: pending => ternariesFrom pending outer rest
    else ternariesFrom pending outer rest

/-- Every `?` needs a `:` inside the same bracket and before the next comma there. -/
def ternaries (tokens : List Token) : List Problem := ternariesFrom [] [] tokens

/-- The names in call position: identifiers before an opening bracket. -/
def callees : List Token → List Token
  | t :: next :: rest =>
    if t.kind = .identifier ∧ next.isDelimiter "(" then t :: callees (next :: rest)
    else callees (next :: rest)
  | _ => []

def closer (name : String) (best : Option (Nat × String)) (candidate : String) :
    Option (Nat × String) :=
  let d := editDistance name candidate
  if 2 < d then best
  else match best with
    | none => some (d, candidate)
    | some (e, other) =>
      if d < e ∨ (d = e ∧ candidate < other) then some (d, candidate) else best

/-- The nearest name within distance two, of equally near ones the first in name order. -/
def suggest? (known : List String) (name : String) : Option String :=
  (known.foldl (closer name) none).map Prod.snd

def unknownFunctions (known : List String) (tokens : List Token) : List Problem :=
  ((callees tokens).filter fun t => t.text ∉ known).map fun t =>
    .ofToken t (.unknownFunction t.text (suggest? known t.text))

/-- A declared name is used where it stands as an identifier, called or not. -/
def unusedFunctions (extra : List String) (tokens : List Token) : List Problem :=
  let mentioned := (tokens.filter fun t => t.kind == .identifier).map Token.text
  (extra.filter (· ∉ mentioned)).map fun name => ⟨1, 1, .unusedFunction name⟩

def grammar (source : String) (tokens : List Token) : List Problem :=
  match Expr.ofTokensOf source tokens with
  | .ok _ => []
  | .error e => [⟨e.place.line, e.place.column, .grammar e.cause⟩]

/-- `before` is the token in front. -/
def floatEqualitiesFrom (before : Option Token) : List Token → List Problem
  | [] => []
  | t :: rest =>
    let isFloat (t : Token) : Bool := t.kind == .float
    let found :=
      if (t.isOperator "==" || t.isOperator "!=") && (before.any isFloat || rest.head?.any isFloat)
      then [Problem.ofToken t (.floatEquality t.text)] else []
    found ++ floatEqualitiesFrom (some t) rest

def floatEqualities (tokens : List Token) : List Problem := floatEqualitiesFrom none tokens

/-- The findings of the passes that do not need the grammar. -/
def tokenProblems (known extra : List String) (tokens : List Token) : List Problem :=
  brackets tokens ++ lexical tokens ++ ternaries tokens ++
    unknownFunctions (known ++ extra) tokens ++ unusedFunctions extra tokens

/-- All problems, ordered by place. `extra` are names of functions that the caller declares besides
those known. -/
def problems (known extra : List String) (source : String) : List Problem :=
  let tokens := Token.recovering source
  if tokens.isEmpty then [⟨1, 1, .empty⟩]
  else
    let found := tokenProblems known extra tokens
    let found :=
      if found.isEmpty then grammar source tokens ++ floatEqualities tokens else found
    found.mergeSort Problem.notAfter

/-- A spent limit is noticed after the first pass; a text without tokens has none. -/
def problemsWithin (limit : Limit) (known extra : List String) (source : String) :
    Except Failure (List Problem) :=
  match limit.spent? with
  | some failure =>
    if (Token.recovering source).isEmpty then .ok (problems known extra source) else .error failure
  | none => .ok (problems known extra source)

end TradingRules.Validation
