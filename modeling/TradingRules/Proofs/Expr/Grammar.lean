import TradingRules.Proofs.Expr.Written

/-!
# The grammar of expressions

```
expression = or [ "?" expression ":" expression ]
level      = operand | level operator operand
unary      = ( "!" | "not" | "-" ) unary | postfix
postfix    = primary | postfix "." identifier [ "(" args ")" ] | postfix "[" expression "]"
primary    = literal | identifier [ "(" args ")" ] | "(" expression ")" | "[" items "]"
```

The operands of a level are the phrases of the next tighter one, those of the tightest level the unary
phrases. Arguments and items stand between commas; one more may follow the last item.
-/

namespace TradingRules

def BinaryOp.spellings : BinaryOp → List (Token.Kind × String)
  | .or => [(.operator, "||"), (.keyword, "or")]
  | .and => [(.operator, "&&"), (.keyword, "and")]
  | .member => [(.keyword, "in")]
  | op => [(.operator, op.symbol)]

def UnaryOp.spellings : UnaryOp → List (Token.Kind × String)
  | .not => [(.operator, "!"), (.keyword, "not")]
  | .negate => [(.operator, "-")]

def Token.key (t : Token) : Token.Kind × String := (t.kind, t.text)

theorem Token.key_of_operator {t : Token} {symbol : String} (h : t.isOperator symbol = true) :
    t.key = (.operator, symbol) := by
  simpa [Token.isOperator, Token.key] using h

theorem Token.key_of_delimiter {t : Token} {symbol : String} (h : t.isDelimiter symbol = true) :
    t.key = (.delimiter, symbol) := by
  simpa [Token.isDelimiter, Token.key] using h

def Token.isLiteral (t : Token) : Bool :=
  match t.kind with
  | .int | .float | .string => true
  | .keyword => t.text ∈ ["true", "false", "null"]
  | _ => false

namespace Grammar

inductive Nonterminal where
  | expression
  | level (level : Expr.Level)
  | unary
  | postfixed
  | primary

def operand (level : Expr.Level) : Nonterminal :=
  match level.tighter? with
  | some tighter => .level tighter
  | none => .unary

/-- One or more parts with commas between; `trailing` says whether one may follow the last. -/
inductive Separated (trailing : Bool) : List (List Token) → List Token → Prop
  | one : Separated trailing [ts] ts
  | last (hcomma : comma.isDelimiter ",") (hallowed : trailing = true) :
      Separated trailing [ts] (ts ++ [comma])
  | more (hcomma : comma.isDelimiter ",") (hrest : Separated trailing parts us) :
      Separated trailing (ts :: parts) (ts ++ comma :: us)

def Listed (trailing : Bool) (parts : List (List Token)) (ts : List Token) : Prop :=
  parts = [] ∧ ts = [] ∨ Separated trailing parts ts

abbrev Part := List Token × Written

/-- The tokens of a phrase and what they spell. -/
inductive Derives : Nonterminal → List Token → Written → Prop
  | plain (h : Derives (.level .or) ts w) : Derives .expression ts w
  | ternary (hc : Derives (.level .or) ts c) (hquestion : question.isOperator "?")
      (hy : Derives .expression us y) (hcolon : colon.isOperator ":")
      (hn : Derives .expression vs n) :
      Derives .expression (ts ++ question :: (us ++ colon :: vs)) (.ternary c y n)
  | operand (h : Derives (operand level) ts w) : Derives (.level level) ts w
  | binary (hleft : Derives (.level level) ts left)
      (hop : sign.key ∈ op.spellings) (hlevel : op.level = level)
      (hright : Derives (operand level) us right) :
      Derives (.level level) (ts ++ sign :: us) (.binary op left right)
  | unary (hop : sign.key ∈ op.spellings) (h : Derives .unary ts w) :
      Derives .unary (sign :: ts) (.unary op w)
  | postfixed (h : Derives .postfixed ts w) : Derives .unary ts w
  | primary (h : Derives .primary ts w) : Derives .postfixed ts w
  | member (h : Derives .postfixed ts w) (hpoint : point.isOperator ".")
      (hfield : field.kind = .identifier) :
      Derives .postfixed (ts ++ [point, field]) (.member w field.text)
  | method {args : List Part} (h : Derives .postfixed ts w) (hpoint : point.isOperator ".")
      (hname : name.kind = .identifier) (hopen : opening.isDelimiter "(")
      (hlisted : Listed false (args.map Prod.fst) us)
      (hargs : ∀ a ∈ args, Derives .expression a.1 a.2) (hclose : closing.isDelimiter ")") :
      Derives .postfixed (ts ++ point :: name :: opening :: (us ++ [closing]))
        (.method w name.text (args.map Prod.snd))
  | index (h : Derives .postfixed ts w) (hopen : opening.isDelimiter "[")
      (hkey : Derives .expression us key) (hclose : closing.isDelimiter "]") :
      Derives .postfixed (ts ++ opening :: (us ++ [closing])) (.index w key)
  | literal (h : t.isLiteral) : Derives .primary [t] (.literal t.kind t.text)
  | ident (h : t.kind = .identifier) : Derives .primary [t] (.ident t.text)
  | call {args : List Part} (hname : name.kind = .identifier) (hopen : opening.isDelimiter "(")
      (hlisted : Listed false (args.map Prod.fst) us)
      (hargs : ∀ a ∈ args, Derives .expression a.1 a.2) (hclose : closing.isDelimiter ")") :
      Derives .primary (name :: opening :: (us ++ [closing])) (.call name.text (args.map Prod.snd))
  | bracketed (hopen : opening.isDelimiter "(") (h : Derives .expression ts w)
      (hclose : closing.isDelimiter ")") :
      Derives .primary (opening :: (ts ++ [closing])) (.bracketed w)
  | list {items : List Part} (hopen : opening.isDelimiter "[") (hlisted : Listed true (items.map Prod.fst) us)
      (hitems : ∀ a ∈ items, Derives .expression a.1 a.2) (hclose : closing.isDelimiter "]") :
      Derives .primary (opening :: (us ++ [closing])) (.list (items.map Prod.snd))

end Grammar

-- ---------------------------------------------------------------------------
-- Operators of a level
-- ---------------------------------------------------------------------------

theorem Expr.Level.operator?_eq_some {level : Level} {t : Token} {op : BinaryOp} :
    level.operator? t = some op ↔ t.key ∈ op.spellings ∧ op.level = level := by
  constructor
  · intro h
    cases level <;>
      simp only [operator?, Token.isOperator, Token.isKeyword] at h <;>
      grind [BinaryOp.level, BinaryOp.spellings, BinaryOp.symbol, Token.key]
  · rintro ⟨hkey, rfl⟩
    cases op <;>
      grind [operator?, BinaryOp.level, BinaryOp.spellings, BinaryOp.symbol, Token.key, Token.isOperator, Token.isKeyword]

end TradingRules
