import TradingRules.Expr.Basic
import TradingRules.Value.Text
import TradingRules.Text.Quoted

/-!
# Expressions as text

Binary and ternary operations stand in brackets, so that the text does not depend on precedence. A
string literal is quoted with escapes.
-/

namespace TradingRules.Expr

def literalText : Value → String
  | .str s => Text.quoted s
  | v => v.text

mutual

@[simp] def text : Expr → String
  | .literal v => literalText v
  | .ident name => name
  | .member target field => text target ++ "." ++ field
  | .index target key => text target ++ "[" ++ text key ++ "]"
  | .call function args => function ++ "(" ++ textAll args ++ ")"
  | .unary .not operand => "!" ++ text operand
  | .unary .negate operand => "-" ++ text operand
  | .binary op left right => "(" ++ text left ++ " " ++ op.symbol ++ " " ++ text right ++ ")"
  | .ternary condition yes no =>
    "(" ++ text condition ++ " ? " ++ text yes ++ " : " ++ text no ++ ")"
  | .list items => "[" ++ textAll items ++ "]"
  | .comprehension kind range var body =>
    text range ++ "." ++ kind.name ++ "(" ++ var ++ ", " ++ text body ++ ")"
  | .has target => "has(" ++ text target ++ ")"

@[simp] def textAll : List Expr → String
  | [] => ""
  | [e] => text e
  | e :: rest => text e ++ ", " ++ textAll rest

end

theorem text_null : text (.literal .null) = "null" := by
  rw [text, literalText, Value.text]
  simp

theorem text_bool (b : Bool) : text (.literal (.bool b)) = if b then "true" else "false" := by
  rw [text, literalText, Value.text]
  simp

end TradingRules.Expr
