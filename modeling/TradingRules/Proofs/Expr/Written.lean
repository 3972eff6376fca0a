import TradingRules.Proofs.Expr.Height

/-!
# Expressions as they are written

A `Written` keeps what a tree has lost: brackets, the sign in front of a number, and whether a call
has its first argument in front of a point. `tree?` drops it; there is no tree if a literal has no value
(an integer must fit into 64 bits) or if `has` does not stand before one path.

`levels` is the deepest level at which anything of a written expression is read. A chain counts from
the deepest level of its first operand, one more for each step; so what `levels` says of a phrase
depends on whether a chain goes on above it, in which case it is the level of the last step.
-/

namespace TradingRules

inductive Written where
  | literal (kind : Token.Kind) (text : String)
  | ident (name : String)
  | call (name : String) (args : List Written)
  | bracketed (inner : Written)
  | list (items : List Written)
  | member (target : Written) (field : String)
  | method (target : Written) (name : String) (args : List Written)
  | index (target key : Written)
  | unary (op : UnaryOp) (operand : Written)
  | binary (op : BinaryOp) (left right : Written)
  | ternary (condition yes no : Written)

namespace Written

open TradingRules.Expr (Chain)

def literalValue? (kind : Token.Kind) (text : String) : Option Value :=
  match kind, text with
  | .int, text => (Decimal.readInt64? text.toList).map .int
  | .float, text => (Decimal.readDouble? text.toList).map .float
  | .string, text => some (.str text)
  | .keyword, "true" => some (.bool true)
  | .keyword, "false" => some (.bool false)
  | .keyword, "null" => some .null
  | _, _ => none

def ofUnary : UnaryOp → Expr → Expr
  | .not => .unary .not
  | .negate => Expr.negated

mutual

@[simp] def tree? : Written → Option Expr
  | .literal kind text => (literalValue? kind text).map .literal
  | .ident name => some (.ident name)
  | .call name args => (trees? args).bind fun args => (Expr.ofFunctionForm name args).toOption
  | .bracketed inner => tree? inner
  | .list items => (trees? items).map .list
  | .member target field => (tree? target).map (.member · field)
  | .method target name args =>
    (tree? target).bind fun e => (trees? args).map (Expr.ofMethodForm e name)
  | .index target key => (tree? target).bind fun e => (tree? key).map (.index e)
  | .unary op operand => (tree? operand).map (ofUnary op)
  | .binary op left right => (tree? left).bind fun e => (tree? right).map (.binary op e)
  | .ternary condition yes no =>
    (tree? condition).bind fun c => (tree? yes).bind fun y => (tree? no).map (.ternary c y)

@[simp] def trees? : List Written → Option (List Expr)
  | [] => some []
  | w :: rest => (tree? w).bind fun e => (trees? rest).map (e :: ·)

end

mutual

/-- The deepest level at which anything is read when `depth` levels are open before, or, if a step of
the chain `under` follows, the level from which that step counts. -/
def levels : (under : Option Chain) → (depth : Nat) → Written → Nat
  | _, depth, .literal _ _ => depth + 1
  | _, depth, .ident _ => depth + 1
  | _, depth, .call _ args => max (depth + 1) (levelsAll (depth + 2) args)
  | _, depth, .bracketed inner => levels none (depth + 2) inner
  | _, depth, .list items => max (depth + 1) (levelsAll (depth + 2) items)
  | under, depth, .member target _ =>
    let step := levels (some .steps) depth target + 1
    if under = some .steps then step else max (levels none depth target) step
  | under, depth, .method target _ args =>
    let step := levels (some .steps) depth target + 1
    if under = some .steps then step
    else max (levels none depth target) (max step (levelsAll (step + 1) args))
  | under, depth, .index target key =>
    let step := levels (some .steps) depth target + 1
    if under = some .steps then step
    else max (levels none depth target) (max step (levels none (step + 1) key))
  | _, depth, .unary _ operand => levels none (depth + 1) operand
  | under, depth, .binary op left right =>
    let step := levels (some (.operators op.level)) depth left + 1
    if under = some (.operators op.level) then step
    else max (levels none depth left) (max step (levels none step right))
  | _, depth, .ternary condition yes no =>
    max (levels none depth condition)
      (max (levels none (depth + 1) yes) (levels none (depth + 1) no))

def levelsAll (depth : Nat) : List Written → Nat
  | [] => 0
  | w :: rest => max (levels none depth w) (levelsAll depth rest)

end

end Written

end TradingRules
