import TradingRules.Value.Basic

/-!
# Expressions

The syntax tree of a rule. A method call `x.f(a)` is the call `f(x, a)`; the comprehensions bind a
variable in their body; `has` asks whether a path has a value.
-/

namespace TradingRules

inductive UnaryOp where
  | not
  | negate
  deriving DecidableEq, Repr

inductive BinaryOp where
  | or
  | and
  | eq
  | ne
  | lt
  | le
  | gt
  | ge
  | member
  | add
  | sub
  | mul
  | div
  | rem
  deriving DecidableEq, Repr

def BinaryOp.symbol : BinaryOp → String
  | .or => "||"
  | .and => "&&"
  | .eq => "=="
  | .ne => "!="
  | .lt => "<"
  | .le => "<="
  | .gt => ">"
  | .ge => ">="
  | .member => "in"
  | .add => "+"
  | .sub => "-"
  | .mul => "*"
  | .div => "/"
  | .rem => "%"

inductive Comprehension where
  | all
  | exists
  | existsOne
  | map
  | filter
  deriving DecidableEq, Repr

namespace Comprehension

def name : Comprehension → String
  | .all => "all"
  | .exists => "exists"
  | .existsOne => "exists_one"
  | .map => "map"
  | .filter => "filter"

/-- `any` is another name of `exists`. -/
def ofName? : String → Option Comprehension
  | "all" => some .all
  | "exists" | "any" => some .exists
  | "exists_one" => some .existsOne
  | "map" => some .map
  | "filter" => some .filter
  | _ => none

theorem ofName?_name (k : Comprehension) : ofName? k.name = some k := by cases k <;> rfl

end Comprehension

inductive Expr where
  | literal (v : Value)
  | ident (name : String)
  | member (target : Expr) (field : String)
  | index (target key : Expr)
  | call (function : String) (args : List Expr)
  | unary (op : UnaryOp) (operand : Expr)
  | binary (op : BinaryOp) (left right : Expr)
  | ternary (condition yes no : Expr)
  | list (items : List Expr)
  | comprehension (kind : Comprehension) (range : Expr) (var : String) (body : Expr)
  | has (target : Expr)
  deriving Inhabited

namespace Expr

/-- `a.b.c` for a chain of members that begins with a name. -/
def path? : Expr → Option String
  | .ident name => some name
  | .member target field => target.path?.map fun base => base ++ "." ++ field
  | _ => none

/-- The name at which a path begins. -/
def root? : Expr → Option String
  | .ident name => some name
  | .member target _ => target.root?
  | _ => none

mutual

/-- Equality of trees, with literals compared strictly. -/
@[simp] def same : Expr → Expr → Bool
  | .literal a, .literal b => a.same b
  | .ident a, .ident b => a == b
  | .member a f, .member b g => same a b && f == g
  | .index a i, .index b j => same a b && same i j
  | .call f as, .call g bs => f == g && sameAll as bs
  | .unary o a, .unary p b => o == p && same a b
  | .binary o a b, .binary p c d => o == p && same a c && same b d
  | .ternary a b c, .ternary d e f => same a d && same b e && same c f
  | .list as, .list bs => sameAll as bs
  | .comprehension k r x b, .comprehension l s y c => k == l && same r s && x == y && same b c
  | .has a, .has b => same a b
  | _, _ => false

@[simp] def sameAll : List Expr → List Expr → Bool
  | [], [] => true
  | a :: as, b :: bs => same a b && sameAll as bs
  | _, _ => false

end

end Expr

end TradingRules
