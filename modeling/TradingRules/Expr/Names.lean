import TradingRules.Expr.Basic

/-!
# The names an expression mentions

The free variable paths, and the functions and macros called. A path whose root is bound by an
enclosing comprehension is not free.
-/

namespace TradingRules.Expr

mutual

/-- Free paths in the order of the text; `bound` holds the variables of the comprehensions around. -/
def paths (bound : List String) : Expr → List String
  | .literal _ => []
  | .ident name => if name ∈ bound then [] else [name]
  | .member target field =>
    match (Expr.member target field).path?, target.root? with
    | some path, some root => if root ∈ bound then [] else [path]
    | _, _ => paths bound target
  | .index target key => paths bound target ++ paths bound key
  | .call _ args => pathsAll bound args
  | .unary _ operand => paths bound operand
  | .binary _ left right => paths bound left ++ paths bound right
  | .ternary condition yes no => paths bound condition ++ paths bound yes ++ paths bound no
  | .list items => pathsAll bound items
  | .comprehension _ range var body => paths bound range ++ paths (var :: bound) body
  | .has target => paths bound target

def pathsAll (bound : List String) : List Expr → List String
  | [] => []
  | e :: rest => paths bound e ++ pathsAll bound rest

end

mutual

def calls : Expr → List String
  | .literal _ | .ident _ => []
  | .member target _ => calls target
  | .index target key => calls target ++ calls key
  | .call function args => function :: callsAll args
  | .unary _ operand => calls operand
  | .binary _ left right => calls left ++ calls right
  | .ternary condition yes no => calls condition ++ calls yes ++ calls no
  | .list items => callsAll items
  | .comprehension kind range _ body => kind.name :: (calls range ++ calls body)
  | .has target => "has" :: calls target

def callsAll : List Expr → List String
  | [] => []
  | e :: rest => calls e ++ callsAll rest

end

/-- The free variable paths. -/
def freeNames (e : Expr) : Names := Names.ofList (e.paths [])

/-- The functions and macros called anywhere. -/
def calledNames (e : Expr) : Names := Names.ofList e.calls

end TradingRules.Expr
