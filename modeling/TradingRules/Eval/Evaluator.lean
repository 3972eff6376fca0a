import TradingRules.Builtin.Function
import TradingRules.Eval.Operators

/-!
# Evaluating expressions

Names are looked up among the variables of the enclosing comprehensions, innermost first, then in the
context. A path is first looked up whole and then field by field. `&&`, `||` and `?:` leave the
operand they do not need unevaluated.
-/

namespace TradingRules

/-- The variables of the enclosing comprehensions, innermost first. -/
abbrev Scope := List (String × Value)

namespace Scope

def find? (s : Scope) (name : String) : Option Value := s.lookup name

def binds (s : Scope) (name : String) : Bool := (s.lookup name).isSome

end Scope

namespace Eval

variable {σ : Type}

def wantBool (operation : String) (v : Value) : Run σ Bool :=
  match v with
  | .bool b => return b
  | v => throw (.typeMismatch operation "bool" v.typeName)

/-- The value of `name` behind a point. -/
def fieldOf (missing : Failure) (field : String) (base : Value) : Run σ Value :=
  match base with
  | .map fields =>
    match Dict.find? field fields with
    | some v => return v
    | none => throw missing
  | v => throw (.typeMismatch ("." ++ field) "map" v.typeName)

/-- What a comprehension goes through: the elements of a list, the names of a map. -/
def elements (kind : Comprehension) (range : Value) : Run σ (List Value) :=
  match range with
  | .list items => return items
  | .map fields => return fields.map fun (name, _) => .str name
  | v => throw (.typeMismatch kind.name "list or map" v.typeName)

/-- Runs an action that may lack a variable. -/
def orMissing {α : Type} (action : Run σ α) (instead : Run σ α) : Run σ α :=
  tryCatch action fun e =>
    match e with
    | .unknownVariable _ => instead
    | e => throw e

def wantPredicate (kind : Comprehension) (v : Value) : Run σ Bool :=
  match v with
  | .bool b => return b
  | v => throw (.typeMismatch kind.name "bool predicate" v.typeName)

/-- Goes through the elements from the left until the answer is known. `body` evaluates the body with
an element as the variable; `matched` says whether one element has matched already. -/
def comprehend (kind : Comprehension) (body : Value → Run σ Value) (matched : Bool) :
    List Value → Run σ Value
  | [] =>
    match kind with
    | .all => return .bool true
    | .exists => return .bool false
    | .existsOne => return .bool matched
    | .map | .filter => return .list []
  | item :: rest => do
    let v ← body item
    match kind with
    | .map => consing v (comprehend kind body matched rest)
    | kind =>
      let keep ← wantPredicate kind v
      match kind with
      | .all => if keep then comprehend kind body matched rest else return .bool false
      | .exists => if keep then return .bool true else comprehend kind body matched rest
      | .existsOne =>
        if keep && matched then return .bool false
        else comprehend kind body (matched || keep) rest
      | _ =>
        if keep then consing item (comprehend kind body matched rest)
        else comprehend kind body matched rest
where
  /-- One more element in front of the list that the rest yields. -/
  consing (v : Value) (rest : Run σ Value) : Run σ Value := do
    match ← rest with
    | .list items => return .list (v :: items)
    | other => return other

variable [RegimeHost σ] (registry : Registry) (context : Context)

mutual

def eval : Scope → Expr → Run σ Value
  | _, .literal v => return v
  | scope, .ident name =>
    match scope.find? name with
    | some v => return v
    | none =>
      match context.lookup? name with
      | some v => return v
      | none => throw (.unknownVariable name)
  | scope, .member target field => do
    let path := (Expr.member target field).path?
    let bound := (target.root?.map scope.binds).getD false
    let missing := Failure.unknownVariable (path.getD field)
    let whole := if bound then none else path.bind context.lookup?
    match whole with
    | some v => return v
    | none =>
      let base ←
        if path.isSome then orMissing (eval scope target) (throw missing) else eval scope target
      fieldOf missing field base
  | scope, .index target key => do
    let base ← eval scope target
    let key ← eval scope key
    Run.ofExcept (base.index key)
  | scope, .call function args => do
    let values ← evalAll scope args
    registry.call context function values
  | scope, .unary op operand => do
    Run.ofExcept (op.apply (← eval scope operand))
  | scope, .binary .and left right => do
    if ← wantBool "&&" (← eval scope left) then
      return .bool (← wantBool "&&" (← eval scope right))
    else return .bool false
  | scope, .binary .or left right => do
    if ← wantBool "||" (← eval scope left) then return .bool true
    else return .bool (← wantBool "||" (← eval scope right))
  | scope, .binary op left right => do
    let l ← eval scope left
    let r ← eval scope right
    Run.ofExcept (op.apply l r)
  | scope, .ternary condition yes no => do
    if ← wantBool "?:" (← eval scope condition) then eval scope yes else eval scope no
  | scope, .list items => return .list (← evalAll scope items)
  | scope, .comprehension kind range var body => do
    let items ← elements kind (← eval scope range)
    comprehend kind (fun item => eval ((var, item) :: scope) body) false items
  | scope, .has target =>
    orMissing (do let _ ← eval scope target; return .bool true) (return .bool false)

def evalAll : Scope → List Expr → Run σ (List Value)
  | _, [] => return []
  | scope, e :: rest => do
    let v ← eval scope e
    return v :: (← evalAll scope rest)

end

end Eval

/-- A time limit in milliseconds. The run of time is not part of this model: a limit of zero is spent
at once, any other is never reached. -/
abbrev Limit := Option Nat

def Limit.spent? : Limit → Option Failure
  | some 0 => some (.timeout 0)
  | _ => none

/-- The value of an expression in a context. The limit is looked at before the first step. -/
def evaluate {σ : Type} [RegimeHost σ] (registry : Registry) (context : Context) (limit : Limit)
    (e : Expr) : Run σ Value :=
  match limit.spent? with
  | some failure => throw failure
  | none => Eval.eval registry context [] e

end TradingRules
