import TradingRules.Eval.Context
import TradingRules.Eval.Strict
import TradingRules.Double.Order

/-!
# Functions

A function has a signature, which is checked before its body runs, and a body. A body sees its
arguments, the context and what the host reports; one body alone, the recomputation of the regime,
does something to the host.
-/

namespace TradingRules

inductive Arity where
  | exact (n : Nat)
  | range (least most : Nat)
  | atLeast (n : Nat)
  deriving DecidableEq, Repr

namespace Arity

def accepts : Arity → Nat → Bool
  | .exact n, count => count == n
  | .range least most, count => least ≤ count && count ≤ most
  | .atLeast n, count => n ≤ count

def counted (n : Nat) : String :=
  toString n ++ if n = 1 then " argument" else " arguments"

def text : Arity → String
  | .exact n => counted n
  | .range least most => toString least ++ " to " ++ toString most ++ " arguments"
  | .atLeast n => "at least " ++ counted n

/-- How a call says how many arguments it has. -/
def ofCall (count : Nat) : String := counted count

end Arity

inductive ParamType where
  | any
  | number
  | int
  | bool
  | str
  | list
  | map
  deriving DecidableEq, Repr

namespace ParamType

def name : ParamType → String
  | .any => "any"
  | .number => "number"
  | .int => "int"
  | .bool => "bool"
  | .str => "string"
  | .list => "list"
  | .map => "map"

def ofName? : String → Option ParamType
  | "any" => some .any
  | "number" => some .number
  | "int" => some .int
  | "bool" => some .bool
  | "string" => some .str
  | "list" => some .list
  | "map" => some .map
  | _ => none

def accepts : ParamType → Value → Bool
  | .any, _ => true
  | .number, v => v.isNumber
  | .int, .int _ => true
  | .bool, .bool _ => true
  | .str, .str _ => true
  | .list, .list _ => true
  | .map, .map _ => true
  | _, _ => false

end ParamType

inductive Category where
  | math
  | predicate
  | price
  | time
  | str
  | collection
  | regime
  | custom
  deriving DecidableEq, Repr

namespace Category

def name : Category → String
  | .math => "math"
  | .predicate => "predicate"
  | .price => "price"
  | .time => "time"
  | .str => "string"
  | .collection => "collection"
  | .regime => "regime"
  | .custom => "custom"

/-- In the order of listings. -/
def all : List Category :=
  [.math, .predicate, .price, .time, .str, .collection, .regime, .custom]

def ofName? (name : String) : Option Category := all.find? fun c => c.name == name

end Category

/-- `params` are the types by position; further arguments have the last one. A macro is only known by
name: its calls are comprehensions and no calls. -/
structure Signature where
  name : String
  category : Category
  arity : Arity
  params : List ParamType
  returns : String
  description : String
  needsHost : Bool
  isMacro : Bool
  deriving DecidableEq, Repr

namespace Signature

def paramAt (s : Signature) (i : Nat) : ParamType :=
  match s.params[i]? with
  | some t => t
  | none => s.params.getLast?.getD .any

/-- The types of the parameters, those that may be left out marked. -/
def text (s : Signature) : String :=
  let names := s.params.map ParamType.name
  let names := match s.arity with
    | .exact _ => names
    | .atLeast _ => names ++ ["..."]
    | .range least _ => names.take least ++ (names.drop least).map (· ++ "?")
  s.name ++ "(" ++ String.intercalate ", " names ++ ") -> " ++ s.returns

/-- One line of help. -/
def help (s : Signature) : String :=
  if s.description = "" then s.text else s.text ++ "  " ++ s.description

def checkTypes (s : Signature) (callee : String) (i : Nat) : List Value → Except Failure Unit
  | [] => .ok ()
  | v :: rest =>
    let expected := s.paramAt i
    if expected.accepts v then checkTypes s callee (i + 1) rest
    else .error <| .argument callee
      (expected.name ++ " for argument " ++ toString (i + 1)) v.typeName

/-- What keeps a call from running: a macro, the number of arguments, the type of one. -/
def check (s : Signature) (callee : String) (args : List Value) : Except Failure Unit :=
  if s.isMacro then
    .error (.function callee ("must be written as list." ++ callee ++ "(var, expression)"))
  else if !s.arity.accepts args.length then
    .error (.argument callee s.arity.text (Arity.ofCall args.length))
  else checkTypes s callee 0 args

end Signature

inductive Body where
  | reads (f : List Value → View → Except Failure Value)
  | recomputes

structure Function where
  signature : Signature
  body : Body

namespace Function

/-- A function with a fixed number of arguments. -/
def of (category : Category) (name : String) (params : List ParamType) (returns description : String)
    (f : List Value → View → Except Failure Value) : Function :=
  ⟨⟨name, category, .exact params.length, params, returns, description, false, false⟩, .reads f⟩

def withArity (f : Function) (arity : Arity) : Function :=
  { f with signature := { f.signature with arity := arity } }

def withHost (f : Function) : Function :=
  { f with signature := { f.signature with needsHost := true } }

end Function

/-- The functions by name. -/
abbrev Registry := Dict Function

namespace Registry

def names (r : Registry) : Names := Dict.names r

/-- The functions of each category that has any, in name order. -/
def byCategory (r : Registry) : List (Category × List String) :=
  (Category.all.map fun c =>
    (c, (r.filter fun (_, f) => f.signature.category == c).map Prod.fst)).filter
      fun (_, names) => !names.isEmpty

def describe? (r : Registry) (name : String) : Option String :=
  (Dict.find? name r).map fun f => f.signature.help

/-- `none` if the name is taken and must not be replaced. -/
def register? (r : Registry) (f : Function) (overwrite : Bool) : Option Registry :=
  if !overwrite && Dict.contains r f.signature.name then none
  else some (Dict.insert f.signature.name f r)

/-- A call by name with evaluated arguments. -/
def call {σ : Type} [RegimeHost σ] (r : Registry) (context : Context) (name : String)
    (args : List Value) : Run σ Value := do
  match Dict.find? name r with
  | none => throw (.function name "unknown function")
  | some f =>
    Run.ofExcept (f.signature.check name args)
    match f.body with
    | .recomputes => return .bool (← Run.recompute)
    | .reads body =>
      let host ← get
      Run.ofExcept (body args ⟨context, host.map RegimeHost.report⟩)

end Registry

namespace Builtin

/-! ## Reading arguments -/

/-- The number at a place; a NaN where there is none. -/
def number (args : List Value) (i : Nat) : Double :=
  (args[i]?.bind Value.asDouble?).getD Double.notANumber

def integer (args : List Value) (i : Nat) : Int64 := (args[i]?.bind Value.asInt?).getD 0

def string (args : List Value) (i : Nat) : String := (args[i]?.bind Value.asString?).getD ""

def items (args : List Value) (i : Nat) : List Value := (args[i]?.bind Value.asList?).getD []

/-- The argument at a place. The signature is checked before, so that there is one. -/
def argument (args : List Value) (i : Nat) : Except Failure Value := Strict.item args i

/-- A computed number, unless it is none. -/
def finite (name : String) (x : Double) : Except Failure Value :=
  if x.isFinite then .ok (.float x)
  else .error (.function name "result is not a finite number")

def nonzero (x : Double) : Except Failure Double :=
  if x == 0 then .error .divisionByZero else .ok x

end Builtin

end TradingRules
