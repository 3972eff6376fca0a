import TradingRules.Dict
import TradingRules.Double.Magnitude

/-!
# Values

What a context holds, a function takes and an expression yields. Integers are 64-bit words; two
values are compared either strictly or with integers widened to doubles.
-/

namespace TradingRules

/-- Maps are in name order and only arise during evaluation: a folded namespace, a bar. -/
inductive Value where
  | null
  | bool (b : Bool)
  | int (i : Int64)
  | float (x : Double)
  | str (s : String)
  | list (items : List Value)
  | map (fields : List (String × Value))
  deriving Inhabited

/-- The types a variable can be declared with. -/
inductive VarType where
  | float
  | int
  | bool
  | str
  | list
  deriving DecidableEq, Repr

namespace VarType

def name : VarType → String
  | .float => "float"
  | .int => "int"
  | .bool => "bool"
  | .str => "string"
  | .list => "list"

def ofName? : String → Option VarType
  | "float" | "double" => some .float
  | "int" => some .int
  | "bool" => some .bool
  | "string" => some .str
  | "list" => some .list
  | _ => none

theorem ofName?_name (t : VarType) : ofName? t.name = some t := by cases t <;> rfl

end VarType

namespace Value

def typeName : Value → String
  | .null => "null_type"
  | .bool _ => "bool"
  | .int _ => "int"
  | .float _ => "double"
  | .str _ => "string"
  | .list _ => "list"
  | .map _ => "map"

def varType? : Value → Option VarType
  | .bool _ => some .bool
  | .int _ => some .int
  | .float _ => some .float
  | .str _ => some .str
  | .list _ => some .list
  | .null | .map _ => none

/-- An integer is accepted where a float is declared; otherwise the types are equal. -/
def fits (v : Value) (declared : VarType) : Bool :=
  match v, declared with
  | .int _, .float => true
  | v, declared => v.varType? == some declared

def isNull : Value → Bool
  | .null => true
  | _ => false

def isNumber : Value → Bool
  | .int _ | .float _ => true
  | _ => false

def asDouble? : Value → Option Double
  | .int i => some (.ofInt64 i)
  | .float x => some x
  | _ => none

def asInt? : Value → Option Int64
  | .int i => some i
  | _ => none

def asBool? : Value → Option Bool
  | .bool b => some b
  | _ => none

def asString? : Value → Option String
  | .str s => some s
  | _ => none

def asList? : Value → Option (List Value)
  | .list items => some items
  | _ => none

def asMap? : Value → Option (Dict Value)
  | .map fields => some fields
  | _ => none

mutual

/-- Strict equality: one kind, and floats as numbers, so that a NaN differs from itself. -/
@[simp] def same : Value → Value → Bool
  | .null, .null => true
  | .bool a, .bool b => a == b
  | .int a, .int b => a == b
  | .float a, .float b => a == b
  | .str a, .str b => a == b
  | .list a, .list b => sameItems a b
  | .map a, .map b => sameFields a b
  | _, _ => false

@[simp] def sameItems : List Value → List Value → Bool
  | [], [] => true
  | a :: as, b :: bs => same a b && sameItems as bs
  | _, _ => false

@[simp] def sameFields : List (String × Value) → List (String × Value) → Bool
  | [], [] => true
  | (j, a) :: as, (k, b) :: bs => j == k && same a b && sameFields as bs
  | _, _ => false

end

mutual

/-- Equality that widens an integer beside a float, at every depth. -/
def looseEq : Value → Value → Bool
  | .null, .null => true
  | .bool a, .bool b => a == b
  | .int a, .int b => a == b
  | .float a, .float b => a == b
  | .int a, .float b => .ofInt64 a == b
  | .float a, .int b => .ofInt64 b == a
  | .str a, .str b => a == b
  | .list a, .list b => looseEqItems a b
  | .map a, .map b => looseEqFields a b
  | _, _ => false

def looseEqItems : List Value → List Value → Bool
  | [], [] => true
  | a :: as, b :: bs => looseEq a b && looseEqItems as bs
  | _, _ => false

def looseEqFields : List (String × Value) → List (String × Value) → Bool
  | [], [] => true
  | (j, a) :: as, (k, b) :: bs => j == k && looseEq a b && looseEqFields as bs
  | _, _ => false

end

/-- The order of two numbers, two strings or two booleans; `none` for other pairs and beside a
NaN. Integers are compared exactly. -/
def order? : Value → Value → Option Ordering
  | .int a, .int b => some (compare a b)
  | .str a, .str b => some (compare a b)
  | .bool a, .bool b => some (compare a b)
  | a, b =>
    match a.asDouble?, b.asDouble? with
    | some x, some y =>
      if x < y then some .lt else if x == y then some .eq else if y < x then some .gt else none
    | _, _ => none

end Value

end TradingRules
