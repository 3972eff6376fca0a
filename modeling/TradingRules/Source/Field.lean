import TradingRules.Config.Basic
import TradingRules.Json.Record
import TradingRules.Value.Basic

/-!
# Described variables

A source provides variables below its root. What it can provide is known beforehand from a table of
fields; what it does provide carries the description of its field.
-/

namespace TradingRules

/-- A variable with where it comes from and what is known about it. -/
structure VariableInfo where
  source : String
  type : String
  description : String
  unit : Option String
  value : Value

/-- Variables by name. -/
abbrev Catalog := Dict VariableInfo

structure Field where
  name : String
  type : VarType
  unit : Option String
  description : String
  deriving DecidableEq, Repr

namespace Field

def qualified (root name : String) : String := root ++ "." ++ name

def info (root : String) (f : Field) (v : Value) : String × VariableInfo :=
  (qualified root f.name, ⟨root, f.type.name, f.description, f.unit, v⟩)

/-- The variables of the fields that have a value. -/
def provide (root : String) (fields : List Field) (values : List (String × Value)) :
    List (String × VariableInfo) :=
  fields.filterMap fun f => (values.lookup f.name).map (f.info root)

/-- All variables of a table, without values. -/
def catalog (root : String) (fields : List Field) : List (String × VariableInfo) :=
  fields.map fun f => f.info root .null

end Field

/-- A field with a value to fall back on, which also says how the field is read. -/
structure Setting where
  name : String
  default : Value
  unit : Option String
  description : String

namespace Setting

def field (s : Setting) : Field := ⟨s.name, s.default.varType?.getD .str, s.unit, s.description⟩

/-- The value in a section of a configuration. One that is not of the right kind counts as absent. -/
def ofConfig (c : Config) (heading : String) (s : Setting) : Value :=
  match s.default with
  | .str d => .str ((c.string? heading s.name).getD d)
  | .int d => .int ((c.int? heading s.name).getD d)
  | .float d => .float ((c.float? heading s.name).getD d)
  | .bool d => .bool ((c.bool? heading s.name).getD d)
  | d => d

def ofJson? (s : Setting) (j : Json) : Option Value :=
  match s.default with
  | .str _ => (Json.asString? j).map .str
  | .int _ => (Json.asInt64? j).map .int
  | .float _ => (Json.asDouble? j).map .float
  | .bool _ => (Json.asBool? j).map .bool
  | _ => none

/-- The values in a record; one that is not of the right kind spoils the record. -/
def ofFields? (f : Json.Fields) (settings : List Setting) : Option (List (String × Value)) :=
  settings.mapM fun s => (f.withDefault s.name s.default s.ofJson?).map (s.name, ·)

end Setting

end TradingRules
