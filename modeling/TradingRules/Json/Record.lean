import TradingRules.Json.Basic
import TradingRules.Decimal.Reading

/-!
# Reading JSON as records

A record has named fields. It is written as an object, where further members are of no interest and
no field stands twice, or as an array that holds the fields in their order and may end early.
-/

namespace TradingRules.Json

/-- The fields that are given, by name. -/
abbrev Fields := List (String × Json)

/-- The fields of a record; `none` if the document is no record of these fields. -/
def fields? (names : List String) : Json → Option Fields
  | .obj members =>
    let given := members.filter fun m => m.1 ∈ names
    if names.all fun name => (given.filter fun m => m.1 == name).length ≤ 1 then some given else none
  | .arr items => if items.length ≤ names.length then some (names.zip items) else none
  | _ => none

/-- A field that must be given. -/
def Fields.required {α : Type} (f : Fields) (name : String) (read : Json → Option α) : Option α :=
  (f.lookup name).bind read

/-- A field that may be left out. -/
def Fields.withDefault {α : Type} (f : Fields) (name : String) (default : α)
    (read : Json → Option α) : Option α :=
  match f.lookup name with
  | none => some default
  | some j => read j

def asString? : Json → Option String
  | .str s => some s
  | _ => none

def asBool? : Json → Option Bool
  | .bool b => some b
  | _ => none

/-- An integer of 64 bits. -/
def asInt64? : Json → Option Int64
  | .int i => Decimal.int64? i
  | _ => none

/-- Any number; an integer is rounded to the nearest double. -/
def asDouble? : Json → Option Double
  | .int i => some (Decimal.toDouble (decide (i < 0)) i.natAbs 0)
  | .float x => some x
  | _ => none

/-- `null` stands for nothing. -/
def asOption? {α : Type} (read : Json → Option α) : Json → Option (Option α)
  | .null => some none
  | j => (read j).map some

def asList? {α : Type} (read : Json → Option α) : Json → Option (List α)
  | .arr items => items.mapM read
  | _ => none

/-- Every member, in the order of the text. -/
def asMembers? {α : Type} (read : Json → Option α) : Json → Option (List (String × α))
  | .obj members => members.mapM fun (name, j) => (read j).map (name, ·)
  | _ => none

/-- A choice is written as its name, or as an object that gives the name `null`. -/
def asChoice? {α : Type} (ofName? : String → Option α) : Json → Option α
  | .str name => ofName? name
  | .obj [(name, .null)] => ofName? name
  | _ => none

end TradingRules.Json
