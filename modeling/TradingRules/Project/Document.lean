import TradingRules.Project.Basic
import TradingRules.Json.Record
import TradingRules.Value.Json
import TradingRules.Text.Blank

/-!
# Project files

A project is kept as a JSON document: a version, the project's name and the definitions by name. A
unit that is not there and a protection that is not set are left out.
-/

namespace TradingRules.Project

/-- A definition as it is written down; nothing about it is checked yet. -/
structure Definition where
  type : String
  value : Value
  description : String
  category : String
  unit : Option String
  tags : List String
  readonly : Bool

/-- A value stands inside the document, the definitions and its own definition. -/
def value? (j : Json) : Option Value :=
  if j.readable && j.depth + 3 ≤ Json.maxDepth then some (Value.ofJson j) else none

def definition? (j : Json) : Option Definition := do
  let f ← Json.fields?
    ["type", "value", "description", "category", "unit", "tags", "readonly"] j
  return {
    type := ← f.required "type" Json.asString?
    value := ← f.required "value" value?
    description := ← f.withDefault "description" "" Json.asString?
    category := ← f.withDefault "category" ProjectVariable.defaultCategory Json.asString?
    unit := ← f.withDefault "unit" none (Json.asOption? Json.asString?)
    tags := ← f.withDefault "tags" [] (Json.asList? Json.asString?)
    readonly := ← f.withDefault "readonly" false Json.asBool? }

/-- Version, name and definitions in name order; of two with one name the later stays. -/
def document? (text : String) : Option (String × String × Dict Definition) := do
  let f ← Json.fields? ["version", "project_name", "variables"] (← Json.ofText? text)
  let version ← f.required "version" Json.asString?
  let name ← f.required "project_name" Json.asString?
  let definitions ← f.withDefault "variables" [] (Json.asMembers? definition?)
  return (version, name, Dict.ofList definitions)

def addDefinition (p : Project) (entry : String × Definition) : Except Refusal Project := do
  let (name, d) := entry
  match VarType.ofName? d.type with
  | none => throw (.about name (.unknownType d.type))
  | some type =>
    let v ← ProjectVariable.typed name type d.value
    accepted <| p.add { v with
      description := d.description
      category := d.category
      unit := d.unit
      tags := d.tags
      readonly := d.readonly }

/-- The project that a text describes. Definitions are checked in name order. -/
def ofText (text : String) : Except Refusal Project :=
  match document? text with
  | none => .error ⟨none, none, .malformed⟩
  | some (version, name, definitions) =>
    if (Text.trim version.toList).isEmpty then .error ⟨none, none, .emptyVersion⟩
    else definitions.foldlM addDefinition ⟨version, name, []⟩

def ofVariable (v : ProjectVariable) : Json :=
  .obj <|
    [("type", .str v.type.name), ("value", v.value.toJson), ("description", .str v.description),
      ("category", .str v.category)] ++
    (v.unit.map fun unit => ("unit", Json.str unit)).toList ++
    [("tags", .arr (v.tags.map Json.str))] ++
    (if v.readonly then [("readonly", Json.bool true)] else [])

def toJson (p : Project) : Json :=
  .obj [("version", .str p.version), ("project_name", .str p.name),
    ("variables", .obj (Dict.mapValues ofVariable p.entries))]

def text (p : Project) : String := p.toJson.document

end TradingRules.Project
