import TradingRules.Source.Field
import TradingRules.Value.Json
import TradingRules.Value.Text

/-!
# The strategy

A few fixed settings and parameters of any names. A parameter with the name of a fixed setting is not
seen.
-/

namespace TradingRules

structure Strategy where
  values : List (String × Value)
  parameters : Dict Value

namespace Strategy

def root : String := "cfg"

def heading : String := "strategy"

def parameterHeading : String := "strategy.params"

def settings : List Setting := [
  ⟨"name", .str "", none, "Strategy name"⟩,
  ⟨"direction", .str "", none, "Allowed trade direction: long, short or both"⟩,
  ⟨"entry_expression", .str "", none, "Entry rule source"⟩,
  ⟨"exit_expression", .str "", none, "Exit rule source"⟩,
  ⟨"max_hold_bars", .int 0, some "bars", "Forced exit after this many bars; 0 disables"⟩]

def fields : List Field := settings.map Setting.field

/-- In a configuration a strategy without a direction trades in both. -/
def inConfig (s : Setting) : Setting :=
  if s.name = "direction" then { s with default := .str "both" } else s

/-- A parameter passes through JSON, in which a float that is no number is `null`. -/
def parameter (raw : String) : Value := .ofJson (Value.ofLiteral raw).toJson

def ofConfig (c : Config) : Strategy :=
  ⟨settings.map fun s => (s.name, (inConfig s).ofConfig c heading),
    Dict.ofList <| (c.keys parameterHeading).filterMap fun key =>
      (c.string? parameterHeading key).map fun raw => (key, parameter raw)⟩

def parameters? (j : Json) : Option (Dict Value) :=
  (Json.asMembers? Value.ofJson? j).map Dict.ofList

def ofJson? (j : Json) : Option Strategy := do
  let f ← Json.fields? (settings.map Setting.name ++ ["params"]) j
  return ⟨← Setting.ofFields? f settings, ← f.withDefault "params" [] parameters?⟩

/-- The rule for entries. -/
def entry (s : Strategy) : String :=
  ((s.values.lookup "entry_expression").bind Value.asString?).getD ""

def isFixed (name : String) : Bool := settings.any fun s => s.name == name

def provided (s : Strategy) : List (String × VariableInfo) :=
  Field.provide root fields s.values ++
    (s.parameters.filter fun p => !isFixed p.1).map fun (name, v) =>
      (Field.qualified root name, ⟨root, v.typeName, "Strategy parameter", none, v⟩)

end Strategy

end TradingRules
