import TradingRules.Eval.Context
import TradingRules.Project.Store
import TradingRules.Source.Bot
import TradingRules.Source.Chart
import TradingRules.Source.OpenTrade
import TradingRules.Source.Strategy

/-!
# Contexts from sources

A context is put together in layers: chart, bot, strategy, trade, project, indicators, regime and
last the overrides. A later layer wins where two give the same name; a source that is absent gives
nothing.
-/

namespace TradingRules

/-- A project is given as it is, or as the path of its file. -/
inductive ProjectSource where
  | file (path : String)
  | loaded (p : Project)

structure Sources where
  chart : Option Chart
  bot : Option Bot
  strategy : Option Strategy
  trade : Option OpenTrade
  project : Option ProjectSource
  indicators : Option (Dict Value)
  regime : Option (Dict Value)
  overrides : Dict Value
  clock : Instant

namespace Sources

def none (clock : Instant) : Sources :=
  ⟨.none, .none, .none, .none, .none, .none, .none, [], clock⟩

/-- A name that stands below the root already is taken as it is. -/
def below (root name : String) : String :=
  if (root ++ ".").toList.isPrefixOf name.toList then name else Field.qualified root name

def supplied (root description : String) (values : Dict Value) :
    List (String × VariableInfo) :=
  values.map fun (name, v) => (below root name, ⟨root, v.typeName, description, Option.none, v⟩)

def ofProject (p : Project) : List (String × VariableInfo) :=
  p.entries.map fun (name, v) => (name, ⟨"project", v.type.name, v.description, v.unit, v.value⟩)

def overriding (values : Dict Value) : List (String × VariableInfo) :=
  values.map fun (name, v) =>
    (name, ⟨"override", v.typeName, "Runtime override", Option.none, v⟩)

/-- The entries of a source that may be absent. -/
def layer {α : Type} (source : Option α) (entries : α → List (String × VariableInfo)) :
    List (String × VariableInfo) :=
  (source.map entries).getD []

/-- All variables, given the project if there is one. -/
def catalog (s : Sources) (project : Option Project) : Catalog :=
  Dict.ofList <|
    layer s.chart Chart.provided ++ layer s.bot Bot.provided ++
    layer s.strategy Strategy.provided ++ layer s.trade OpenTrade.provided ++
    layer project ofProject ++
    layer s.indicators (supplied "indicators" "Indicator value supplied by the caller") ++
    layer s.regime (supplied "regime" "Regime value supplied by the caller") ++
    overriding s.overrides

/-- All names that the fixed sources can give, without values. -/
def known : Catalog :=
  Dict.ofList <|
    Field.catalog Chart.root Chart.fields ++ Field.catalog Bot.root Bot.fields ++
    Field.catalog Strategy.root Strategy.fields ++ Field.catalog OpenTrade.root OpenTrade.fields

end Sources

def Catalog.context (c : Catalog) (clock : Instant) : Context :=
  ⟨Dict.mapValues VariableInfo.value c, clock⟩

/-- Puts contexts together, counts how many, and loads projects through a store if it has one. -/
structure Assembly where
  store : Option Project.Store
  builds : Nat

namespace Assembly

def withoutStore : Assembly := ⟨none, 0⟩

def withStore (store : Project.Store) : Assembly := ⟨some store, 0⟩

/-- The project of a source. A file that cannot be read counts as absent, one that is wrong does
not. -/
def project (a : Assembly) (disk : Disk) :
    Option ProjectSource → Except Project.Refusal (Option Project) × Assembly
  | none => (.ok none, a)
  | some (.loaded p) => (.ok (some p), a)
  | some (.file path) =>
    match a.store with
    | none => (.ok none, a)
    | some store =>
      let (found, store) := store.load disk path
      let a := { a with store := some store }
      match found with
      | .ok p => (.ok (some p), a)
      | .error (.invalid refusal) => (.error refusal, a)
      | .error _ => (.ok none, a)

/-- The variables of the sources. -/
def build (a : Assembly) (disk : Disk) (s : Sources) : Except Project.Refusal Catalog × Assembly :=
  let (project, a) := { a with builds := a.builds + 1 }.project disk s.project
  (project.map s.catalog, a)

/-- The variables of the sources beside all names that sources could give. -/
def available (a : Assembly) (disk : Disk) (s : Sources) :
    Except Project.Refusal Catalog × Assembly :=
  let (built, a) := a.build disk s
  (built.map fun c => c.foldl (fun all (name, info) => Dict.insert name info all) Sources.known, a)

end Assembly

end TradingRules
