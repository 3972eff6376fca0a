import TradingRules.Command.Arguments
import TradingRules.Dict
import TradingRules.Text.Search
import TradingRules.Value.Text

/-!
# Commands

What the command line can be asked for, and how it is asked.
-/

namespace TradingRules

open Arguments (Flag Given)

/-- Where the variables of an evaluation come from: paths of files, and values given directly. -/
structure SourcePaths where
  config : Option String
  candles : Option String
  project : Option String
  indicators : Option String
  overrides : List (String × Value)

/-- What may be said about a new variable. -/
structure VariableNotes where
  type : Option String
  description : Option String
  category : Option String
  unit : Option String
  deriving DecidableEq, Repr

inductive Command where
  | validate (expression : String) (functions : List String)
  | eval (expression : Option String) (sources : SourcePaths)
  | available (sources : SourcePaths)
  | checkFile (path : String)
  | showFile (path : String) (category : Option String)
  | setVariable (path name value : String) (notes : VariableNotes)
  | removeVariable (path name : String)
  | functions (category : Option String)
  | regime (candles : String) (rules : Option String)

namespace Command

/-- `name=value`; the name is trimmed and not empty. -/
def override? (text : String) : Option (String × Value) := do
  let (name, value) ← Text.splitFirst? '=' text.toList
  let name := Text.trim name
  if name.isEmpty then none
  else some (String.ofList name, Value.ofLiteral (String.ofList value))

private def sourceFlags : List Flag :=
  [⟨"config", some 'c', false, true⟩, .path "candles", .path "vars", .path "indicators",
    .texts "set"]

private def sources? (g : Given) : Option SourcePaths := do
  let overrides ← (g.values "set").mapM override?
  return ⟨g.value? "config", g.value? "candles", g.value? "vars", g.value? "indicators", overrides⟩

private def noteFlags : List Flag :=
  [.text "type", .text "description", .text "category", .text "unit"]

private def notes (g : Given) : VariableNotes :=
  ⟨g.value? "type", g.value? "description", g.value? "category", g.value? "unit"⟩

private def path? (text : String) : Option String := if text = "" then none else some text

private def ofVarsArguments? : List String → Option Command
  | "check" :: rest => do
    match ← Arguments.read? [] rest with
    | ⟨_, [path]⟩ => return .checkFile (← path? path)
    | _ => none
  | "show" :: rest => do
    let g ← Arguments.read? [.text "category"] rest
    match g.texts with
    | [path] => return .showFile (← path? path) (g.value? "category")
    | _ => none
  | "set" :: rest => do
    let g ← Arguments.read? noteFlags rest
    match g.texts with
    | [path, name, value] => return .setVariable (← path? path) name value (notes g)
    | _ => none
  | "remove" :: rest => do
    match ← Arguments.read? [] rest with
    | ⟨_, [path, name]⟩ => return .removeVariable (← path? path) name
    | _ => none
  | _ => none

/-- The command that the arguments ask for, if they are well formed. -/
def ofArguments? : List String → Option Command
  | "validate" :: rest => do
    let g ← Arguments.read? [.texts "function"] rest
    match g.texts with
    | [expression] => some (.validate expression (g.values "function"))
    | _ => none
  | "eval" :: rest => do
    let g ← Arguments.read? sourceFlags rest
    let sources ← sources? g
    match g.texts with
    | [] => some (.eval none sources)
    | [expression] => some (.eval (some expression) sources)
    | _ => none
  | "variables" :: rest => do
    let g ← Arguments.read? sourceFlags rest
    if g.texts.isEmpty then (sources? g).map .available else none
  | "vars" :: rest => ofVarsArguments? rest
  | "functions" :: rest => do
    let g ← Arguments.read? [.text "category"] rest
    if g.texts.isEmpty then some (.functions (g.value? "category")) else none
  | "regime" :: rest => do
    let g ← Arguments.read? [.path "candles", .path "rules"] rest
    let candles ← g.value? "candles"
    if g.texts.isEmpty then some (.regime candles (g.value? "rules")) else none
  | _ => none

end Command

end TradingRules
