import TradingRules.Candle.Series
import TradingRules.Command.Basic
import TradingRules.Command.Report
import TradingRules.Regime.CandleFeed
import TradingRules.Session.Basic

/-!
# Running commands

A command reads files of a disk, prints a report and may leave one file changed.
-/

namespace TradingRules.Command

abbrev Attempt := Except Trouble

/-- Work that may change the disk. It leaves a disk also when it fails. -/
abbrev Change := ExceptT Trouble (StateM Disk)

def classifier (disk : Disk) : Option String → Attempt Regime.Classifier
  | none => .ok .standard
  | some path => (Regime.Classifier.ofFile disk path).mapError .regime

/-! ## Evaluating -/

/-- A session with its sources, and a regime to ask if there are candles. -/
structure Desk where
  session : Session
  sources : Sources
  watch : Option Regime.Watch

/-- The members of a file of indicator values. -/
def indicatorFile (disk : Disk) (path : String) : Attempt (Dict Value) := do
  let text ← (disk.read path).mapError fun fault => .io fault.text
  match (Json.ofText? text).bind Value.ofJson? with
  | none => throw (.data (.noJson path))
  | some (.map fields) => return fields
  | some _ => throw (.data (.noObject path))

def merged (values more : Dict Value) : Dict Value :=
  more.foldl (fun d (name, v) => Dict.insert name v d) values

/-- The regime of a series, looked at once. -/
def watching (c : Regime.Classifier) (candles : List Candle) : Regime.Watch :=
  let frame := (Regime.CandleFeed.mk .standard candles).frame?
  ⟨((Regime.Monitor.ofClassifier c).trigger frame).2, frame⟩

def liveValues (w : Regime.Watch) : Dict Value :=
  match w.frame with
  | none => []
  | some frame => Dict.mapValues Value.float frame.live

def configOf (disk : Disk) : Option String → Attempt (Option Config × Settings)
  | none => .ok (none, .standard)
  | some path => do
    let c ← (Config.ofFile disk path).mapError .config
    (c.check).mapError .config
    return (some c, ← c.settings.mapError .config)

def deskOf (disk : Disk) (now : Instant) (p : SourcePaths) : Attempt Desk := do
  let (config, settings) ← configOf disk p.config
  let session := (Session.ofSettings settings).withStore (Counted.empty settings.projectCapacity)
  let bot := config.map Bot.ofConfig
  let series ← p.candles.mapM fun path => do
    let candles ← (Candle.seriesOfFile disk path).mapError .data
    let c ← classifier disk settings.regimeRules
    let symbol := (bot.map fun b => b.string "symbol").getD (Path.stem path)
    let timeframe := (bot.map fun b => b.string "timeframe").getD ""
    return (Chart.ofSeries? symbol timeframe candles, watching c candles)
  let watch := series.map Prod.snd
  let given ← p.indicators.mapM (indicatorFile disk)
  let indicators := merged ((watch.map liveValues).getD []) (given.getD [])
  return {
    session
    watch
    sources := {
      chart := series.bind Prod.fst
      bot
      strategy := config.map Strategy.ofConfig
      trade := none
      project := p.project.map .file
      indicators := if indicators.isEmpty then none else some indicators
      regime := watch.map fun w => w.monitor.state.values
      overrides := Dict.ofList p.overrides
      clock := now } }

/-- The rule to evaluate: the given one, or that of the strategy for entries. -/
def ruleText (d : Desk) : Option String → Attempt String
  | some expression => .ok expression
  | none =>
    let entry := (d.sources.strategy.map Strategy.entry).getD ""
    if (Text.trim entry.toList).isEmpty then
      .error (.config (.missing Strategy.heading "entry_expression"))
    else .ok entry

def catalogOf (d : Desk) (disk : Disk) : Attempt Catalog :=
  (d.session.assembly.build disk d.sources).1.mapError .project

def runEval (disk : Disk) (now : Instant) (expression : Option String) (p : SourcePaths) :
    Report :=
  let prepared : Attempt (Desk × String × Catalog) := do
    let d ← deskOf disk now p
    let source ← ruleText d expression
    return (d, source, ← catalogOf d disk)
  match prepared with
  | .error t => .failed disk t
  | .ok (d, source, catalog) =>
    match (d.session.compile source).1 with
    | .error e => .failed disk (.compile e) (Report.line (e.excerpt source))
    | .ok c =>
      let context := Catalog.context catalog d.sources.clock
      match ((d.session.value d.session.evalLimit c context).run.run d.watch).1 with
      | .error e => .failed disk (.evaluation e)
      | .ok v => .done disk (Report.line v.text)

def listVariables (disk : Disk) (now : Instant) (p : SourcePaths) : Attempt String := do
  let d ← deskOf disk now p
  let catalog ← (d.session.assembly.available disk d.sources).1.mapError .project
  return Report.lines (catalog.map fun (name, info) => Report.variableLine name info)

def runValidate (disk : Disk) (expression : String) (extra : List String) : Report :=
  let problems := Session.standard.validate extra expression
  if problems.isEmpty then .done disk (Report.line "ok")
  else
    let source := Text.lines expression
    { Report.done disk (Report.lines (problems.flatMap (Report.problemLines source))) with
      exitCode := if problems.any Validation.Problem.isError then 4 else 0 }

def listFunctions (category : Option String) : String :=
  let registry := Registry.builtins
  Report.lines <| registry.byCategory.flatMap fun (c, names) =>
    if category.all (· == c.name) then
      ("[" ++ c.name ++ "]") :: (names.filterMap registry.describe?).map ("  " ++ ·)
    else []

/-! ## Project files -/

def checkName (path : String) : Attempt Unit := (Project.checkFileName path).mapError .project

def fileOf (disk : Disk) (path : String) : Attempt Project :=
  (Project.fromDisk disk path).mapError .store

def describeFile (disk : Disk) (path : String) : Attempt String := do
  checkName path
  let p ← fileOf disk path
  return Report.line <|
    "ok: project '" ++ p.name ++ "' (version " ++ p.version ++ "), " ++ toString p.size ++
      " variables"

def listFile (disk : Disk) (path : String) (category : Option String) : Attempt String := do
  let store : Project.Store := Counted.empty Project.Store.defaultCapacity
  let p ← (store.load disk path).1.mapError .store
  let shown := match category with
    | none => Dict.values p.entries
    | some c => p.inCategory c
  return Report.lines (shown.map Report.projectLine)

/-- A value typed on the command line: JSON, or else the text itself. -/
def valueOfText (text : String) : Value :=
  ((Json.ofText? text).bind Value.ofJson?).getD (.str text)

def newVariable (name : String) (v : Value) (notes : VariableNotes) :
    Attempt ProjectVariable := do
  let plain ← match notes.type with
    | none => (ProjectVariable.ofValue name v).mapError .project
    | some t =>
      match VarType.ofName? t with
      | none => throw (.config (.invalid "vars" "type" (.unknownType t)))
      | some type => (ProjectVariable.typed name type v).mapError .project
  return { plain with
    description := notes.description.getD plain.description
    category := notes.category.getD plain.category
    unit := notes.unit }

/-- The project of a file, an empty one if there is no such file. -/
def fileOrEmpty (disk : Disk) (path : String) : Attempt Project :=
  match Project.fromDisk disk path with
  | .error (.missing _) => .ok (Project.empty (Project.nameOfFile path))
  | other => other.mapError .store

/-- The project with a variable put in, or with another value if it has the variable. -/
def withVariable (p : Project) (name : String) (v : Value) (notes : VariableNotes) :
    Attempt Project :=
  if p.contains name then (Project.accepted (p.update name v)).mapError .project
  else do
    let added ← newVariable name v notes
    (Project.accepted (p.add added)).mapError .project

def save (now : Instant) (path : String) (p : Project) : Change Unit := do
  let store : Project.Store := Counted.empty Project.Store.defaultCapacity
  let (answer, _, disk) := store.save (← get) now.seconds path p
  set disk
  answer.mapError Trouble.store

def runSet (now : Instant) (path name value : String) (notes : VariableNotes) : Change String := do
  checkName path
  let p ← fileOrEmpty (← get) path
  let p ← withVariable p name (valueOfText value) notes
  save now path p
  return Report.line ("saved " ++ name ++ " to " ++ path)

def runRemove (now : Instant) (path name : String) : Change String := do
  let p ← fileOf (← get) path
  let p ← (Project.accepted (p.remove name)).mapError Trouble.project
  save now path p
  return Report.line ("removed " ++ name ++ " from " ++ path)

def changing (disk : Disk) (change : Change String) : Report :=
  match change.run.run disk with
  | (.ok output, disk) => .done disk output
  | (.error t, disk) => .failed disk t

/-! ## The regime -/

def describeRegime (disk : Disk) (path : String) (rules : Option String) :
    Attempt String := do
  let candles ← (Candle.seriesOfFile disk path).mapError .data
  let c ← classifier disk rules
  let (changed, monitor) :=
    (Regime.Monitor.ofClassifier c).trigger (Regime.CandleFeed.mk .standard candles).frame?
  if !changed then throw (.data (.noCandles path))
  let state := monitor.state
  return Report.lines <|
    [Report.snapshotLine "current" state.current,
      Report.snapshotLine "last_closed" state.lastClosed,
      Report.padded 12 "changed" ++ " " ++ if state.changed then "true" else "false"] ++
    state.lastClosed.indicators.map fun (name, x) => Report.indicatorLine name x

/-! ## All commands -/

/-- Runs a command on a disk at a time. -/
def run (c : Command) (disk : Disk) (now : Instant) : Report :=
  match c with
  | .validate expression extra => runValidate disk expression extra
  | .eval expression sources => runEval disk now expression sources
  | .available sources => .ofExcept disk (listVariables disk now sources)
  | .checkFile path => .ofExcept disk (describeFile disk path)
  | .showFile path category => .ofExcept disk (listFile disk path category)
  | .setVariable path name value notes => changing disk (runSet now path name value notes)
  | .removeVariable path name => changing disk (runRemove now path name)
  | .functions category => .done disk (listFunctions category)
  | .regime candles rules => .ofExcept disk (describeRegime disk candles rules)

/-- The paths that a command looks at, as far as the disk tells: a configuration may name a further
file. -/
def paths (c : Command) (disk : Disk) : List String :=
  let ofSources (p : SourcePaths) : List String :=
    let rules := match p.config.map (Config.ofFile disk) with
      | some (.ok config) => (config.string? "engine" "regime_rules").toList
      | _ => []
    p.config.toList ++ p.candles.toList ++ p.project.toList ++ p.indicators.toList ++ rules
  match c with
  | .validate .. | .functions _ => []
  | .eval _ sources | .available sources => ofSources sources
  | .checkFile path | .showFile path _ | .setVariable path .. | .removeVariable path _ => [path]
  | .regime candles rules => candles :: rules.toList

end TradingRules.Command
