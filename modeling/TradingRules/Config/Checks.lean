import TradingRules.Config.Basic
import TradingRules.Calendar.Reading
import TradingRules.Disk.Basic
import TradingRules.Expr.Compiled
import TradingRules.Expr.Cache
import TradingRules.Eval.Evaluator
import TradingRules.Project.Store

/-!
# Checking configurations

The sections for the engine, the bot and the strategy are checked key by key; the first key that is
not as it has to be is reported. A key that is absent is never wrong.
-/

namespace TradingRules

/-- What is wrong with the value of a key. -/
inductive ConfigFlaw where
  | notInteger
  | notPositive
  | belowOne
  | negative
  | notPercent
  | notShare
  | notTime
  | badDirection
  | badRule (e : CompileError)
  | unknownType (name : String)

namespace ConfigFlaw

def text (key : String) : ConfigFlaw → String
  | .notInteger => key ++ " must be an integer"
  | .notPositive => key ++ " must be positive"
  | .belowOne => key ++ " must be at least 1"
  | .negative => key ++ " must be non-negative"
  | .notPercent => key ++ " must be between 0 and 100"
  | .notShare => key ++ " must be between 0 and 1"
  | .notTime => "invalid " ++ key ++ " format, expected HH:MM"
  | .badDirection => key ++ " must be long, short or both"
  | .badRule e => e.message
  | .unknownType name => "unknown variable type '" ++ name ++ "'"

end ConfigFlaw

inductive ConfigFault where
  | malformed (source : String)
  | unreadable (source reason : String)
  | missing (heading key : String)
  | invalid (heading key : String) (flaw : ConfigFlaw)

namespace ConfigFault

def message : ConfigFault → String
  | .malformed source => "config parse error in " ++ source ++ ": malformed line"
  | .unreadable source reason => "config parse error in " ++ source ++ ": " ++ reason
  | .missing heading key => "missing config key [" ++ heading ++ "] " ++ key
  | .invalid heading key flaw =>
    "invalid config value [" ++ heading ++ "] " ++ key ++ ": " ++ flaw.text key

end ConfigFault

/-- How an engine is set up. -/
structure Settings where
  ruleCapacity : Nat
  projectCapacity : Nat
  evalLimit : Limit
  validationLimit : Limit
  regimeRules : Option String
  deriving DecidableEq, Repr

def Settings.standard : Settings :=
  ⟨ExprCache.defaultCapacity, Project.Store.defaultCapacity, none, none, none⟩

namespace Config

abbrev Checked := Except ConfigFault

def ofText (source text : String) : Checked Config :=
  match ofText? source text with
  | some c => .ok c
  | none => .error (.malformed source)

def ofFile (disk : Disk) (path : String) : Checked Config :=
  match disk.read path with
  | .error fault => .error (.unreadable path fault.text)
  | .ok text => ofText path text

private def demand (holds : Bool) (heading key : String) (flaw : ConfigFlaw) : Checked Unit :=
  if holds then .ok () else .error (.invalid heading key flaw)

/-- The integer of a key that is given. -/
private def integer (c : Config) (heading key : String) : Checked (Option Int64) :=
  match c.string? heading key with
  | none => .ok none
  | some raw =>
    match Decimal.readInt64? (Text.trim raw.toList) with
    | some i => .ok (some i)
    | none => .error (.invalid heading key .notInteger)

/-! ## The engine -/

private def engine : String := "engine"

private def capacity (c : Config) (key : String) : Checked Unit := do
  match ← c.integer engine key with
  | none => return
  | some i => demand (1 ≤ i) engine key .belowOne

private def limit (c : Config) (key : String) : Checked Limit := do
  match ← c.integer engine key with
  | none => return none
  | some i =>
    demand (0 < i) engine key .notPositive
    return some i.toInt.toNat

def checkEngine (c : Config) : Checked Unit := do
  c.capacity "expression_cache_capacity"
  c.capacity "project_cache_capacity"
  let _ ← c.limit "eval_timeout_ms"
  let _ ← c.limit "validation_timeout_ms"

private def natural (c : Config) (key : String) (default : Nat) : Nat :=
  match c.int? engine key with
  | some i => i.toInt.toNat
  | none => default

/-- The settings of the engine, standard where a key is absent. -/
def settings (c : Config) : Checked Settings := do
  c.checkEngine
  return {
    ruleCapacity := c.natural "expression_cache_capacity" Settings.standard.ruleCapacity
    projectCapacity := c.natural "project_cache_capacity" Settings.standard.projectCapacity
    evalLimit := ← c.limit "eval_timeout_ms"
    validationLimit := ← c.limit "validation_timeout_ms"
    regimeRules := c.string? engine "regime_rules" }

/-! ## The bot -/

private def bot : String := "bot"

private def percentages : List String :=
  ["risk_per_trade_pct", "max_daily_loss_pct", "stop_loss_pct", "take_profit_pct",
    "trailing_stop_pct", "trailing_activation_pct", "break_even_trigger_pct"]

private def isWithin (low high x : Double) : Bool := low ≤ x && x ≤ high

private def wantTime (c : Config) (key : String) : Checked Unit :=
  match c.string? bot key with
  | none => .ok ()
  | some raw =>
    demand (Calendar.readHourMinute? (Text.trim raw.toList)).isSome bot key .notTime

def checkBot (c : Config) : Checked Unit := do
  for key in percentages do
    demand (isWithin 0 100 ((c.float? bot key).getD 0)) bot key .notPercent
  for key in ["leverage", "max_open_positions", "max_trades_per_day"] do
    demand (1 ≤ (c.int? bot key).getD 1) bot key .belowOne
  demand (0 ≤ (c.int? bot "cooldown_bars").getD 0) bot "cooldown_bars" .negative
  let threshold := "ai_confidence_threshold"
  demand (isWithin 0 1 ((c.float? bot threshold).getD 0.7)) bot threshold .notShare
  c.wantTime "session_start"
  c.wantTime "session_end"

/-! ## The strategy -/

private def strategy : String := "strategy"

private def wantRule (c : Config) (key : String) : Checked Unit :=
  match (c.string? strategy key).map compile with
  | some (.error e) => .error (.invalid strategy key (.badRule e))
  | _ => .ok ()

def checkStrategy (c : Config) : Checked Unit := do
  match c.string? strategy "direction" with
  | none => pure ()
  | some direction =>
    demand (["long", "short", "both"].contains (Text.trimmed direction)) strategy "direction"
      .badDirection
  demand (0 ≤ (c.int? strategy "max_hold_bars").getD 0) strategy "max_hold_bars" .negative
  c.wantRule "entry_expression"
  c.wantRule "exit_expression"

def check (c : Config) : Checked Unit := do
  c.checkEngine
  c.checkBot
  c.checkStrategy

end Config

end TradingRules
