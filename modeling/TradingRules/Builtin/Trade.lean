import TradingRules.Builtin.Function
import TradingRules.Text.Case

/-!
# The open position and the regime

A question about the position is put to a map, as in `is_long(trade)`, or to the names below `trade.`
when there is no argument. Without either the position is flat.
-/

namespace TradingRules.Builtin.Trade

def field? (args : List Value) (context : Context) (name : String) : Option Value :=
  match args with
  | .map fields :: _ => Dict.find? name fields
  | _ => context.find? ("trade." ++ name)

def side (args : List Value) (context : Context) : String :=
  match field? args context "side" with
  | some (.str s) => Text.asciiLower s
  | _ => "flat"

/-- The side decides where `is_open` is no boolean. -/
def isOpen (args : List Value) (context : Context) : Bool :=
  match field? args context "is_open" with
  | some (.bool b) => b
  | _ => side args context == "long" || side args context == "short"

def isLong (args : List Value) (context : Context) : Bool :=
  isOpen args context && side args context == "long"

def isShort (args : List Value) (context : Context) : Bool :=
  isOpen args context && side args context == "short"

def isProfitable (args : List Value) (context : Context) : Bool :=
  let profit := ((field? args context "pnl_pct").orElse fun _ =>
    field? args context "unrealized_pnl").bind Value.asDouble?
  isOpen args context && 0 < profit.getD 0

/-- The label in the context comes before that of the host. -/
def currentRegime? (view : View) : Option String :=
  match view.context.find? "regime.current" with
  | some (.str label) => some label
  | _ => view.report.map RegimeReport.current

/-- The argument is looked at only if there is a regime. -/
def inRegime (args : List Value) (view : View) : Except Failure Value :=
  match currentRegime? view with
  | none => .ok (.bool false)
  | some current => do
    match ← argument args 0 with
    | .str label => .ok (.bool (label == current))
    | .list labels => .ok (.bool (labels.any fun l => l.asString? == some current))
    | v => .error (.typeMismatch "in_regime" "string or list" v.typeName)

def question (name description : String) (holds : List Value → Context → Bool) : Function :=
  (Function.of .predicate name [.map] "bool" description fun args view =>
    .ok (.bool (holds args view.context))).withArity (.range 0 1)

def functions : List Function := [
  question "is_trade_open" "A position is currently open" isOpen,
  question "is_long" "Open position is long" isLong,
  question "is_short" "Open position is short" isShort,
  question "is_flat" "No open position" fun args context => !isOpen args context,
  question "is_profitable" "Open position shows unrealized profit" isProfitable,
  .of .predicate "in_regime" [.any] "bool"
    "Current regime equals the label or is one of a list of labels" inRegime]

/-- The label where nothing is classified. -/
def unknownRegime : String := "UNKNOWN"

def hostFunctions : List Function := [
  ⟨⟨"trigger_regime_analysis", .regime, .exact 0, [], "bool",
    "Recompute the regime for the attached chart; false without a host", true, false⟩, .recomputes⟩,
  (Function.of .regime "last_closed_regime" [] "string"
    "Regime of the last closed bar; UNKNOWN without a host" fun _ view =>
      .ok (.str ((view.report.map RegimeReport.lastClosed).getD unknownRegime))).withHost,
  (Function.of .regime "current_regime" [] "string"
    "Regime of the live bar; UNKNOWN without a host" fun _ view =>
      .ok (.str ((view.report.map RegimeReport.current).getD unknownRegime))).withHost,
  (Function.of .regime "new_regime_detected" [] "bool"
    "The last two closed bars carry different regimes; false without a host" fun _ view =>
      .ok (.bool ((view.report.map RegimeReport.changed).getD false))).withHost]

end TradingRules.Builtin.Trade
