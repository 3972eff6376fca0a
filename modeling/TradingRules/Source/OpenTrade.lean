import TradingRules.Calendar.Reading
import TradingRules.Json.Record
import TradingRules.Source.Field

/-!
# The open trade

A trade gains with the price if it is long and against it if it is short.
-/

namespace TradingRules

inductive Side where
  | long
  | short
  deriving DecidableEq, Repr

namespace Side

def name : Side → String
  | .long => "long"
  | .short => "short"

def ofName? : String → Option Side
  | "long" => some .long
  | "short" => some .short
  | _ => none

theorem ofName?_name (s : Side) : ofName? s.name = some s := by cases s <;> rfl

def sign : Side → Double
  | .long => 1
  | .short => -1

end Side

structure OpenTrade where
  side : Side
  entryPrice : Double
  quantity : Double
  currentPrice : Double
  stopLoss : Option Double
  takeProfit : Option Double
  entryTime : Instant
  barsInTrade : Int64
  maxFavorable : Double
  maxAdverse : Double

namespace OpenTrade

def root : String := "trade"

/-- Profit in the quote currency. -/
def profit (p : OpenTrade) : Double := (p.currentPrice - p.entryPrice) * p.quantity * p.side.sign

/-- Profit in percent of the entry price. -/
def profitPercent (p : OpenTrade) : Double :=
  if p.entryPrice == 0 then 0
  else (p.currentPrice - p.entryPrice) / p.entryPrice * 100 * p.side.sign

/-- How far the price is from a level, in percent; positive towards a gain. -/
def distancePercent (p : OpenTrade) (level : Double) : Double :=
  if p.currentPrice == 0 then 0
  else (level - p.currentPrice) / p.currentPrice * 100 * p.side.sign

def fields : List Field := [
  ⟨"is_open", .bool, none, "A position is open"⟩,
  ⟨"side", .str, none, "long or short"⟩,
  ⟨"entry_price", .float, some "price", "Average entry price"⟩,
  ⟨"quantity", .float, some "units", "Position size"⟩,
  ⟨"current_price", .float, some "price", "Mark price"⟩,
  ⟨"stop_loss", .float, some "price", "Active stop level"⟩,
  ⟨"take_profit", .float, some "price", "Active target level"⟩,
  ⟨"distance_to_stop_pct", .float, some "%", "Signed distance to the stop"⟩,
  ⟨"distance_to_tp_pct", .float, some "%", "Signed distance to the target"⟩,
  ⟨"unrealized_pnl", .float, some "quote", "Open profit or loss"⟩,
  ⟨"pnl_pct", .float, some "%", "Open profit or loss relative to entry"⟩,
  ⟨"entry_time", .int, some "epoch s", "Entry time"⟩,
  ⟨"bars_in_trade", .int, some "bars", "Bars since entry"⟩,
  ⟨"max_favorable_pct", .float, some "%", "Best excursion so far"⟩,
  ⟨"max_adverse_pct", .float, some "%", "Worst excursion so far"⟩]

def level (p : OpenTrade) (name distance : String) : Option Double → List (String × Value)
  | none => []
  | some x => [(name, .float x), (distance, .float (p.distancePercent x))]

def values (p : OpenTrade) : List (String × Value) :=
  [("is_open", .bool true), ("side", .str p.side.name), ("entry_price", .float p.entryPrice),
    ("quantity", .float p.quantity), ("current_price", .float p.currentPrice),
    ("unrealized_pnl", .float p.profit), ("pnl_pct", .float p.profitPercent),
    ("entry_time", .int (Int64.ofInt p.entryTime.seconds)), ("bars_in_trade", .int p.barsInTrade),
    ("max_favorable_pct", .float p.maxFavorable), ("max_adverse_pct", .float p.maxAdverse)] ++
  level p "stop_loss" "distance_to_stop_pct" p.stopLoss ++
  level p "take_profit" "distance_to_tp_pct" p.takeProfit

def provided (p : OpenTrade) : List (String × VariableInfo) := Field.provide root fields p.values

def time? (j : Json) : Option Instant :=
  (Json.asString? j).bind fun s => Calendar.readLooseInternet? s.toList

def ofJson? (j : Json) : Option OpenTrade := do
  let f ← Json.fields? ["side", "entry_price", "quantity", "current_price", "stop_loss",
    "take_profit", "entry_time", "bars_in_trade", "max_favorable_pct", "max_adverse_pct"] j
  return {
    side := ← f.required "side" (Json.asChoice? Side.ofName?)
    entryPrice := ← f.required "entry_price" Json.asDouble?
    quantity := ← f.required "quantity" Json.asDouble?
    currentPrice := ← f.required "current_price" Json.asDouble?
    stopLoss := ← f.withDefault "stop_loss" none (Json.asOption? Json.asDouble?)
    takeProfit := ← f.withDefault "take_profit" none (Json.asOption? Json.asDouble?)
    entryTime := ← f.required "entry_time" time?
    barsInTrade := ← f.withDefault "bars_in_trade" 0 Json.asInt64?
    maxFavorable := ← f.withDefault "max_favorable_pct" 0 Json.asDouble?
    maxAdverse := ← f.withDefault "max_adverse_pct" 0 Json.asDouble? }

end OpenTrade

end TradingRules
