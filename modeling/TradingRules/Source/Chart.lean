import TradingRules.Candle.Basic
import TradingRules.Source.Field

/-!
# The chart

The last two candles of a series and what follows from their shape.
-/

namespace TradingRules

structure Chart where
  symbol : String
  timeframe : String
  current : Candle
  previous : Option Candle

namespace Chart

def root : String := "chart"

/-- The last two candles; an empty series has no chart. -/
def ofSeries? (symbol timeframe : String) (candles : List Candle) : Option Chart :=
  candles.getLast?.map fun current => ⟨symbol, timeframe, current, candles.dropLast.getLast?⟩

def fields : List Field := [
  ⟨"symbol", .str, none, "Instrument symbol"⟩,
  ⟨"timeframe", .str, none, "Bar timeframe, e.g. 15m"⟩,
  ⟨"price", .float, some "price", "Latest price (current close)"⟩,
  ⟨"open", .float, some "price", "Current bar open"⟩,
  ⟨"high", .float, some "price", "Current bar high"⟩,
  ⟨"low", .float, some "price", "Current bar low"⟩,
  ⟨"close", .float, some "price", "Current bar close"⟩,
  ⟨"volume", .float, some "units", "Current bar volume"⟩,
  ⟨"time", .int, some "epoch s", "Current bar open time"⟩,
  ⟨"prev_open", .float, some "price", "Previous bar open"⟩,
  ⟨"prev_high", .float, some "price", "Previous bar high"⟩,
  ⟨"prev_low", .float, some "price", "Previous bar low"⟩,
  ⟨"prev_close", .float, some "price", "Previous bar close"⟩,
  ⟨"prev_volume", .float, some "units", "Previous bar volume"⟩,
  ⟨"prev_time", .int, some "epoch s", "Previous bar open time"⟩,
  ⟨"change", .float, some "price", "Close minus previous close (or open)"⟩,
  ⟨"change_pct", .float, some "%", "Change relative to previous close (or open)"⟩,
  ⟨"range", .float, some "price", "High minus low"⟩,
  ⟨"body", .float, some "price", "Absolute open-close distance"⟩,
  ⟨"body_pct", .float, some "%", "Body as a share of the range"⟩,
  ⟨"upper_wick", .float, some "price", "High above the body"⟩,
  ⟨"lower_wick", .float, some "price", "Low below the body"⟩,
  ⟨"typical_price", .float, some "price", "(high + low + close) / 3"⟩,
  ⟨"true_range", .float, some "price", "Range widened by a gap from the previous close"⟩,
  ⟨"is_bullish", .bool, none, "Close above open"⟩,
  ⟨"is_bearish", .bool, none, "Close below open"⟩]

def percent (part whole : Double) : Double := if whole == 0 then 0 else part / whole * 100

def seconds (t : Instant) : Value := .int (Int64.ofInt t.seconds)

def previousValues (p : Candle) : List (String × Value) := [
  ("prev_open", .float p.opening), ("prev_high", .float p.high), ("prev_low", .float p.low),
  ("prev_close", .float p.closing), ("prev_volume", .float p.volume), ("prev_time", seconds p.time)]

def values (chart : Chart) : List (String × Value) :=
  let c := chart.current
  let base := (chart.previous.map Candle.closing).getD c.opening
  let trueRange := (chart.previous.map fun p => c.trueRange p.closing).getD c.range
  [("symbol", .str chart.symbol), ("timeframe", .str chart.timeframe), ("price", .float c.closing),
    ("open", .float c.opening), ("high", .float c.high), ("low", .float c.low),
    ("close", .float c.closing), ("volume", .float c.volume), ("time", seconds c.time),
    ("change", .float (c.closing - base)), ("change_pct", .float (percent (c.closing - base) base)),
    ("range", .float c.range), ("body", .float c.body), ("body_pct", .float (percent c.body c.range)),
    ("upper_wick", .float c.upperWick), ("lower_wick", .float c.lowerWick),
    ("typical_price", .float c.typicalPrice), ("true_range", .float trueRange),
    ("is_bullish", .bool c.isBullish), ("is_bearish", .bool c.isBearish)] ++
  (chart.previous.map previousValues).getD []

def provided (chart : Chart) : List (String × VariableInfo) := Field.provide root fields chart.values

end Chart

end TradingRules
