import TradingRules.Source.Field

/-!
# The bot

How the bot trades: risk, stops, sessions. Every setting has a value, if need be its default.
-/

namespace TradingRules

structure Bot where
  values : List (String × Value)

namespace Bot

def root : String := "bot"

def settings : List Setting := [
  ⟨"symbol", .str "BTCUSDT", none, "Traded symbol"⟩,
  ⟨"timeframe", .str "15m", none, "Bot timeframe"⟩,
  ⟨"paper_mode", .bool true, none, "Simulated orders only"⟩,
  ⟨"leverage", .int 1, some "x", "Position leverage"⟩,
  ⟨"order_type", .str "market", none, "market or limit"⟩,
  ⟨"risk_per_trade_pct", .float 1, some "%", "Equity risked per trade"⟩,
  ⟨"max_daily_loss_pct", .float 5, some "%", "Daily loss limit"⟩,
  ⟨"max_open_positions", .int 1, none, "Concurrent position limit"⟩,
  ⟨"max_trades_per_day", .int 10, none, "Daily trade limit"⟩,
  ⟨"cooldown_bars", .int 0, some "bars", "Bars to wait after a close"⟩,
  ⟨"min_volume", .float 0, some "units", "Minimum bar volume to trade"⟩,
  ⟨"stop_loss_pct", .float 2, some "%", "Stop-loss distance"⟩,
  ⟨"take_profit_pct", .float 4, some "%", "Take-profit distance"⟩,
  ⟨"use_atr_stop", .bool false, none, "Stop distance from ATR instead of percent"⟩,
  ⟨"atr_multiplier", .float 2, some "x", "ATR multiple for the stop"⟩,
  ⟨"trailing_stop_enabled", .bool false, none, "Trailing stop active"⟩,
  ⟨"trailing_stop_pct", .float 1, some "%", "Trailing distance"⟩,
  ⟨"trailing_activation_pct", .float 1.5, some "%", "Profit that arms the trailing stop"⟩,
  ⟨"break_even_enabled", .bool false, none, "Move stop to entry after trigger"⟩,
  ⟨"break_even_trigger_pct", .float 1, some "%", "Profit that triggers break-even"⟩,
  ⟨"session_enabled", .bool false, none, "Trading restricted to a session window"⟩,
  ⟨"session_start", .str "00:00", some "HH:MM", "Session start (UTC)"⟩,
  ⟨"session_end", .str "23:59", some "HH:MM", "Session end (UTC)"⟩,
  ⟨"ai_validation_enabled", .bool false, none, "Signals confirmed by an AI validator"⟩,
  ⟨"ai_confidence_threshold", .float 0.7, none, "Minimum validator confidence"⟩,
  ⟨"ai_provider", .str "none", none, "Validator backend"⟩]

def fields : List Field := settings.map Setting.field

def ofConfig (c : Config) : Bot := ⟨settings.map fun s => (s.name, s.ofConfig c root)⟩

def ofJson? (j : Json) : Option Bot := do
  let f ← Json.fields? (settings.map Setting.name) j
  return ⟨← Setting.ofFields? f settings⟩

/-- The text of a setting. -/
def string (b : Bot) (name : String) : String := ((b.values.lookup name).bind Value.asString?).getD ""

def provided (b : Bot) : List (String × VariableInfo) := Field.provide root fields b.values

end Bot

end TradingRules
