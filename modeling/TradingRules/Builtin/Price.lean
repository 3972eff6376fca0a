import TradingRules.Builtin.Function
import TradingRules.Text.Case

/-!
# Prices, levels and bars
-/

namespace TradingRules.Builtin.Price

def barFields : List String := ["open", "high", "low", "close", "volume", "time"]

/-- Whether a side is long. -/
def isLongSide (name side : String) : Except Failure Bool :=
  match Text.asciiLower side with
  | "long" | "buy" => .ok true
  | "short" | "sell" => .ok false
  | other =>
    .error (.function name ("side must be 'long' or 'short', got '" ++ other ++ "'"))

/-- The current bar at offset 0, the previous one at -1, as far as the chart has it. -/
def candle (offset : Int64) (context : Context) : Except Failure Value := do
  let lead ←
    if offset = 0 then pure "chart."
    else if offset = -1 then pure "chart.prev_"
    else throw <| .function "candle" <|
      "offset " ++ toString offset.toInt ++ " unavailable; use 0 or -1"
  let bar := Dict.ofList <| barFields.filterMap fun field =>
    (context.find? (lead ++ field)).map fun v => (field, v)
  if bar.isEmpty then throw (.function "candle" "no chart data in context")
  return .map bar

def test (name description : String) (arity : Nat) (holds : List Value → Bool) : Function :=
  .of .price name (List.replicate arity .number) "bool" description fun args _ =>
    .ok (.bool (holds args))

def level (name description : String) (arity : Nat)
    (f : List Value → Except Failure Double) : Function :=
  .of .price name (List.replicate arity .number) "double" description fun args _ => do
    finite name (← f args)

def functions : List Function := [
  test "stop_hit_long" "Long stop reached: price <= stop" 2 fun a => number a 0 ≤ number a 1,
  test "stop_hit_short" "Short stop reached: price >= stop" 2 fun a => number a 1 ≤ number a 0,
  test "price_above_ema" "price > ema" 2 fun a => number a 1 < number a 0,
  test "price_below_ema" "price < ema" 2 fun a => number a 0 < number a 1,
  test "price_above_level" "price > level" 2 fun a => number a 1 < number a 0,
  test "price_below_level" "price < level" 2 fun a => number a 0 < number a 1,
  .of .price "tp_hit" [.number, .number, .str] "bool" "Take-profit reached for the given side"
    fun a _ => do
      let long ← isLongSide "tp_hit" (string a 2)
      return .bool (if long then number a 1 ≤ number a 0 else number a 0 ≤ number a 1),
  test "cross_above" "Series a crossed above b: (prev_a, a, prev_b, b)" 4 fun a =>
    number a 0 ≤ number a 2 && number a 3 < number a 1,
  test "cross_below" "Series a crossed below b: (prev_a, a, prev_b, b)" 4 fun a =>
    number a 2 ≤ number a 0 && number a 1 < number a 3,
  level "distance_pct" "Absolute percent distance of a from reference b" 2 fun a => do
    let b := number a 1
    return ((number a 0 - b) / (← nonzero b)).abs * 100,
  .of .price "within_pct" [.number, .number, .number] "bool" "a lies within pct percent of b"
    fun a _ => do
      let b := number a 1
      return .bool (((number a 0 - b) / (← nonzero b)).abs * 100 ≤ number a 2),
  level "atr_stop_long" "price - atr * multiplier" 3 fun a =>
    .ok (number a 0 - number a 1 * number a 2),
  level "atr_stop_short" "price + atr * multiplier" 3 fun a =>
    .ok (number a 0 + number a 1 * number a 2),
  level "risk_reward" "Reward-to-risk ratio for (entry, stop, target)" 3 fun a => do
    return (number a 2 - number a 0).abs / (← nonzero (number a 0 - number a 1).abs),
  level "position_size" "Units for (balance, risk_pct, entry, stop)" 4 fun a => do
    let risk := number a 0 * number a 1 / 100
    return risk / (← nonzero (number a 2 - number a 3).abs),
  .of .price "pnl_pct" [.number, .number, .str] "double"
    "Percent profit of price against entry for the side" fun a _ => do
      let entry := number a 0
      let long ← isLongSide "pnl_pct" (string a 2)
      let raw := (number a 1 - entry) / (← nonzero entry) * 100
      finite "pnl_pct" (if long then raw else -raw),
  .of .price "candle" [.int] "map" "Bar at offset (0 current, -1 previous) from chart data"
    fun a view => candle (integer a 0) view.context]

end TradingRules.Builtin.Price
