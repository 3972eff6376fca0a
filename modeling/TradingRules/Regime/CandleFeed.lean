import TradingRules.Regime.Monitor
import TradingRules.Indicator.Basic

/-!
# Frames from a candle series

The last candle is the bar in progress, the one before it the last closed bar. An indicator is in the
frame once it is past its first bars.
-/

namespace TradingRules.Regime

structure Periods where
  emaFast : Nat
  emaSlow : Nat
  rsi : Nat
  atr : Nat
  bollinger : Nat
  bollingerHundredths : Nat
  roc : Nat
  sma : Nat
  stddev : Nat
  deriving DecidableEq, Repr

def Periods.standard : Periods := ⟨12, 26, 14, 14, 20, 200, 10, 50, 20⟩

structure CandleFeed where
  periods : Periods
  candles : List Candle

namespace CandleFeed

def entry (name : String) (x : Option Double) : List (String × Double) :=
  (x.map (name, ·)).toList

/-- `part` in percent of `whole`, if that is not zero. -/
def percent (part : Double) (whole : Double) : Option Double :=
  if whole == 0 then none else some (part / whole * 100)

/-- The indicators at a place of the series, where the candle closed at `close`. -/
def indicatorsAt (f : CandleFeed) (place : Nat) (close : Double) : Indicators :=
  let p := f.periods
  let reading (i : Indicator) : Option Reading := i.readingAt? f.candles place
  let number (i : Indicator) : Option Double := (reading i).map Reading.primary
  let fast := number (.ema p.emaFast)
  let slow := number (.ema p.emaSlow)
  let atr := number (.atr p.atr)
  let sma := number (.sma p.sma)
  Dict.ofList <|
    entry "ema_fast" fast ++ entry "ema_slow" slow ++
    entry "ema_spread_pct" (do let f ← fast; let s ← slow; percent (f - s) s) ++
    entry "rsi" (number (.rsi p.rsi)) ++
    entry "atr" atr ++ entry "atr_pct" (do percent (← atr) close) ++
    entry "bb_width_pct"
      ((reading (.bollinger p.bollinger p.bollingerHundredths)).map Reading.widthPercent) ++
    entry "roc" (number (.roc p.roc)) ++
    entry "sma" sma ++ entry "price_vs_sma_pct" (do let s ← sma; percent (close - s) s) ++
    entry "stddev" (number (.stddev p.stddev))

def frame? (f : CandleFeed) : Option Frame := do
  let live ← f.candles.getLast?
  let place := f.candles.length - 1
  return {
    time := live.time
    live := f.indicatorsAt place live.closing
    closed := do
      let bar ← f.candles.dropLast.getLast?
      return ⟨bar.time, f.indicatorsAt (place - 1) bar.closing⟩ }

/-- Starts a new bar; the bar in progress is closed by it. -/
def push (f : CandleFeed) (c : Candle) : CandleFeed := { f with candles := f.candles ++ [c] }

/-- Replaces the bar in progress, or starts the series. -/
def updateLive (f : CandleFeed) (c : Candle) : CandleFeed :=
  { f with candles := f.candles.dropLast ++ [c] }

end CandleFeed

end TradingRules.Regime
