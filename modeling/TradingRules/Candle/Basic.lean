import TradingRules.Calendar.Basic
import TradingRules.Double.Order

/-!
# Candles

A candle sums up the trades of one bar: the first and the last price, the extremes and the volume.
-/

namespace TradingRules

structure Candle where
  time : Instant
  opening : Double
  high : Double
  low : Double
  closing : Double
  volume : Double

namespace Candle

def typicalPrice (c : Candle) : Double := (c.high + c.low + c.closing) / 3

def range (c : Candle) : Double := c.high - c.low

/-- The range, widened to the close of the bar before. -/
def trueRange (c : Candle) (before : Double) : Double :=
  Double.larger (Double.larger (c.high - c.low) (c.high - before).abs) (c.low - before).abs

def body (c : Candle) : Double := (c.closing - c.opening).abs

def upperWick (c : Candle) : Double := c.high - Double.larger c.opening c.closing

def lowerWick (c : Candle) : Double := Double.smaller c.opening c.closing - c.low

def isBullish (c : Candle) : Bool := c.opening < c.closing

def isBearish (c : Candle) : Bool := c.closing < c.opening

end Candle

end TradingRules
