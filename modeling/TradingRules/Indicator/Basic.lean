import TradingRules.Candle.Basic
import TradingRules.Decimal.Layout
import TradingRules.Indicator.Running

/-!
# Technical indicators

An indicator gives every candle of a series a point. The first points have no reading: too few bars
stand before them.
-/

namespace TradingRules

/-- Periods count bars. The width of the bands is given in hundredths of a deviation. -/
inductive Indicator where
  | sma (period : Nat)
  | ema (period : Nat)
  | rsi (period : Nat)
  | roc (period : Nat)
  | atr (period : Nat)
  | stddev (period : Nat)
  | bollinger (period hundredths : Nat)
  deriving DecidableEq, Repr

inductive Reading where
  | single (x : Double)
  | bands (upper middle lower : Double)

namespace Reading

/-- The reading as one number, the middle of the bands. -/
def primary : Reading → Double
  | .single x => x
  | .bands _ middle _ => middle

/-- The distance of the bands in percent of their middle, zero around a zero middle. -/
def widthPercent : Reading → Double
  | .bands upper middle lower => if middle == 0 then 0 else (upper - lower) / middle * 100
  | .single _ => 0

end Reading

structure IndicatorPoint where
  time : Instant
  reading : Option Reading

namespace Indicator

def name : Indicator → String
  | .sma n => "SMA(" ++ toString n ++ ")"
  | .ema n => "EMA(" ++ toString n ++ ")"
  | .rsi n => "RSI(" ++ toString n ++ ")"
  | .roc n => "ROC(" ++ toString n ++ ")"
  | .atr n => "ATR(" ++ toString n ++ ")"
  | .stddev n => "STDDEV(" ++ toString n ++ ")"
  | .bollinger n hundredths =>
    "BOLLINGER(" ++ toString n ++ "," ++ Decimal.plainText (Double.ofNat hundredths / 100) ++ ")"

/-- The indicator of a short name; the width of bands counts for those alone. -/
def ofName? (name : String) (period hundredths : Nat) : Option Indicator :=
  match name with
  | "sma" => some (.sma period)
  | "ema" => some (.ema period)
  | "rsi" => some (.rsi period)
  | "roc" => some (.roc period)
  | "atr" => some (.atr period)
  | "stddev" => some (.stddev period)
  | "bollinger" => some (.bollinger period hundredths)
  | _ => none

/-- What stands for the reading of a bar that has none. -/
def blank : Indicator → Reading
  | .bollinger .. => .bands 0 0 0
  | _ => .single 0

/-- Values, of which those at valid places are readings. -/
def readingsWhere (valid : Nat → Bool) (values : List Double) : List (Option Reading) :=
  values.mapIdx fun i x => if valid i then some (.single x) else none

def trueRanges : List Candle → List Double
  | [] => []
  | first :: rest =>
    first.range :: (rest.zip (first :: rest)).map fun (c, before) => c.trueRange before.closing

def changes (candles : List Candle) : List Double :=
  (candles.drop 1).zipWith (fun c before => c.closing - before.closing) candles

def rsiOf (gain loss : Double) : Double :=
  if loss == 0 then 100 else 100 - 100 / (1 + gain / loss)

def rates (period : Nat) (closes : List Double) : List Double :=
  (Running.beside period closes).map fun (close, before) =>
    match before with
    | none => 0
    | some before => if before == 0 then 0 else (close - before) / before * 100

def bandsOf (hundredths : Nat) (closes : List Double) : Reading :=
  let width := Double.ofNat hundredths / 100
  let (mean, deviation) := Running.meanAndDeviation closes
  .bands (mean + width * deviation) mean (mean - width * deviation)

/-- The readings of a positive period, one for each candle. The relative strength goes through the
changes, of which there is one fewer, so that its first candle has no reading. -/
def positive (i : Indicator) (candles : List Candle) : List (Option Reading) :=
  let closes := candles.map Candle.closing
  match i with
  | .sma n =>
    readingsWhere (fun i => n ≤ i + 1) ((Running.sums n closes).map (· / Double.ofNat n))
  | .ema n =>
    readingsWhere (fun i => n ≤ i + 1) (Running.smoothed n (Running.exponential n) closes)
  | .atr n =>
    readingsWhere (fun i => n ≤ i + 1) (Running.smoothed n (Running.wilder n) (trueRanges candles))
  | .roc n => readingsWhere (fun i => 0 < n && n ≤ i) (rates n closes)
  | .rsi n =>
    let gains := (changes candles).map fun x => Double.larger x 0
    let losses := (changes candles).map fun x => Double.larger (-x) 0
    let average := Running.smoothed n (Running.wilder n)
    none :: readingsWhere (fun i => !(i + 1 < n)) ((average gains).zipWith rsiOf (average losses))
  | .stddev n =>
    (Running.windows n closes).map fun w => w.map fun w => .single (Running.meanAndDeviation w).2
  | .bollinger n hundredths => (Running.windows n closes).map fun w => w.map (bandsOf hundredths)

/-- No period, no reading. -/
def readings (i : Indicator) (candles : List Candle) : List (Option Reading) :=
  match i with
  | .sma 0 | .ema 0 | .rsi 0 | .roc 0 | .atr 0 | .stddev 0 | .bollinger 0 _ => candles.map fun _ => none
  | i => positive i candles

/-- Whether a series is so short, or the period so, that there are no points at all. -/
def isVoid (i : Indicator) (candles : List Candle) : Bool :=
  match i with
  | .sma n | .ema n | .stddev n | .bollinger n _ => n == 0
  | .atr n => n == 0 || candles.length < n
  | .rsi _ | .roc _ => false

def points (i : Indicator) (candles : List Candle) : List IndicatorPoint :=
  if i.isVoid candles then []
  else candles.zipWith (fun c r => ⟨c.time, r⟩) (i.readings candles)

/-- The reading at a place, if the indicator is past its first bars there. -/
def readingAt? (i : Indicator) (candles : List Candle) (place : Nat) : Option Reading :=
  (i.points candles)[place]?.bind IndicatorPoint.reading

end Indicator

end TradingRules
