import TradingRules.Proofs.Dict
import TradingRules.Proofs.Indicator.WarmUp
import TradingRules.Regime.CandleFeed

/-!
# Which entries a frame has

A frame has an entry exactly if every indicator that the entry is computed from is past its warm-up and, for
the three entries that divide by a price, the divisor is not zero (`isSome_find?_indicatorsAt_iff`).
-/

namespace TradingRules.Regime

open CandleFeed (percent)

inductive Entry where
  | emaFast
  | emaSlow
  | emaSpread
  | rsi
  | atr
  | atrPercent
  | bandWidth
  | roc
  | sma
  | priceToSma
  | stddev

namespace Entry

def all : List Entry :=
  [emaFast, emaSlow, emaSpread, rsi, atr, atrPercent, bandWidth, roc, sma, priceToSma, stddev]

theorem mem_all (e : Entry) : e ∈ all := by
  cases e <;> simp [all]

def name : Entry → String
  | emaFast => "ema_fast"
  | emaSlow => "ema_slow"
  | emaSpread => "ema_spread_pct"
  | rsi => "rsi"
  | atr => "atr"
  | atrPercent => "atr_pct"
  | bandWidth => "bb_width_pct"
  | roc => "roc"
  | sma => "sma"
  | priceToSma => "price_vs_sma_pct"
  | stddev => "stddev"

/-- The indicators that an entry is computed from. -/
def indicators (p : Periods) : Entry → List Indicator
  | emaFast => [.ema p.emaFast]
  | emaSlow => [.ema p.emaSlow]
  | emaSpread => [.ema p.emaFast, .ema p.emaSlow]
  | rsi => [.rsi p.rsi]
  | atr | atrPercent => [.atr p.atr]
  | bandWidth => [.bollinger p.bollinger p.bollingerHundredths]
  | roc => [.roc p.roc]
  | sma | priceToSma => [.sma p.sma]
  | stddev => [.stddev p.stddev]

end Entry

variable {f : CandleFeed} {place : Nat} {close : Double} {e : Entry}

namespace CandleFeed

def number? (f : CandleFeed) (place : Nat) (i : Indicator) : Option Double :=
  (i.readingAt? f.candles place).map Reading.primary

/-- What an entry divides by, of the three for which a zero is looked for. -/
def divisor? (f : CandleFeed) (place : Nat) (close : Double) : Entry → Option Double
  | .emaSpread => f.number? place (.ema f.periods.emaSlow)
  | .atrPercent => some close
  | .priceToSma => f.number? place (.sma f.periods.sma)
  | _ => none

/-- An entry can be computed at a place where the candle closed at `close`. -/
structure Due (f : CandleFeed) (place : Nat) (close : Double) (e : Entry) : Prop where
  warm : ∀ i ∈ e.indicators f.periods, place < f.candles.length ∧ i.PastWarmUp place
  divisible : ∀ d ∈ f.divisor? place close e, (d == 0) = false

def value? (f : CandleFeed) (place : Nat) (close : Double) : Entry → Option Double
  | .emaFast => f.number? place (.ema f.periods.emaFast)
  | .emaSlow => f.number? place (.ema f.periods.emaSlow)
  | .emaSpread => do
    let fast ← f.number? place (.ema f.periods.emaFast)
    let slow ← f.number? place (.ema f.periods.emaSlow)
    percent (fast - slow) slow
  | .rsi => f.number? place (.rsi f.periods.rsi)
  | .atr => f.number? place (.atr f.periods.atr)
  | .atrPercent => do percent (← f.number? place (.atr f.periods.atr)) close
  | .bandWidth =>
    ((Indicator.bollinger f.periods.bollinger f.periods.bollingerHundredths).readingAt? f.candles place).map
      Reading.widthPercent
  | .roc => f.number? place (.roc f.periods.roc)
  | .sma => f.number? place (.sma f.periods.sma)
  | .priceToSma => do
    let mean ← f.number? place (.sma f.periods.sma)
    percent (close - mean) mean
  | .stddev => f.number? place (.stddev f.periods.stddev)

/-- A frame lists its entries one after the other, each if it has a value. -/
theorem indicatorsAt_eq (f : CandleFeed) (place : Nat) (close : Double) : f.indicatorsAt place close =
    Dict.ofList (Entry.all.flatMap fun e => entry e.name (f.value? place close e)) := by
  simp only [Entry.all, List.flatMap_cons, List.flatMap_nil, List.append_nil, ← List.append_assoc]
  rfl

-- ---------------------------------------------------------------------------
-- Entries one by one
-- ---------------------------------------------------------------------------

theorem isSome_number?_iff (i : Indicator) :
    (f.number? place i).isSome = true ↔ place < f.candles.length ∧ i.PastWarmUp place := by
  rw [number?, Option.isSome_map, Indicator.isSome_readingAt?_iff]

theorem isSome_percent_iff (part whole : Double) :
    (percent part whole).isSome = true ↔ (whole == 0) = false := by
  rw [percent]
  cases whole == 0 <;> simp

theorem isSome_bind_iff {α β : Type} {x : Option α} {next : α → Option β} {p : Prop}
    (h : ∀ a, (next a).isSome = true ↔ p) : (x.bind next).isSome = true ↔ x.isSome = true ∧ p := by
  cases x <;> simp [h]

theorem isSome_bind_percent_iff {x : Option Double} (part : Double → Double) :
    (x.bind fun whole => percent (part whole) whole).isSome = true ↔
      x.isSome = true ∧ ∀ whole ∈ x, (whole == 0) = false := by
  cases x <;> simp [isSome_percent_iff]

theorem due_iff : f.Due place close e ↔
    (∀ i ∈ e.indicators f.periods, place < f.candles.length ∧ i.PastWarmUp place) ∧
      ∀ d ∈ f.divisor? place close e, (d == 0) = false :=
  ⟨fun h => ⟨h.warm, h.divisible⟩, fun h => ⟨h.1, h.2⟩⟩

theorem isSome_value?_iff (e : Entry) : (f.value? place close e).isSome = true ↔ f.Due place close e := by
  simp only [due_iff, ← isSome_number?_iff]
  cases e with
  | emaSpread =>
    refine (isSome_bind_iff fun fast => isSome_bind_percent_iff (fast - ·)).trans ?_
    simp [divisor?, Entry.indicators, and_assoc]
  | atrPercent =>
    refine (isSome_bind_iff fun atr => isSome_percent_iff atr close).trans ?_
    simp [divisor?, Entry.indicators]
  | priceToSma =>
    refine (isSome_bind_percent_iff (close - ·)).trans ?_
    simp [divisor?, Entry.indicators]
  | bandWidth => simp [value?, divisor?, Entry.indicators, number?]
  | _ => simp [value?, divisor?, Entry.indicators]

-- ---------------------------------------------------------------------------
-- All entries
-- ---------------------------------------------------------------------------

theorem mem_entry {key name : String} {a : Double} {x : Option Double} :
    (key, a) ∈ entry name x ↔ key = name ∧ x = some a := by
  cases x <;> simp [entry, eq_comm]

theorem isSome_find?_indicatorsAt_iff (f : CandleFeed) (place : Nat) (close : Double) (key : String) :
    (Dict.find? key (f.indicatorsAt place close)).isSome = true ↔
      ∃ e : Entry, e.name = key ∧ f.Due place close e := by
  rw [indicatorsAt_eq, Dict.isSome_find?_ofList_iff]
  simp only [List.mem_flatMap, Entry.mem_all, true_and, mem_entry, ← isSome_value?_iff,
    Option.isSome_iff_exists]
  constructor
  · rintro ⟨a, e, rfl, ha⟩
    exact ⟨e, rfl, a, ha⟩
  · rintro ⟨e, rfl, a, ha⟩
    exact ⟨a, e, rfl, ha⟩

/-- Where readings begin, which candle their points belong to, and which entries of a frame follow. -/
theorem warmUp_boundaries (periods : Periods) (candles : List Candle) (place : Nat) :
    (∀ i : Indicator, (i.readingAt? candles place).isSome = true ↔
      place < candles.length ∧ i.PastWarmUp place) ∧
    (∀ (i : Indicator) (p : IndicatorPoint), (i.points candles)[place]? = some p →
      candles[place]?.map Candle.time = some p.time) ∧
    ∀ (close : Double) (key : String),
      (Dict.find? key (indicatorsAt ⟨periods, candles⟩ place close)).isSome = true ↔
        ∃ e : Entry, e.name = key ∧ Due ⟨periods, candles⟩ place close e :=
  ⟨fun i => i.isSome_readingAt?_iff candles place, fun _ _ => Indicator.time_of_point,
    isSome_find?_indicatorsAt_iff _ place⟩

end CandleFeed

end TradingRules.Regime
