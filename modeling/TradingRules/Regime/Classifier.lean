import TradingRules.Regime.Rule
import TradingRules.Calendar.Basic

/-!
# Classifying indicators

A classifier is a list of sound rules, highest priority first.
-/

namespace TradingRules.Regime

open TradingRules.Builtin.Trade (unknownRegime)

structure Classifier where
  rules : List Rule

/-- When a snapshot was taken: on the bar in progress, which may still change it, or on a closed
bar. -/
inductive Moment where
  | live
  | barClose
  deriving DecidableEq, Repr

def Moment.name : Moment → String
  | .live => "live"
  | .barClose => "bar_close"

/-- A bar time is missing only before the first bar. -/
structure Snapshot where
  label : String
  priority : Int64
  indicators : Indicators
  moment : Moment
  barTime : Option Instant

namespace Snapshot

/-- The regime before anything is known. -/
def unknown (moment : Moment) : Snapshot := ⟨unknownRegime, unknownPriority, [], moment, none⟩

def isUnknown (s : Snapshot) : Bool := s.label == unknownRegime

def sameIndicators : Indicators → Indicators → Bool
  | [], [] => true
  | (j, x) :: as, (k, y) :: bs => j == k && x == y && sameIndicators as bs
  | _, _ => false

/-- Equality with the indicators compared as numbers, so that a NaN differs from itself. -/
def same (a b : Snapshot) : Bool :=
  a.label == b.label && a.priority == b.priority && sameIndicators a.indicators b.indicators &&
    a.moment == b.moment && a.barTime == b.barTime

/-- Whether two closed bars carry different labels; without both there is no change. -/
def changed (before after : Option Snapshot) : Bool :=
  match before, after with
  | some before, some after => before.label != after.label
  | _, _ => false

end Snapshot

namespace Classifier

def checkFrom (accepted : List Rule) : List Rule → Except RuleFault Unit
  | [] => .ok ()
  | r :: rest =>
    match r.fault? accepted with
    | some fault => .error fault
    | none => checkFrom (r :: accepted) rest

def byPriority (rules : List Rule) : List Rule :=
  rules.mergeSort fun r q => q.priority ≤ r.priority

/-- Labels and priorities are unique, so that the order of the rules does not matter. -/
def ofRules (rules : List Rule) : Except RuleFault Classifier :=
  if rules.isEmpty then .error .noRules
  else (checkFrom [] rules).map fun _ => ⟨byPriority rules⟩

def labels (c : Classifier) : List String := c.rules.map Rule.label

/-- The matching rule of the highest priority. -/
def rule? (c : Classifier) (indicators : Indicators) : Option Rule :=
  c.rules.find? fun r => r.isMet indicators

def matching (c : Classifier) (indicators : Indicators) : List Rule :=
  c.rules.filter fun r => r.isMet indicators

def label (c : Classifier) (indicators : Indicators) : String :=
  ((c.rule? indicators).map Rule.label).getD unknownRegime

def snapshot (c : Classifier) (indicators : Indicators) (moment : Moment) (barTime : Instant) :
    Snapshot :=
  match c.rule? indicators with
  | some r => ⟨r.label, r.priority, indicators, moment, some barTime⟩
  | none => ⟨unknownRegime, unknownPriority, indicators, moment, some barTime⟩

def condition (indicator : String) (comparison : Comparison) (value : Double) : Condition :=
  ⟨indicator, comparison, value, none⟩

/-- The rules that are used when none are given. -/
def standardRules : List Rule := [
  ⟨"STRONG_TREND_BULL", 95,
    [condition "ema_spread_pct" .atLeast 1, condition "rsi" .atLeast 60]⟩,
  ⟨"STRONG_TREND_BEAR", 94,
    [condition "ema_spread_pct" .atMost (-1), condition "rsi" .atMost 40]⟩,
  ⟨"HIGH_VOLATILITY", 90, [condition "atr_pct" .atLeast 3]⟩,
  ⟨"TREND_BULL", 70, [condition "ema_spread_pct" .above 0.2]⟩,
  ⟨"TREND_BEAR", 69, [condition "ema_spread_pct" .below (-0.2)]⟩,
  ⟨"SQUEEZE", 60, [condition "bb_width_pct" .below 2]⟩,
  ⟨"RANGE", 50, [⟨"ema_spread_pct", .between, -0.2, some 0.2⟩]⟩]

def standard : Classifier := ⟨byPriority standardRules⟩

end Classifier

end TradingRules.Regime
