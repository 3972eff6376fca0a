import TradingRules.Dict
import TradingRules.Builtin.Trade
import TradingRules.Decimal.Layout
import TradingRules.Text.Blank

/-!
# Rules for the market regime

A rule is a label with a priority and conditions on indicators. Of the rules that match, the one of
the highest priority names the regime; when none matches the regime is unknown.
-/

namespace TradingRules.Regime

open TradingRules.Builtin.Trade (unknownRegime)

/-- Indicator values at one moment. -/
abbrev Indicators := Dict Double

inductive Comparison where
  | above
  | below
  | atLeast
  | atMost
  | between
  | equals
  deriving DecidableEq, Repr

namespace Comparison

def name : Comparison → String
  | .above => "above"
  | .below => "below"
  | .atLeast => "at_least"
  | .atMost => "at_most"
  | .between => "between"
  | .equals => "equals"

def ofName? : String → Option Comparison
  | "above" => some .above
  | "below" => some .below
  | "at_least" => some .atLeast
  | "at_most" => some .atMost
  | "between" => some .between
  | "equals" => some .equals
  | _ => none

theorem ofName?_name (c : Comparison) : ofName? c.name = some c := by cases c <;> rfl

end Comparison

/-- `upper` is the other bound of `between`. -/
structure Condition where
  indicator : String
  comparison : Comparison
  value : Double
  upper : Option Double

namespace Condition

/-- How near two values are that count as equal. -/
def tolerance : Double := 1e-9

def holds (c : Condition) (x : Double) : Bool :=
  match c.comparison with
  | .above => c.value < x
  | .below => x < c.value
  | .atLeast => c.value ≤ x
  | .atMost => x ≤ c.value
  | .between => c.upper.any fun upper => c.value ≤ x && x ≤ upper
  | .equals => (x - c.value).abs < tolerance

/-- An indicator that is missing or not a number matches nothing. -/
def isMet (c : Condition) (indicators : Indicators) : Bool :=
  match Dict.find? c.indicator indicators with
  | none => false
  | some x => !x.isNaN && c.holds x

/-- The bounds of `between` are both given and in order. -/
def isBounded (c : Condition) : Bool :=
  match c.comparison with
  | .between => c.upper.any fun upper => c.value ≤ upper
  | _ => true

end Condition

structure Rule where
  label : String
  priority : Int64
  conditions : List Condition

def Rule.isMet (r : Rule) (indicators : Indicators) : Bool :=
  r.conditions.all fun c => c.isMet indicators

/-- The priority of the unknown regime; every rule ranks above it. -/
def unknownPriority : Int64 := 0

inductive RuleFault where
  | noRules
  | badLabel (label : String)
  | lowPriority (label : String)
  | repeatedPriority (priority : Int64)
  | repeatedLabel (label : String)
  | noConditions (label : String)
  | badBounds (label indicator : String) (low : Double)
  | malformed
  | unreadable (path reason : String)

namespace RuleFault

def text : RuleFault → String
  | .noRules => "at least one rule is required"
  | .badLabel label => "rule label '" ++ label ++ "' is not allowed"
  | .lowPriority label =>
    "rule '" ++ label ++ "' priority must be greater than " ++ toString unknownPriority.toInt
  | .repeatedPriority priority => "duplicate priority " ++ toString priority.toInt
  | .repeatedLabel label => "duplicate label '" ++ label ++ "'"
  | .noConditions label => "rule '" ++ label ++ "' has no conditions"
  | .badBounds label indicator low =>
    "rule '" ++ label ++ "': between on '" ++ indicator ++ "' needs an upper bound >= " ++
      Decimal.plainText low
  | .malformed => "malformed rule file"
  | .unreadable path reason => "cannot read " ++ path ++ ": " ++ reason

def message (f : RuleFault) : String := "invalid regime configuration: " ++ f.text

end RuleFault

/-- The first fault of a rule among those accepted before it. -/
def Rule.fault? (accepted : List Rule) (r : Rule) : Option RuleFault :=
  if (Text.trim r.label.toList).isEmpty || r.label == unknownRegime then some (.badLabel r.label)
  else if r.priority ≤ unknownPriority then some (.lowPriority r.label)
  else if accepted.any fun q => q.priority == r.priority then some (.repeatedPriority r.priority)
  else if accepted.any fun q => q.label == r.label then some (.repeatedLabel r.label)
  else if r.conditions.isEmpty then some (.noConditions r.label)
  else (r.conditions.find? fun c => !c.isBounded).map fun c => .badBounds r.label c.indicator c.value

end TradingRules.Regime
