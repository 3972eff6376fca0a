import TradingRules.Regime.Classifier
import TradingRules.Disk.Basic
import TradingRules.Json.Reader
import TradingRules.Json.Record

/-!
# Files of regime rules

A rule file is a JSON document with a list of rules.
-/

namespace TradingRules.Regime

def ruleCondition? (j : Json) : Option Condition := do
  let f ← Json.fields? ["indicator", "op", "value", "upper"] j
  return {
    indicator := ← f.required "indicator" Json.asString?
    comparison := ← f.required "op" (Json.asChoice? Comparison.ofName?)
    value := ← f.required "value" Json.asDouble?
    upper := ← f.withDefault "upper" none (Json.asOption? Json.asDouble?) }

def rule? (j : Json) : Option Rule := do
  let f ← Json.fields? ["label", "priority", "conditions"] j
  return {
    label := ← f.required "label" Json.asString?
    priority := ← f.required "priority" Json.asInt64?
    conditions := ← f.required "conditions" (Json.asList? ruleCondition?) }

def rules? (text : String) : Option (List Rule) := do
  let f ← Json.fields? ["rules"] (← Json.ofText? text)
  f.required "rules" (Json.asList? rule?)

namespace Classifier

def ofText (text : String) : Except RuleFault Classifier :=
  match rules? text with
  | none => .error .malformed
  | some rules => ofRules rules

def ofFile (disk : Disk) (path : String) : Except RuleFault Classifier :=
  match disk.read path with
  | .error fault => .error (.unreadable path fault.text)
  | .ok text => ofText text

end Classifier

end TradingRules.Regime
