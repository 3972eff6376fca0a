import TradingRules.Builtin.Math
import TradingRules.Builtin.Trade
import TradingRules.Builtin.Price
import TradingRules.Builtin.Time
import TradingRules.Builtin.Text
import TradingRules.Builtin.Collection

/-! # All built-in functions -/

namespace TradingRules.Registry

def builtins : Registry :=
  Dict.ofList <|
    (Builtin.Math.functions ++ Builtin.Trade.functions ++ Builtin.Price.functions ++
      Builtin.Time.functions ++ Builtin.Text.functions ++ Builtin.Collection.functions ++
      Builtin.Trade.hostFunctions).map fun f => (f.signature.name, f)

/-- What holds of the functions of every part of the library holds of all built-in ones. -/
theorem forall_builtins {P : Function → Prop} (math : ∀ f ∈ Builtin.Math.functions, P f)
    (trade : ∀ f ∈ Builtin.Trade.functions, P f) (price : ∀ f ∈ Builtin.Price.functions, P f)
    (time : ∀ f ∈ Builtin.Time.functions, P f) (text : ∀ f ∈ Builtin.Text.functions, P f)
    (collection : ∀ f ∈ Builtin.Collection.functions, P f)
    (host : ∀ f ∈ Builtin.Trade.hostFunctions, P f) : ∀ f ∈ Dict.values builtins, P f := by
  intro f hf
  have hmem := Dict.mem_values_ofList hf
  simp only [List.map_map, Function.comp_def, List.map_id', List.mem_append] at hmem
  rcases hmem with (((((h | h) | h) | h) | h) | h) | h
  · exact math f h
  · exact trade f h
  · exact price f h
  · exact time f h
  · exact text f h
  · exact collection f h
  · exact host f h

end TradingRules.Registry
