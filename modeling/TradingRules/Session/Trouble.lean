import TradingRules.Candle.Fault
import TradingRules.Config.Checks
import TradingRules.Regime.RuleFile

/-!
# Everything that can go wrong

A trouble is the fault of one part of the library; it is told in that part's words. The exit code says
which part it was.
-/

namespace TradingRules

inductive Trouble where
  | compile (e : CompileError)
  | evaluation (e : Failure)
  | project (r : Project.Refusal)
  | store (f : Project.StoreFault)
  | config (f : ConfigFault)
  | regime (f : Regime.RuleFault)
  | data (f : DataFault)
  | duplicate (function : String)
  | io (reason : String)

namespace Trouble

def message : Trouble → String
  | .compile e => e.message
  | .evaluation e => e.message
  | .project r => r.message
  | .store f => f.message
  | .config f => f.message
  | .regime f => f.message
  | .data f => f.message
  | .duplicate name => "function '" ++ name ++ "' is already registered"
  | .io reason => reason

def exitCode : Trouble → Nat
  | .io _ => 1
  | .config _ | .regime _ => 2
  | .store _ | .project _ => 3
  | .compile _ | .duplicate _ => 4
  | .evaluation _ => 5
  | .data _ => 6

end Trouble

end TradingRules
