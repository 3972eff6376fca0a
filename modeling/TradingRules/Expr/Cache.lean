import TradingRules.Expr.Compiled
import TradingRules.Cache.Counted

/-!
# Compiled rules by their text

A text that does not compile is never stored, so that asking again compiles again. The store is free
for others while a text is compiled: what they have put in meanwhile stays and is the answer.
-/

namespace TradingRules

abbrev ExprCache := Counted String Compiled

namespace ExprCache

def defaultCapacity : Nat := 128

def compile (c : ExprCache) (source : String) : Except CompileError Compiled × ExprCache :=
  match c.request source fun _ => true with
  | (some compiled, c) => (.ok compiled, c)
  | (none, c) =>
    match TradingRules.compile source with
    | .ok compiled =>
      match c.store.peek? source with
      | some other => (.ok other, c)
      | none => (.ok compiled, c.insert source compiled)
    | .error e => (.error e, c)

end ExprCache

end TradingRules
