/-! # Powers of the two bases -/

namespace TradingRules.Decimal

abbrev twoTo (n : Nat) : Nat := Nat.pow 2 n

abbrev tenTo (n : Nat) : Nat := Nat.pow 10 n

end TradingRules.Decimal
