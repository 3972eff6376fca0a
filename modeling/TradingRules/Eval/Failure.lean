/-!
# Why an evaluation fails
-/

namespace TradingRules

/-- `abort` is an evaluation that ends without a verdict: an operation has no result. -/
inductive Failure where
  | unknownVariable (name : String)
  | typeMismatch (operation expected found : String)
  | divisionByZero
  | argument (function expected actual : String)
  | function (name detail : String)
  | timeout (limit : Nat)
  | abort
  deriving DecidableEq, Repr, Inhabited

namespace Failure

def message : Failure → String
  | .unknownVariable name => "unknown variable '" ++ name ++ "'"
  | .typeMismatch operation expected found =>
    "type mismatch in " ++ operation ++ ": expected " ++ expected ++ ", found " ++ found
  | .divisionByZero => "division by zero"
  | .argument callee expected actual =>
    callee ++ "(): expected " ++ expected ++ ", got " ++ actual
  | .function name detail => "function " ++ name ++ "() failed: " ++ detail
  | .timeout limit => "evaluation exceeded " ++ toString limit ++ " ms"
  | .abort => "evaluation aborted"

end Failure

end TradingRules
