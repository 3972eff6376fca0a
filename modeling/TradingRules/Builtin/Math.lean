import TradingRules.Builtin.Function

/-!
# Arithmetic and normalization
-/

namespace TradingRules.Builtin.Math

/-- The numbers of `f(a, b, c)` or of `f([a, b, c])`; at least one. -/
def numbers (name : String) (args : List Value) : Except Failure (List Value) := do
  let values := match args with
    | [.list items] => items
    | args => args
  if values.isEmpty then throw (.function name "needs at least one value")
  match values.find? fun v => !v.isNumber with
  | some v => throw (.argument name "numbers" v.typeName)
  | none => return values

/-- The first of the values that no other one beats, when they are compared from the left. -/
def extreme (beats : Double → Double → Bool) : Value → List Value → Value
  | best, [] => best
  | best, v :: rest =>
    let x := v.asDouble?.getD Double.notANumber
    let y := best.asDouble?.getD Double.notANumber
    extreme beats (if beats x y then v else best) rest

def extremeOf (beats : Double → Double → Bool) (name : String) (args : List Value) :
    Except Failure Value := do
  let values ← numbers name args
  let best ← Strict.item values 0
  let rest ← Strict.rest values 1
  return extreme beats best rest

def least (name : String) (args : List Value) : Except Failure Value :=
  extremeOf (fun x y => x < y) name args

def greatest (name : String) (args : List Value) : Except Failure Value :=
  extremeOf (fun x y => y < x) name args

def absolute : Value → Except Failure Value
  | .int i =>
    if i = Int64.minValue then .error (.typeMismatch "abs" "int64 range" "overflow")
    else .ok (.int (if i < 0 then -i else i))
  | v => .ok (.float (v.asDouble?.getD Double.notANumber).abs)

def sign (x : Double) : Int64 := if 0 < x then 1 else if x < 0 then -1 else 0

/-- A half goes away from zero. -/
def roundTo (x : Double) (places : Int64) : Except Failure Value :=
  if places < 0 ∨ 12 < places then .error (.function "round" "decimals must be between 0 and 12")
  else
    let factor := Double.ofNat (Decimal.tenTo places.toInt.toNat)
    finite "round" ((x * factor).round / factor)

def clamp (x low high : Double) : Except Failure Value :=
  if high < low then .error (.function "clamp" "lower bound exceeds upper bound")
  else do finite "clamp" (← Strict.clamp x low high)

/-- Null and NaN are missing, infinities too where a fallback replaces them. -/
def isMissing : Value → Bool
  | .float x => x.isNaN
  | .null => true
  | _ => false

def orElse (v fallback : Value) : Value :=
  match v with
  | .float x => if x.isFinite then v else fallback
  | .null => fallback
  | v => v

def numeric (name : String) (arity : Nat) (description : String)
    (f : List Value → Except Failure Value) : Function :=
  .of .math name (List.replicate arity .number) "double" description fun args _ => f args

def real (name : String) (description : String) (f : Double → Double) : Function :=
  numeric name 1 description fun args => finite name (f (number args 0))

def clampFunction : Function :=
  numeric "clamp" 3 "Limit x to [lo, hi]" fun args =>
    clamp (number args 0) (number args 1) (number args 2)

def functions : List Function := [
  .of .math "abs" [.number] "number" "Absolute value" fun args _ => do
    absolute (← argument args 0),
  .of .math "sign" [.number] "int" "-1, 0 or 1" fun args _ => .ok (.int (sign (number args 0))),
  (Function.of .math "min" [.any] "number" "Smallest of the arguments or of a single list"
    fun args _ => least "min" args).withArity (.atLeast 1),
  (Function.of .math "max" [.any] "number" "Largest of the arguments or of a single list"
    fun args _ => greatest "max" args).withArity (.atLeast 1),
  (Function.of .math "round" [.number, .int] "double"
    "Round half away from zero to the given decimals"
    fun args _ => roundTo (number args 0) (integer args 1)).withArity (.range 1 2),
  real "floor" "Largest whole number not above x" Double.floor,
  real "ceil" "Smallest whole number not below x" Double.ceil,
  real "exp" "e raised to x" Double.exp,
  numeric "sqrt" 1 "Square root" fun args =>
    let x := number args 0
    if x < 0 then .error (.function "sqrt" "negative input") else finite "sqrt" x.sqrt,
  numeric "pow" 2 "x raised to y" fun args =>
    finite "pow" (Double.pow (number args 0) (number args 1)),
  numeric "log" 1 "Natural logarithm" fun args =>
    let x := number args 0
    if x ≤ 0 then .error (.function "log" "input must be positive") else finite "log" x.log,
  numeric "log10" 1 "Base-10 logarithm" fun args =>
    let x := number args 0
    if x ≤ 0 then .error (.function "log10" "input must be positive") else finite "log10" x.log10,
  clampFunction,
  numeric "pct_change" 2 "Percent change from old to new" fun args => do
    let old := number args 0
    finite "pct_change" ((number args 1 - old) / (← nonzero old) * 100),
  numeric "pct_from_level" 2 "Percent distance of price from level (positive above)" fun args => do
    let level := number args 1
    finite "pct_from_level" ((number args 0 - level) / (← nonzero level) * 100),
  numeric "level_at_pct" 2 "Level offset from base by pct percent" fun args =>
    finite "level_at_pct" (number args 0 * (1 + number args 1 / 100)),
  numeric "retracement" 3 "Price retracing a start-to-end swing by ratio" fun args =>
    finite "retracement" (number args 1 - (number args 1 - number args 0) * number args 2),
  numeric "extension" 3 "Price projecting a start-to-end swing by ratio" fun args =>
    finite "extension" (number args 0 + (number args 1 - number args 0) * number args 2),
  .of .math "between" [.number, .number, .number] "bool" "lo <= x <= hi" fun args _ =>
    let x := number args 0
    .ok (.bool (number args 1 ≤ x && x ≤ number args 2)),
  numeric "normalize" 3 "Map x from [lo, hi] onto [0, 1]" fun args => do
    let low := number args 1
    finite "normalize" ((number args 0 - low) / (← nonzero (number args 2 - low))),
  .of .math "isnan" [.any] "bool" "True for NaN or null" fun args _ => do
    return .bool (isMissing (← argument args 0)),
  (Function.of .math "nz" [.any, .any] "any" "Replace NaN or null with a fallback (default 0)"
    fun args _ => do
      return orElse (← argument args 0) (args[1]?.getD (.int 0))).withArity (.range 1 2),
  (Function.of .math "approx_eq" [.number, .number, .number] "bool"
    "|a - b| <= tolerance (default 1e-9)" fun args _ =>
      let tolerance := (args[2]?.bind Value.asDouble?).getD 1e-9
      .ok (.bool ((number args 0 - number args 1).abs ≤ tolerance))).withArity (.range 2 3)]

end TradingRules.Builtin.Math
