import TradingRules.Expr.Basic
import TradingRules.Eval.Strict
import TradingRules.Double.Remainder
import TradingRules.Decimal.Reading
import TradingRules.Text.Search

/-!
# Operators on values

Arithmetic on two integers is exact and stays an integer; a result past 64 bits is refused. With a
float on either side both operands become floats. A zero divisor is refused in both.
-/

namespace TradingRules

namespace UnaryOp

def apply : UnaryOp → Value → Except Failure Value
  | .not, .bool b => .ok (.bool !b)
  | .not, v => .error (.typeMismatch "!" "bool" v.typeName)
  | .negate, .int i => exactly "-" (-i.toInt)
  | .negate, .float x => .ok (.float (-x))
  | .negate, v => .error (.typeMismatch "-" "number" v.typeName)
where
  exactly (symbol : String) (i : Int) : Except Failure Value :=
    match Decimal.int64? i with
    | some n => .ok (.int n)
    | none => .error (.typeMismatch symbol "result within int64 range" "overflow")

end UnaryOp

namespace BinaryOp

/-- An integer result, if it fits. -/
def exactly (op : BinaryOp) (i : Int) : Except Failure Value :=
  match Decimal.int64? i with
  | some n => .ok (.int n)
  | none => .error (.typeMismatch op.symbol "result within int64 range" "overflow")

def mismatch (op : BinaryOp) (expected : String) (l r : Value) : Except Failure Value :=
  .error (.typeMismatch op.symbol expected (l.typeName ++ " and " ++ r.typeName))

def onDoubles (op : BinaryOp) (l r : Value) (f : Double → Double → Except Failure Value) :
    Except Failure Value :=
  match l.asDouble?, r.asDouble? with
  | some x, some y => f x y
  | _, _ => mismatch op "numbers" l r

/-- A comparison with a NaN is false. -/
def relate (op : BinaryOp) (holds : Ordering → Bool) (l r : Value) : Except Failure Value :=
  match l.order? r with
  | some o => .ok (.bool (holds o))
  | none =>
    if l.isNumber && r.isNumber then .ok (.bool false)
    else mismatch op "comparable operands" l r

def contained (op : BinaryOp) (l r : Value) : Except Failure Value :=
  match r, l with
  | .list items, l => .ok (.bool (items.any fun v => v.looseEq l))
  | .map fields, .str key => .ok (.bool (Dict.contains fields key))
  | .map _, _ => mismatch op "string key" l r
  | .str hay, .str needle => .ok (.bool (Text.contains hay.toList needle.toList))
  | .str _, _ => mismatch op "string in string" l r
  | _, _ => mismatch op "list, map or string on the right" l r

/-- The remainder of two integers is refused where their quotient is. -/
def divided (op : BinaryOp) (whole : Int → Int → Int) (real : Double → Double → Double)
    (l r : Value) : Except Failure Value :=
  match l, r with
  | .int a, .int b =>
    if b = 0 then .error .divisionByZero
    else do
      let _ ← exactly op (a.toInt.tdiv b.toInt)
      exactly op (whole a.toInt b.toInt)
  | l, r => onDoubles op l r fun x y =>
    if y == 0 then .error .divisionByZero else .ok (.float (real x y))

/-- The value of `l op r` for operands that are both evaluated. -/
def apply (op : BinaryOp) (l r : Value) : Except Failure Value :=
  match op with
  | .eq => .ok (.bool (l.looseEq r))
  | .ne => .ok (.bool !(l.looseEq r))
  | .lt => relate op (· == .lt) l r
  | .le => relate op (· != .gt) l r
  | .gt => relate op (· == .gt) l r
  | .ge => relate op (· != .lt) l r
  | .member => contained op l r
  | .add =>
    match l, r with
    | .int a, .int b => exactly op (a.toInt + b.toInt)
    | .str a, .str b => .ok (.str (a ++ b))
    | .list a, .list b => .ok (.list (a ++ b))
    | l, r => onDoubles op l r fun x y => .ok (.float (x + y))
  | .sub =>
    match l, r with
    | .int a, .int b => exactly op (a.toInt - b.toInt)
    | l, r => onDoubles op l r fun x y => .ok (.float (x - y))
  | .mul =>
    match l, r with
    | .int a, .int b => exactly op (a.toInt * b.toInt)
    | l, r => onDoubles op l r fun x y => .ok (.float (x * y))
  | .div => divided op Int.tdiv (· / ·) l r
  | .rem => divided op Int.tmod Double.remainder l r
  | .and =>
    match l, r with
    | .bool a, .bool b => .ok (.bool (a && b))
    | l, r => mismatch op "bool operands" l r
  | .or =>
    match l, r with
    | .bool a, .bool b => .ok (.bool (a || b))
    | l, r => mismatch op "bool operands" l r

end BinaryOp

namespace Value

/-- A negative position counts from the end. -/
def resolveIndex? (length : Nat) (i : Int64) : Option Nat :=
  let place := if i < 0 then length + i.toInt else i.toInt
  if 0 ≤ place ∧ place < length then some place.toNat else none

def outOfRange (kind : String) (length : Nat) (i : Int64) : Except Failure Value :=
  .error <| .function "index" <|
    "index " ++ toString i.toInt ++ " out of range for " ++ kind ++ " of length " ++ toString length

/-- `base[key]`. -/
def index (base key : Value) : Except Failure Value :=
  match base, key with
  | .list items, .int i =>
    match resolveIndex? items.length i with
    | some place => Strict.item items place
    | none => outOfRange "list" items.length i
  | .map fields, .str key =>
    match Dict.find? key fields with
    | some v => .ok v
    | none => .error (.unknownVariable key)
  | .str s, .int i =>
    let chars := s.toList
    match resolveIndex? chars.length i with
    | some place => do return .str (String.ofList [← Strict.item chars place])
    | none => outOfRange "string" chars.length i
  | base, key =>
    .error <| .typeMismatch "[]" "list[int], map[string] or string[int]" <|
      base.typeName ++ "[" ++ key.typeName ++ "]"

end Value

end TradingRules
