import TradingRules.Double.Basic
import TradingRules.Eval.Failure

/-!
# Operations with a domain

Outside its domain such an operation has no result, and the evaluation that asks for one is aborted.
Whoever uses it sees to it before that the operands are in the domain.
-/

namespace TradingRules.Strict

variable {α : Type}

/-- The element at a place. -/
def item (xs : List α) (i : Nat) : Except Failure α :=
  match xs[i]? with
  | some x => .ok x
  | none => .error .abort

/-- The elements from `start` up to `stop`. -/
def part (xs : List α) (start stop : Nat) : Except Failure (List α) :=
  if start ≤ stop ∧ stop ≤ xs.length then .ok ((xs.take stop).drop start) else .error .abort

/-- The elements from `start` on. -/
def rest (xs : List α) (start : Nat) : Except Failure (List α) := part xs start xs.length

/-- The quotient whose remainder is not negative. -/
def quotient (a b : Int64) : Except Failure Int64 :=
  if b = 0 ∨ (a = Int64.minValue ∧ b = -1) then .error .abort
  else .ok (Int64.ofInt (a.toInt / b.toInt))

/-- The nearest number to `x` from `low` to `high`; a NaN stays one. -/
def clamp (x low high : Double) : Except Failure Double :=
  if low ≤ high then
    let x := if x < low then low else x
    .ok (if high < x then high else x)
  else .error .abort

end TradingRules.Strict
