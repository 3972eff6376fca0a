import TradingRules.Double.Basic

/-!
# Running computations

A computation that goes through a series once and shows its state after every element. The state
after an element depends on the elements up to it alone.
-/

namespace TradingRules.Running

variable {α σ : Type}

/-- The states after each element. -/
def states (step : σ → α → σ) : σ → List α → List σ
  | _, [] => []
  | s, a :: rest => step s a :: states step (step s a) rest

/-- Every element beside the one `lag` places before it. -/
def beside (lag : Nat) (xs : List α) : List (α × Option α) :=
  xs.zip (List.replicate (min lag xs.length) none ++ xs.map some)

/-- Sums over the last `width` elements, kept by adding what comes in and taking off what leaves. -/
def sums (width : Nat) (xs : List Double) : List Double :=
  states
    (fun sum (entering, leaving) =>
      match leaving with
      | none => sum + entering
      | some old => sum + entering - old)
    0 (beside width xs)

/-- A smoothed value: the sum of the elements while fewer than `width` are seen, their mean with the
last of them, and from then on the value before updated by each element. -/
structure Smooth where
  seen : Nat
  value : Double

def smooth (width : Nat) (update : Double → Double → Double) (s : Smooth) (x : Double) : Smooth :=
  let value :=
    if s.seen + 1 < width then s.value + x
    else if s.seen + 1 = width then (s.value + x) / Double.ofNat width
    else update s.value x
  ⟨s.seen + 1, value⟩

/-- The value after each element. -/
def smoothed (width : Nat) (update : Double → Double → Double) (xs : List Double) : List Double :=
  (states (smooth width update) ⟨0, 0⟩ xs).map Smooth.value

/-- The value before counts `width - 1` times beside the new element. -/
def wilder (width : Nat) (value x : Double) : Double :=
  (value * Double.ofNat (width - 1) + x) / Double.ofNat width

/-- The new element has the weight `2 / (width + 1)`. -/
def exponential (width : Nat) (value x : Double) : Double :=
  let weight := 2 / (Double.ofNat width + 1)
  x * weight + value * (1 - weight)

/-- The sum of a list, begun from the negative zero, to which nothing is lost. -/
def total (xs : List Double) : Double := xs.foldl (· + ·) (-0.0)

/-- Mean and population standard deviation. -/
def meanAndDeviation (xs : List Double) : Double × Double :=
  let n := Double.ofNat xs.length
  let mean := total xs / n
  (mean, (total (xs.map fun x => (x - mean) * (x - mean)) / n).sqrt)

/-- The last `width` elements up to each place, for the places that have as many before them. -/
def windows (width : Nat) (xs : List α) : List (Option (List α)) :=
  xs.mapIdx fun i _ =>
    if width ≤ i + 1 then some ((xs.drop (i + 1 - width)).take width) else none

end TradingRules.Running
