import TradingRules.Regime.Classifier
import TradingRules.Eval.Context

/-!
# Watching the regime bar by bar

The regime of the bar in progress may change with every look. That of a closed bar is fixed at the
first look at a bar later than all before; a bar that is looked at again changes nothing.
-/

namespace TradingRules.Regime

structure ClosedBar where
  time : Instant
  indicators : Indicators

/-- What a feed knows at one moment. -/
structure Frame where
  time : Instant
  live : Indicators
  closed : Option ClosedBar

/-- `previousClosed` is there once two bars have closed. -/
structure State where
  current : Snapshot
  lastClosed : Snapshot
  previousClosed : Option Snapshot

namespace State

def initial : State := ⟨.unknown .live, .unknown .barClose, none⟩

/-- The last closed bar, if there is one. -/
def lastBar? (s : State) : Option Snapshot := s.lastClosed.barTime.map fun _ => s.lastClosed

def changed (s : State) : Bool := Snapshot.changed s.previousClosed s.lastBar?

def same (a b : State) : Bool :=
  a.current.same b.current && a.lastClosed.same b.lastClosed &&
    match a.previousClosed, b.previousClosed with
    | none, none => true
    | some a, some b => a.same b
    | _, _ => false

/-- The entries below `regime.`. -/
def values (s : State) : Dict Value :=
  Dict.ofList [
    ("current", .str s.current.label),
    ("current_priority", .int s.current.priority),
    ("last_closed", .str s.lastClosed.label),
    ("priority", .int s.lastClosed.priority),
    ("changed", .bool s.changed)]

/-- Whether a closed bar is later than the last one. -/
def isNewer (s : State) (bar : ClosedBar) : Bool :=
  match s.lastClosed.barTime with
  | none => true
  | some time => time.before bar.time

/-- The state after a look at a frame. -/
def next (c : Classifier) (s : State) (frame : Frame) : State :=
  let current := c.snapshot frame.live .live frame.time
  match frame.closed with
  | none => { s with current }
  | some bar =>
    if s.isNewer bar then
      ⟨current, c.snapshot bar.indicators .barClose bar.time, s.lastBar?⟩
    else { s with current }

end State

structure Monitor where
  classifier : Classifier
  state : State

namespace Monitor

def ofClassifier (c : Classifier) : Monitor := ⟨c, .initial⟩

/-- Looks at a frame, if there is one, and says whether the state has changed. -/
def trigger (m : Monitor) (frame : Option Frame) : Bool × Monitor :=
  match frame with
  | none => (false, m)
  | some frame =>
    let next := m.state.next m.classifier frame
    if next.same m.state then (false, m) else (true, { m with state := next })

end Monitor

/-- A monitor together with the feed attached to it. A feed answers anew at each look, maybe with no
frame. -/
structure FedMonitor (φ : Type) where
  monitor : Monitor
  feed : Option φ

namespace FedMonitor

variable {φ : Type}

def ofClassifier (c : Classifier) : FedMonitor φ := ⟨.ofClassifier c, none⟩

def attach (m : FedMonitor φ) (feed : φ) : FedMonitor φ := { m with feed := some feed }

def detach (m : FedMonitor φ) : FedMonitor φ := { m with feed := none }

/-- The frame the attached feed answers with. -/
def frame? (m : FedMonitor φ) (answer : φ → Option Frame) : Option Frame := m.feed.bind answer

def trigger (m : FedMonitor φ) (answer : φ → Option Frame) : Bool × FedMonitor φ :=
  let (changed, monitor) := m.monitor.trigger (m.frame? answer)
  (changed, { m with monitor })

end FedMonitor

/-- A monitor together with the frame it sees, which stays the same during one evaluation. -/
structure Watch where
  monitor : Monitor
  frame : Option Frame

instance : RegimeHost Watch where
  recompute w :=
    let (changed, monitor) := w.monitor.trigger w.frame
    (changed, { w with monitor })
  lastClosed w := w.monitor.state.lastClosed.label
  changed w := w.monitor.state.changed
  current w := w.monitor.state.current.label

end TradingRules.Regime
