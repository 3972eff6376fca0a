import TradingRules.Proofs.Double.Comparing
import TradingRules.Proofs.Regime.BarClose

/-!
# Looking at a frame again

The second look at a frame finds no newer bar and the same bar in progress, so the state stays as it is
(`trigger_trigger`). It says that nothing has changed exactly if the state equals itself, which a
state with a NaN among its readings does not (`State.same_self_iff`).
-/

namespace TradingRules.Regime

variable {φ : Type} {c : Classifier} {frame : Frame} {bar : ClosedBar} {s : State} {m : Monitor}

-- ---------------------------------------------------------------------------
-- States that equal themselves
-- ---------------------------------------------------------------------------

def Indicators.Numbers (indicators : Indicators) : Prop := ∀ e ∈ indicators, e.2.isNaN = false

theorem Snapshot.numbers_of_sameIndicators {a b : Indicators} (h : sameIndicators a b = true) :
    a.Numbers ∧ b.Numbers := by
  fun_induction sameIndicators a b with
  | case1 => exact ⟨nofun, nofun⟩
  | case2 j x as k y bs ih =>
    simp only [Bool.and_eq_true] at h
    obtain ⟨⟨-, hvalue⟩, hrest⟩ := h
    obtain ⟨hx, hy⟩ := Double.isNaN_of_beq hvalue
    exact ⟨List.forall_mem_cons.mpr ⟨hx, (ih hrest).1⟩, List.forall_mem_cons.mpr ⟨hy, (ih hrest).2⟩⟩
  | case3 => cases h

theorem Snapshot.sameIndicators_self {a : Indicators} (h : a.Numbers) : sameIndicators a a = true := by
  induction a with
  | nil => rfl
  | cons e rest ih =>
    obtain ⟨hfirst, hrest⟩ := List.forall_mem_cons.mp h
    simp [sameIndicators, Double.beq_self_iff.mpr hfirst, ih hrest]

theorem Snapshot.numbers_of_same {a b : Snapshot} (h : a.same b = true) :
    a.indicators.Numbers ∧ b.indicators.Numbers := by
  simp only [same, Bool.and_eq_true] at h
  exact numbers_of_sameIndicators h.1.1.2

theorem Snapshot.same_self_iff {a : Snapshot} : a.same a = true ↔ a.indicators.Numbers := by
  refine ⟨fun h => (numbers_of_same h).1, fun h => ?_⟩
  simp [same, sameIndicators_self h]

namespace State

structure Numbers (s : State) : Prop where
  current : s.current.indicators.Numbers
  lastClosed : s.lastClosed.indicators.Numbers
  previousClosed : ∀ a ∈ s.previousClosed, a.indicators.Numbers

theorem numbers_of_same {a b : State} (h : a.same b = true) : a.Numbers ∧ b.Numbers := by
  simp only [same, Bool.and_eq_true] at h
  obtain ⟨⟨hcurrent, hlast⟩, hprevious⟩ := h
  have hboth : (∀ x ∈ a.previousClosed, x.indicators.Numbers) ∧
      ∀ x ∈ b.previousClosed, x.indicators.Numbers := by
    split at hprevious
    · rename_i ha hb
      simp [ha, hb]
    · rename_i x y ha hb
      simpa [ha, hb] using Snapshot.numbers_of_same hprevious
    · cases hprevious
  obtain ⟨hac, hbc⟩ := Snapshot.numbers_of_same hcurrent
  obtain ⟨hal, hbl⟩ := Snapshot.numbers_of_same hlast
  exact ⟨⟨hac, hal, hboth.1⟩, ⟨hbc, hbl, hboth.2⟩⟩

theorem same_self_iff : s.same s = true ↔ s.Numbers := by
  refine ⟨fun h => (numbers_of_same h).1, fun h => ?_⟩
  have hprevious := h.previousClosed
  simp only [same, Snapshot.same_self_iff.mpr h.current, Snapshot.same_self_iff.mpr h.lastClosed,
    Bool.true_and]
  cases hs : s.previousClosed with
  | none => rfl
  | some a => exact Snapshot.same_self_iff.mpr (hprevious a hs)

end State

-- ---------------------------------------------------------------------------
-- The second look
-- ---------------------------------------------------------------------------

namespace State

theorem current_next (c : Classifier) (s : State) (frame : Frame) :
    (s.next c frame).current = c.passing frame := by
  simp only [next]
  split
  · rfl
  · split <;> rfl

/-- After a look at a frame its bar is fixed, or one that is not earlier. -/
theorem isNewer_next (hclosed : frame.closed = some bar) : (s.next c frame).isNewer bar = false := by
  cases hnewer : s.isNewer bar with
  | true =>
    rw [next_of_newer hclosed hnewer]
    simp [isNewer, Classifier.closing]
  | false =>
    rw [next_of_not_newer (by simpa [hclosed] using hnewer)]
    exact hnewer

theorem next_next (c : Classifier) (s : State) (frame : Frame) :
    (s.next c frame).next c frame = s.next c frame := by
  rw [next_of_not_newer fun bar hclosed => isNewer_next hclosed, ← current_next c s frame]

end State

/-- The second look leaves the monitor as it is, and says so unless the state differs from itself. -/
theorem Monitor.trigger_trigger (m : Monitor) (frame : Frame) :
    let once := (m.trigger (some frame)).2
    once.trigger (some frame) = (!once.state.same once.state, once) := by
  have hkept : ∀ {m : Monitor}, (m.state.next m.classifier frame).same m.state = true →
      m.trigger (some frame) = (false, m) := by
    intro m h
    simp [trigger, h]
  by_cases hsame : (m.state.next m.classifier frame).same m.state = true
  · have hself : m.state.same m.state = true := State.same_self_iff.mpr (State.numbers_of_same hsame).2
    simp [hkept hsame, hself]
  · have honce : (m.trigger (some frame)).2 = { m with state := m.state.next m.classifier frame } := by
      simp [trigger, hsame]
    intro once
    simp only [once, honce, trigger, State.next_next]
    split <;> simp_all

-- ---------------------------------------------------------------------------
-- The readings of a state after a run
-- ---------------------------------------------------------------------------

@[simp] theorem Classifier.indicators_snapshot (c : Classifier) (indicators : Indicators)
    (moment : Moment) (time : Instant) : (c.snapshot indicators moment time).indicators = indicators := by
  simp only [snapshot]
  cases c.rule? indicators <;> rfl

theorem Snapshot.Alike.numbers_iff {a b : Snapshot} (h : a.Alike b) :
    a.indicators.Numbers ↔ b.indicators.Numbers := by
  rcases h.indicators with heq | hsame
  · rw [heq]
  · obtain ⟨ha, hb⟩ := Snapshot.numbers_of_sameIndicators hsame
    exact iff_of_true ha hb

theorem Told.numbers_iff {frames : List Frame} (h : Told c (frame :: frames) s) :
    s.Numbers ↔ frame.live.Numbers ∧
      ∀ bar ∈ (records ((frame :: frames).filterMap Frame.closed)).take 2, bar.indicators.Numbers := by
  have hcurrent : s.current.indicators.Numbers ↔ frame.live.Numbers := by
    rw [← h.current.numbers_iff]
    simp [Classifier.passing]
  have hstate : s.Numbers ↔ s.current.indicators.Numbers ∧ s.lastClosed.indicators.Numbers ∧
      ∀ a ∈ s.previousClosed, a.indicators.Numbers :=
    ⟨fun h => ⟨h.current, h.lastClosed, h.previousClosed⟩, fun h => ⟨h.1, h.2.1, h.2.2⟩⟩
  have hunknown : (Snapshot.unknown .barClose).indicators.Numbers := List.forall_mem_nil _
  rw [hstate, hcurrent, h.lastClosed, h.previousClosed]
  rcases records ((frame :: frames).filterMap Frame.closed) with _ | ⟨last, _ | ⟨before, rest⟩⟩ <;>
    simp [Classifier.closing, hunknown]

namespace FedMonitor

variable {answer : φ → Option Frame}

theorem trigger_trigger {m : FedMonitor φ} (hframe : m.frame? answer = some frame) :
    let once := (m.trigger answer).2
    once.trigger answer = (!once.monitor.state.same once.monitor.state, once) := by
  intro once
  have honce : once = { m with monitor := (m.monitor.trigger (some frame)).2 } := by
    simp only [once, trigger, hframe]
  have hagain : once.frame? answer = some frame := by
    rw [honce]
    exact hframe
  have hmonitor := Monitor.trigger_trigger m.monitor frame
  dsimp only at hmonitor
  rw [trigger, hagain, honce]
  dsimp only
  rw [hmonitor]

/-- After any run, a second trigger on the same frame leaves the monitor as it is. It returns false exactly
if no reading of the frame, or of the last two closed bars that were fixed, is a NaN. -/
theorem trigger_again (c : Classifier) (calls : List (Call φ))
    (hframe : (attached calls).bind answer = some frame) :
    let once := ((run c calls).trigger answer).2
    let bars := records ((frame :: framesSeen calls).filterMap Frame.closed)
    (once.trigger answer).2 = once ∧
      ((once.trigger answer).1 = false ↔
        frame.live.Numbers ∧ ∀ bar ∈ bars.take 2, bar.indicators.Numbers) := by
  intro once bars
  have hseen : (run c calls).frame? answer = some frame := by rw [frame?, feed_run, hframe]
  have hagain : once.trigger answer = (!once.monitor.state.same once.monitor.state, once) :=
    trigger_trigger hseen
  have htold : Told c (frame :: framesSeen calls) once.monitor.state := by
    simp only [once, trigger, hseen]
    exact (told_run c calls).trigger (classifier_run c calls) frame
  rw [hagain, Bool.not_eq_false', State.same_self_iff, htold.numbers_iff]
  exact ⟨rfl, Iff.rfl⟩

def reading (value : Double) : Frame := ⟨⟨60, 0⟩, [("rsi", value)], none⟩

def triggered (frame : Frame) : FedMonitor Frame :=
  ((run .standard [.attach frame]).trigger some).2

theorem trigger_again_of_number :
    (attached [.attach (reading 55)]).bind some = some (reading 55) ∧
      ((triggered (reading 55)).trigger some).2 = triggered (reading 55) ∧
      ((triggered (reading 55)).trigger some).1 = false := by
  have hframe : (attached [.attach (reading 55)]).bind some = some (reading 55) := rfl
  obtain ⟨hkept, hanswer⟩ := trigger_again .standard [.attach (reading 55)] hframe
  have hnumbers : (reading 55).live.Numbers := List.forall_mem_singleton.mpr (by decide)
  exact ⟨hframe, hkept, hanswer.mpr ⟨hnumbers, nofun⟩⟩

/-- A NaN is reported as a change at every look, though nothing has changed. -/
theorem trigger_again_of_nan :
    ((triggered (reading .notANumber)).trigger some).1 = true ∧
      ((triggered (reading .notANumber)).trigger some).2 = triggered (reading .notANumber) := by
  have htold : Told .standard [reading .notANumber] (triggered (reading .notANumber)).monitor.state :=
    told_run .standard [.trigger some, .attach (reading .notANumber)]
  have hnan : ¬(reading .notANumber).live.Numbers :=
    fun h => absurd (h ("rsi", .notANumber) List.mem_cons_self) (by decide)
  have hdiffers : (triggered (reading .notANumber)).monitor.state.same
      (triggered (reading .notANumber)).monitor.state = false := by
    rw [Bool.eq_false_iff, ne_eq, State.same_self_iff, htold.numbers_iff]
    exact fun h => hnan h.1
  have hframe : (run .standard [.attach (reading .notANumber)]).frame? some =
    some (reading .notANumber) := rfl
  have hagain : (triggered (reading .notANumber)).trigger some = _ := trigger_trigger hframe
  rw [hagain]
  exact ⟨congrArg Bool.not hdiffers, rfl⟩

end FedMonitor

end TradingRules.Regime
