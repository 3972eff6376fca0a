import TradingRules.Regime.Monitor

/-!
# What a monitor tells after a run

Feeds are attached and detached, and each look sees a frame or none. A closed bar is a record if it
is later than every closed bar seen before; the state after the run is told by the records and by the
last frame (`state_run`). Calls, frames and bars are listed latest first.
-/

namespace TradingRules.Regime

variable {φ : Type} {c : Classifier} {frame : Frame} {bar : ClosedBar} {s : State} {m : Monitor}

-- ---------------------------------------------------------------------------
-- Snapshots
-- ---------------------------------------------------------------------------

theorem Classifier.label_snapshot (c : Classifier) (indicators : Indicators) (moment : Moment)
    (time : Instant) : (c.snapshot indicators moment time).label = c.label indicators := by
  simp only [snapshot, label]
  cases c.rule? indicators <;> rfl

@[simp] theorem Classifier.barTime_snapshot (c : Classifier) (indicators : Indicators)
    (moment : Moment) (time : Instant) : (c.snapshot indicators moment time).barTime = some time := by
  simp only [snapshot]
  cases c.rule? indicators <;> rfl

def Classifier.closing (c : Classifier) (bar : ClosedBar) : Snapshot :=
  c.snapshot bar.indicators .barClose bar.time

theorem Classifier.label_closing (c : Classifier) (bar : ClosedBar) :
    (c.closing bar).label = c.label bar.indicators := c.label_snapshot ..

def Classifier.passing (c : Classifier) (frame : Frame) : Snapshot :=
  c.snapshot frame.live .live frame.time

/-- The two tell the same; their indicators may differ in the sign of a zero. -/
structure Snapshot.Alike (a b : Snapshot) : Prop where
  label : a.label = b.label
  priority : a.priority = b.priority
  indicators : a.indicators = b.indicators ∨ Snapshot.sameIndicators a.indicators b.indicators = true
  moment : a.moment = b.moment
  barTime : a.barTime = b.barTime

theorem Snapshot.Alike.self (a : Snapshot) : a.Alike a := ⟨rfl, rfl, .inl rfl, rfl, rfl⟩

theorem Snapshot.Alike.of_same {a b : Snapshot} (h : a.same b = true) : a.Alike b := by
  simp only [Snapshot.same, Bool.and_eq_true, beq_iff_eq] at h
  obtain ⟨⟨⟨⟨hlabel, hpriority⟩, hindicators⟩, hmoment⟩, htime⟩ := h
  exact ⟨hlabel, hpriority, .inr hindicators, hmoment, htime⟩

-- ---------------------------------------------------------------------------
-- One look
-- ---------------------------------------------------------------------------

theorem not_same_next (hclosed : frame.closed = some bar) (hnewer : s.isNewer bar = true) :
    (s.next c frame).same s = false := by
  rw [← Bool.not_eq_true]
  intro hsame
  simp only [State.next, hclosed, hnewer, if_true, State.same, Bool.and_eq_true] at hsame
  have htime := (Snapshot.Alike.of_same hsame.1.2).barTime
  rw [Classifier.barTime_snapshot] at htime
  simp [State.isNewer, ← htime] at hnewer

theorem next_of_newer (hclosed : frame.closed = some bar) (hnewer : s.isNewer bar = true) :
    s.next c frame = ⟨c.passing frame, c.closing bar, s.lastBar?⟩ := by
  simp [State.next, hclosed, hnewer, Classifier.passing, Classifier.closing]

theorem next_of_not_newer (h : ∀ bar ∈ frame.closed, s.isNewer bar = false) :
    s.next c frame = { s with current := c.passing frame } := by
  simp only [State.next, Classifier.passing]
  split
  · rfl
  · rename_i bar hclosed
    simp [h bar hclosed]

theorem classifier_trigger (m : Monitor) (frame : Option Frame) :
    (m.trigger frame).2.classifier = m.classifier := by
  simp only [Monitor.trigger]
  split
  · rfl
  · split <;> rfl

/-- A look either takes the next state or finds that it is the old one. -/
theorem trigger_some (m : Monitor) (frame : Frame) :
    (m.trigger (some frame)).2.state = m.state.next m.classifier frame ∨
      (m.state.next m.classifier frame).same m.state = true ∧
        (m.trigger (some frame)).2.state = m.state := by
  simp only [Monitor.trigger]
  split
  · exact .inr ⟨‹_›, rfl⟩
  · exact .inl rfl

theorem current_trigger (m : Monitor) (frame : Frame) :
    (m.classifier.passing frame).Alike (m.trigger (some frame)).2.state.current := by
  have hcurrent : (m.state.next m.classifier frame).current = m.classifier.passing frame := by
    simp only [State.next]
    split
    · rfl
    · split <;> rfl
  rcases trigger_some m frame with hnext | ⟨hsame, hold⟩
  · rw [hnext, hcurrent]
    exact .self _
  · simp only [State.same, Bool.and_eq_true] at hsame
    rw [hold, ← hcurrent]
    exact .of_same hsame.1.1

theorem closed_trigger_of_newer (hclosed : frame.closed = some bar)
    (hnewer : m.state.isNewer bar = true) :
    (m.trigger (some frame)).2.state.lastClosed = m.classifier.closing bar ∧
      (m.trigger (some frame)).2.state.previousClosed = m.state.lastBar? := by
  rcases trigger_some m frame with hnext | ⟨hsame, -⟩
  · rw [hnext, next_of_newer hclosed hnewer]
    exact ⟨rfl, rfl⟩
  · rw [not_same_next hclosed hnewer] at hsame
    cases hsame

theorem closed_trigger_of_not_newer (h : ∀ bar ∈ frame.closed, m.state.isNewer bar = false) :
    (m.trigger (some frame)).2.state.lastClosed = m.state.lastClosed ∧
      (m.trigger (some frame)).2.state.previousClosed = m.state.previousClosed := by
  rcases trigger_some m frame with hnext | ⟨-, hold⟩
  · rw [hnext, next_of_not_newer h]
    exact ⟨rfl, rfl⟩
  · rw [hold]
    exact ⟨rfl, rfl⟩

-- ---------------------------------------------------------------------------
-- Records
-- ---------------------------------------------------------------------------

/-- The closed bars that are later than every one before them. -/
def records : List ClosedBar → List ClosedBar
  | [] => []
  | bar :: earlier =>
    if earlier.all fun old => old.time.before bar.time then bar :: records earlier
    else records earlier

theorem records_eq_nil_iff {bars : List ClosedBar} : records bars = [] ↔ bars = [] := by
  induction bars with
  | nil => simp [records]
  | cons bar earlier ih =>
    simp only [records]
    split
    · simp
    · rename_i hnot
      rw [ih]
      constructor
      · rintro rfl
        exact absurd rfl hnot
      · intro h
        cases h

theorem not_before_of_records {bars rest : List ClosedBar} {last : ClosedBar}
    (h : records bars = last :: rest) : ∀ bar ∈ bars, last.time.before bar.time = false := by
  induction bars generalizing last rest with
  | nil => cases h
  | cons bar earlier ih =>
    simp only [records] at h
    split at h
    · rename_i hall
      cases h
      rintro other (_ | ⟨_, hmem⟩)
      · exact Instant.before_self _
      · have hbefore := List.all_eq_true.mp hall other hmem
        rw [← Bool.not_eq_true]
        intro hafter
        have hcycle := Instant.before_trans hbefore hafter
        simp at hcycle
    · rename_i hnot
      rintro other (_ | ⟨_, hmem⟩)
      · rw [← Bool.not_eq_true]
        refine fun hafter => hnot (List.all_eq_true.mpr fun old hold => ?_)
        exact Instant.before_of_not_before (ih h old hold) hafter
      · exact ih h other hmem

theorem mem_of_mem_records {bars : List ClosedBar} (h : bar ∈ records bars) : bar ∈ bars := by
  induction bars with
  | nil => cases h
  | cons first earlier ih =>
    simp only [records] at h
    split at h
    · rcases List.mem_cons.mp h with rfl | h
      · exact List.mem_cons_self
      · exact List.mem_cons_of_mem _ (ih h)
    · exact List.mem_cons_of_mem _ (ih h)

/-- Whether a bar is a record depends on the record before it only. -/
theorem all_before_iff {bars : List ClosedBar} :
    (bars.all fun old => old.time.before bar.time) = true ↔
      ∀ last ∈ (records bars).head?, last.time.before bar.time = true := by
  constructor
  · intro hall last hlast
    exact List.all_eq_true.mp hall last (mem_of_mem_records (List.mem_of_mem_head? hlast))
  · intro hlast
    refine List.all_eq_true.mpr fun old hold => ?_
    cases heq : records bars with
    | nil =>
      rw [records_eq_nil_iff] at heq
      rw [heq] at hold
      cases hold
    | cons last rest =>
      rw [heq] at hlast
      exact Instant.before_of_not_before (not_before_of_records heq old hold) (hlast last rfl)

-- ---------------------------------------------------------------------------
-- What frames tell
-- ---------------------------------------------------------------------------

/-- The state is told by the frames that were seen. -/
structure Told (c : Classifier) (frames : List Frame) (s : State) : Prop where
  lastClosed : s.lastClosed =
    ((records (frames.filterMap Frame.closed))[0]?.map c.closing).getD (.unknown .barClose)
  previousClosed : s.previousClosed =
    (records (frames.filterMap Frame.closed))[1]?.map c.closing
  current : ((frames.head?.map c.passing).getD (.unknown .live)).Alike s.current

theorem told_initial (c : Classifier) : Told c [] .initial := ⟨rfl, rfl, .self _⟩

namespace Told

variable {frames : List Frame}

theorem lastBar? (h : Told c frames s) :
    s.lastBar? = (records (frames.filterMap Frame.closed))[0]?.map c.closing := by
  rw [State.lastBar?, h.lastClosed]
  cases (records (frames.filterMap Frame.closed))[0]? <;> simp [Classifier.closing, Snapshot.unknown]

theorem isNewer_iff (h : Told c frames s) :
    s.isNewer bar = (frames.filterMap Frame.closed).all fun old => old.time.before bar.time := by
  rw [Bool.eq_iff_iff, all_before_iff, State.isNewer, h.lastClosed]
  cases records (frames.filterMap Frame.closed) <;> simp [Classifier.closing, Snapshot.unknown]

theorem trigger (hc : m.classifier = c) (h : Told c frames m.state) (frame : Frame) :
    Told c (frame :: frames) (m.trigger (some frame)).2.state := by
  subst hc
  have hcurrent := current_trigger m frame
  cases hclosed : frame.closed with
  | none =>
    have hnone : ∀ bar ∈ frame.closed, m.state.isNewer bar = false := by simp [hclosed]
    obtain ⟨hlast, hprevious⟩ := closed_trigger_of_not_newer hnone
    refine ⟨?_, ?_, hcurrent⟩
    · rw [hlast, h.lastClosed, List.filterMap_cons_none hclosed]
    · rw [hprevious, h.previousClosed, List.filterMap_cons_none hclosed]
  | some bar =>
    cases hnewer : m.state.isNewer bar with
    | true =>
      obtain ⟨hlast, hprevious⟩ := closed_trigger_of_newer hclosed hnewer
      rw [h.isNewer_iff] at hnewer
      refine ⟨?_, ?_, hcurrent⟩
      · rw [hlast, List.filterMap_cons_some hclosed]
        simp [records, hnewer]
      · rw [hprevious, h.lastBar?, List.filterMap_cons_some hclosed]
        simp [records, hnewer]
    | false =>
      have hstale : ∀ bar ∈ frame.closed, m.state.isNewer bar = false := by
        simpa [hclosed] using hnewer
      obtain ⟨hlast, hprevious⟩ := closed_trigger_of_not_newer hstale
      rw [h.isNewer_iff] at hnewer
      refine ⟨?_, ?_, hcurrent⟩
      · rw [hlast, h.lastClosed, List.filterMap_cons_some hclosed]
        simp [records, hnewer]
      · rw [hprevious, h.previousClosed, List.filterMap_cons_some hclosed]
        simp [records, hnewer]

theorem changed_iff (h : Told c frames s) :
    s.changed = true ↔ ∃ last before rest,
      records (frames.filterMap Frame.closed) = last :: before :: rest ∧
        c.label last.indicators ≠ c.label before.indicators := by
  rw [State.changed, h.lastBar?, h.previousClosed]
  rcases records (frames.filterMap Frame.closed) with _ | ⟨last, _ | ⟨before, rest⟩⟩
  · simp [Snapshot.changed]
  · simp [Snapshot.changed]
  · have hlabels : Snapshot.changed (some (c.closing before)) (some (c.closing last)) = true ↔
        c.label last.indicators ≠ c.label before.indicators := by
      rw [Snapshot.changed, Classifier.label_closing, Classifier.label_closing, bne_iff_ne, ne_comm]
    refine hlabels.trans ⟨fun hne => ⟨last, before, rest, rfl, hne⟩, ?_⟩
    rintro ⟨_, _, _, ⟨⟩, hne⟩
    exact hne

end Told

-- ---------------------------------------------------------------------------
-- Runs
-- ---------------------------------------------------------------------------

namespace FedMonitor

/-- A trigger comes with what each feed answers at that moment. -/
inductive Call (φ : Type) where
  | attach (feed : φ)
  | detach
  | trigger (answer : φ → Option Frame)

def after (m : FedMonitor φ) : Call φ → FedMonitor φ
  | .attach feed => m.attach feed
  | .detach => m.detach
  | .trigger answer => (m.trigger answer).2

def run (c : Classifier) : List (Call φ) → FedMonitor φ
  | [] => .ofClassifier c
  | call :: earlier => (run c earlier).after call

def attached : List (Call φ) → Option φ
  | [] => none
  | .attach feed :: _ => some feed
  | .detach :: _ => none
  | .trigger _ :: earlier => attached earlier

/-- The frames that the calls have shown; a trigger without a feed or without a frame shows none. -/
def framesSeen : List (Call φ) → List Frame
  | [] => []
  | .trigger answer :: earlier => ((attached earlier).bind answer).toList ++ framesSeen earlier
  | _ :: earlier => framesSeen earlier

variable {calls : List (Call φ)}

theorem feed_run (c : Classifier) (calls : List (Call φ)) : (run c calls).feed = attached calls := by
  induction calls with
  | nil => rfl
  | cons call earlier ih =>
    cases call with
    | attach feed => rfl
    | detach => rfl
    | trigger answer => exact ih

theorem classifier_run (c : Classifier) (calls : List (Call φ)) :
    (run c calls).monitor.classifier = c := by
  induction calls with
  | nil => rfl
  | cons call earlier ih =>
    cases call with
    | attach feed => exact ih
    | detach => exact ih
    | trigger answer => exact (classifier_trigger _ _).trans ih

theorem told_run (c : Classifier) (calls : List (Call φ)) :
    Told c (framesSeen calls) (run c calls).monitor.state := by
  induction calls with
  | nil => exact told_initial c
  | cons call earlier ih =>
    cases call with
    | attach feed => exact ih
    | detach => exact ih
    | trigger answer =>
      simp only [framesSeen, run, after, FedMonitor.trigger, frame?, feed_run]
      cases (attached earlier).bind answer with
      | none => exact ih
      | some frame => exact ih.trigger (classifier_run c earlier) frame

/-- After any run the state is a function of the frames seen: the last two closed bars are the last
two records, as they were first seen, the bar in progress is that of the last frame, and a regime is
new if the two records carry different labels. A look without a feed or a frame changes nothing. -/
theorem state_run (c : Classifier) (calls : List (Call φ)) :
    let state := (run c calls).monitor.state
    let bars := records ((framesSeen calls).filterMap Frame.closed)
    state.lastClosed = (bars[0]?.map c.closing).getD (.unknown .barClose) ∧
      state.previousClosed = bars[1]?.map c.closing ∧
      (((framesSeen calls).head?.map c.passing).getD (.unknown .live)).Alike state.current ∧
      (state.changed = true ↔ ∃ last before rest, bars = last :: before :: rest ∧
        c.label last.indicators ≠ c.label before.indicators) ∧
      ∀ answer, (attached calls).bind answer = none →
        (run c calls).trigger answer = (false, run c calls) := by
  have told := told_run c calls
  refine ⟨told.lastClosed, told.previousClosed, told.current, told.changed_iff, ?_⟩
  intro answer hnone
  have hframe : (run c calls).frame? answer = none := by rw [frame?, feed_run, hnone]
  simp only [FedMonitor.trigger, hframe, Monitor.trigger]

end FedMonitor

end TradingRules.Regime
