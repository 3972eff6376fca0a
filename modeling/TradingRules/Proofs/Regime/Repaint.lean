import TradingRules.Regime.CandleFeed
import TradingRules.Proofs.Regime.BarClose
import TradingRules.Proofs.Indicator.Causality

/-!
# A closed bar stays as it is

A monitor looks at a candle series that grows and whose last candle is replaced. Whatever the bar in
progress does, the monitor tells of the bar before it what the series tells of it now, computed anew
(`lastClosed_run`), provided that the series is in order and that no later bar had been fixed before.
-/

namespace TradingRules.Regime

namespace CandleFeed

variable {f g : CandleFeed} {earlier : List Candle} {bar live : Candle} {place : Nat}

/-- The indicators at a place do not depend on what comes later. -/
theorem indicatorsAt_append (periods : Periods) {bars : List Candle} (more : List Candle)
    (hplace : place < bars.length) (close : Double) :
    indicatorsAt ⟨periods, bars ++ more⟩ place close = indicatorsAt ⟨periods, bars⟩ place close := by
  have hreading : ∀ i : Indicator, i.readingAt? (bars ++ more) place = i.readingAt? bars place :=
    fun i => i.readingAt?_of_prefix (List.prefix_append bars more) hplace
  simp only [indicatorsAt, hreading]

def closed? (f : CandleFeed) : Option ClosedBar := f.frame?.bind Frame.closed

/-- The bar that is fixed next: the last closed one, or the first one while it is in progress. -/
def due? (f : CandleFeed) : Option Candle := f.candles[f.candles.length - 2]?

theorem candles_cases (f : CandleFeed) : f.candles = [] ∨ (∃ live, f.candles = [live]) ∨
    ∃ earlier bar live, f.candles = earlier ++ [bar, live] := by
  rcases List.eq_nil_or_concat f.candles with hnil | ⟨front, live, hfront⟩
  · exact .inl hnil
  · rcases List.eq_nil_or_concat front with rfl | ⟨earlier, bar, rfl⟩
    · exact .inr (.inl ⟨live, hfront⟩)
    · exact .inr (.inr ⟨earlier, bar, live, by simpa using hfront⟩)

theorem closed?_of_nil (h : f.candles = []) : f.closed? = none := by
  simp [closed?, frame?, h]

theorem closed?_of_single (h : f.candles = [live]) : f.closed? = none := by
  simp [closed?, frame?, h]

theorem closed?_of_append (h : f.candles = earlier ++ [bar, live]) :
    f.closed? = some ⟨bar.time, f.indicatorsAt earlier.length bar.closing⟩ := by
  simp [closed?, frame?, h]

theorem closed?_eq_some {b : ClosedBar} (h : f.closed? = some b) :
    ∃ earlier bar live, f.candles = earlier ++ [bar, live] ∧
      b = ⟨bar.time, f.indicatorsAt earlier.length bar.closing⟩ := by
  rcases f.candles_cases with hnil | ⟨live, hsingle⟩ | ⟨earlier, bar, live, happend⟩
  · rw [closed?_of_nil hnil] at h
    cases h
  · rw [closed?_of_single hsingle] at h
    cases h
  · rw [closed?_of_append happend, Option.some.injEq] at h
    exact ⟨earlier, bar, live, happend, h.symm⟩

theorem due?_of_append (h : f.candles = earlier ++ [bar, live]) : f.due? = some bar := by
  simp [due?, h]

theorem updateLive_of_append (h : f.candles = earlier ++ [bar, live]) (c : Candle) :
    (f.updateLive c).candles = earlier ++ [bar, c] := by
  simp [updateLive, h]

/-- What is told of a closed bar does not depend on the bar in progress. -/
theorem indicatorsAt_closed (h : f.candles = earlier ++ [bar, live]) (close : Double) :
    f.indicatorsAt earlier.length close =
      indicatorsAt ⟨f.periods, earlier ++ [bar]⟩ earlier.length close := by
  have hsplit : f = ⟨f.periods, (earlier ++ [bar]) ++ [live]⟩ := by
    rw [← List.append_cons, ← h]
  rw [hsplit]
  exact indicatorsAt_append f.periods [live] (by simp) close

/-- Replacing the bar in progress tells nothing new of the closed one. -/
theorem closed?_updateLive (f : CandleFeed) (c : Candle) : (f.updateLive c).closed? = f.closed? := by
  rcases f.candles_cases with hnil | ⟨live, hsingle⟩ | ⟨earlier, bar, live, happend⟩
  · have hnew : (f.updateLive c).candles = [c] := by simp [updateLive, hnil]
    rw [closed?_of_nil hnil, closed?_of_single hnew]
  · have hnew : (f.updateLive c).candles = [c] := by simp [updateLive, hsingle]
    rw [closed?_of_single hsingle, closed?_of_single hnew]
  · have hnew := updateLive_of_append happend c
    rw [closed?_of_append happend, closed?_of_append hnew, indicatorsAt_closed happend,
      indicatorsAt_closed hnew]
    rfl

theorem frame?_of_append {front : List Candle} (h : f.candles = front ++ [live]) : ∃ closed,
    f.frame? = some ⟨live.time, f.indicatorsAt front.length live.closing, closed⟩ := by
  simp [frame?, h]

/-- An indicator reads nothing behind the place it is asked for. So every series but the empty one has a
frame, and what the frame tells of the bar in progress, time and indicators, is what is told of it when a
new bar has closed it. -/
theorem closed?_push (f : CandleFeed) (c : Candle) :
    (∀ (i : Indicator) (candles : List Candle) (place : Nat),
      i.readingAt? candles place = i.readingAt? (candles.take (place + 1)) place) ∧
    (f.frame?.isSome = true ↔ f.candles ≠ []) ∧
    (f.push c).closed? = f.frame?.map fun frame => ⟨frame.time, frame.live⟩ := by
  refine ⟨fun i candles place => (i.readingAt?_take candles place).symm, ?_⟩
  rcases List.eq_nil_or_concat' f.candles with hnil | ⟨front, live, hfront⟩
  · have hnone : f.frame? = none := by simp [frame?, hnil]
    have hpushed : (f.push c).candles = [c] := by simp [push, hnil]
    rw [closed?_of_single hpushed, hnone]
    simp [hnil]
  · obtain ⟨closed, hframe⟩ := frame?_of_append hfront
    have hpushed : (f.push c).candles = front ++ [live, c] := by simp [push, hfront]
    have hlater : (f.push c).indicatorsAt front.length live.closing =
        f.indicatorsAt front.length live.closing :=
      indicatorsAt_append f.periods [c] (by simp [hfront]) live.closing
    rw [closed?_of_append hpushed, hlater, hframe]
    simp [hfront]

end CandleFeed

structure Followed where
  monitor : Monitor
  series : CandleFeed

namespace Followed

inductive Step where
  | push (c : Candle)
  | updateLive (c : Candle)
  | trigger

def after (w : Followed) : Step → Followed
  | .push c => { w with series := w.series.push c }
  | .updateLive c => { w with series := w.series.updateLive c }
  | .trigger => { w with monitor := (w.monitor.trigger w.series.frame?).2 }

def run (w : Followed) (steps : List Step) : Followed := steps.foldl after w

/-- A new bar is later than the one in progress; what replaces the bar in progress has its time. -/
def Step.InOrder (f : CandleFeed) : Step → Prop
  | .push c => ∀ live, f.candles.getLast? = some live → live.time.before c.time = true
  | .updateLive c => ∀ live, f.candles.getLast? = some live → c.time = live.time
  | .trigger => True

def InOrder (w : Followed) : List Step → Prop
  | [] => True
  | step :: rest => step.InOrder w.series ∧ (w.after step).InOrder rest

def last (w : Followed) : Snapshot := w.monitor.state.lastClosed

def Sorted (f : CandleFeed) : Prop :=
  ∀ earlier bar live, f.candles = earlier ++ [bar, live] → bar.time.before live.time = true

/-- A bar that has been fixed is earlier than the one that is due. A new monitor has fixed no bar. -/
def Behind (w : Followed) : Prop :=
  ∀ time, w.last.barTime = some time →
    ∃ bar, w.series.due? = some bar ∧ time.before bar.time = true

/-- The bar that was fixed last is the last closed one, and is told as the series tells it now. -/
def UpToDate (w : Followed) : Prop :=
  ∃ b, w.series.closed? = some b ∧ w.last = w.monitor.classifier.closing b

variable {w : Followed} {c : Candle} {b : ClosedBar}

-- ---------------------------------------------------------------------------
-- Looks
-- ---------------------------------------------------------------------------

theorem closed_of_frame {f : CandleFeed} {frame : Frame} (h : f.frame? = some frame) :
    frame.closed = f.closed? := by
  simp [CandleFeed.closed?, h]

/-- A look fixes the closed bar if that is newer than the last one, and changes the bar in progress
alone otherwise. -/
theorem last_trigger (w : Followed) : (w.after .trigger).last =
    match w.series.closed? with
    | some b => if w.monitor.state.isNewer b then w.monitor.classifier.closing b else w.last
    | none => w.last := by
  cases hframe : w.series.frame? with
  | none => simp [after, last, CandleFeed.closed?, hframe, Monitor.trigger]
  | some frame =>
    have hclosed := closed_of_frame hframe
    simp only [after, last, hframe]
    split
    · rename_i b hb
      rw [hb] at hclosed
      split
      · exact (closed_trigger_of_newer hclosed ‹_›).1
      · rename_i hnot
        exact (closed_trigger_of_not_newer (by simpa [hclosed] using hnot)).1
    · rename_i hnone
      rw [hnone] at hclosed
      exact (closed_trigger_of_not_newer (by simp [hclosed])).1

theorem classifier_after (w : Followed) (step : Step) :
    (w.after step).monitor.classifier = w.monitor.classifier := by
  cases step with
  | push c => rfl
  | updateLive c => rfl
  | trigger => exact classifier_trigger _ _

theorem classifier_run (w : Followed) (steps : List Step) :
    (w.run steps).monitor.classifier = w.monitor.classifier := by
  induction steps generalizing w with
  | nil => rfl
  | cons step rest ih => exact (ih (w.after step)).trans (classifier_after w step)

theorem barTime_of_last_eq (h : w.last = w.monitor.classifier.closing b) :
    w.last.barTime = some b.time := by
  rw [h, Classifier.closing, Classifier.barTime_snapshot]

theorem not_newer_of_last_eq (h : w.last = w.monitor.classifier.closing b) :
    w.monitor.state.isNewer b = false := by
  have htime : w.monitor.state.lastClosed.barTime = some b.time := barTime_of_last_eq h
  simp [State.isNewer, htime]

theorem UpToDate.updateLive (h : w.UpToDate) (c : Candle) :
    (w.after (.updateLive c)).UpToDate := by
  obtain ⟨b, hclosed, hlast⟩ := h
  exact ⟨b, (w.series.closed?_updateLive c).trans hclosed, hlast⟩

theorem UpToDate.last_trigger (h : w.UpToDate) : (w.after .trigger).last = w.last := by
  obtain ⟨b, hclosed, hlast⟩ := h
  rw [Followed.last_trigger, hclosed]
  simp [not_newer_of_last_eq hlast]

theorem UpToDate.trigger (h : w.UpToDate) : (w.after .trigger).UpToDate := by
  have hlast := h.last_trigger
  obtain ⟨b, hclosed, hb⟩ := h
  exact ⟨b, hclosed, by rw [hlast, hb, classifier_after]⟩

-- ---------------------------------------------------------------------------
-- The series
-- ---------------------------------------------------------------------------

theorem append_pair_inj {front earlier : List Candle} {bar live : Candle}
    (h : front ++ [c] = earlier ++ [bar, live]) : front = earlier ++ [bar] ∧ c = live := by
  rw [List.append_cons earlier bar [live]] at h
  simpa using List.append_inj' h rfl

theorem sorted_push (horder : Step.InOrder w.series (.push c)) :
    Sorted (w.after (.push c)).series := by
  intro earlier bar live hcandles
  obtain ⟨hfront, rfl⟩ := append_pair_inj hcandles
  exact horder bar (by simp [hfront])

theorem Sorted.updateLive (h : Sorted w.series) (horder : Step.InOrder w.series (.updateLive c)) :
    Sorted (w.after (.updateLive c)).series := by
  intro earlier bar live hcandles
  obtain ⟨hfront, rfl⟩ := append_pair_inj hcandles
  rcases w.series.candles_cases with hnil | ⟨old, hsingle⟩ | ⟨earlier', bar', old, happend⟩
  · simp [hnil] at hfront
  · simp [hsingle] at hfront
  · obtain ⟨rfl, rfl⟩ : earlier' = earlier ∧ bar' = bar := by simpa [happend] using hfront
    rw [horder old (by simp [happend])]
    exact h _ _ _ happend

theorem Behind.updateLive (h : w.Behind) (horder : Step.InOrder w.series (.updateLive c)) :
    (w.after (.updateLive c)).Behind := by
  intro time htime
  obtain ⟨due, hdue, hbefore⟩ := h time htime
  rcases w.series.candles_cases with hnil | ⟨live, hsingle⟩ | ⟨earlier, bar, live, happend⟩
  · simp [CandleFeed.due?, hnil] at hdue
  · obtain rfl : live = due := by simpa [CandleFeed.due?, hsingle] using hdue
    refine ⟨c, by simp [after, CandleFeed.updateLive, CandleFeed.due?, hsingle], ?_⟩
    rw [horder live (by simp [hsingle])]
    exact hbefore
  · rw [CandleFeed.due?_of_append happend] at hdue
    exact ⟨due, hdue ▸ CandleFeed.due?_of_append (CandleFeed.updateLive_of_append happend c), hbefore⟩

/-- The bar that is due after a push is the one that was in progress. -/
theorem behind_push (hsorted : Sorted w.series) (h : w.UpToDate ∨ w.Behind) :
    (w.after (.push c)).Behind := by
  intro time htime
  have htime : w.last.barTime = some time := htime
  rcases w.series.candles_cases with hnil | ⟨live, hsingle⟩ | ⟨earlier, bar, live, happend⟩
  · rcases h with ⟨b, hclosed, -⟩ | hbehind
    · rw [CandleFeed.closed?_of_nil hnil] at hclosed
      cases hclosed
    · obtain ⟨due, hdue, -⟩ := hbehind time htime
      simp [CandleFeed.due?, hnil] at hdue
  · rcases h with ⟨b, hclosed, -⟩ | hbehind
    · rw [CandleFeed.closed?_of_single hsingle] at hclosed
      cases hclosed
    · obtain ⟨due, hdue, hbefore⟩ := hbehind time htime
      obtain rfl : live = due := by simpa [CandleFeed.due?, hsingle] using hdue
      exact ⟨live, by simp [after, CandleFeed.push, CandleFeed.due?, hsingle], hbefore⟩
  · have hnew : (w.after (.push c)).series.candles = (earlier ++ [bar]) ++ [live, c] := by
      simp [after, CandleFeed.push, happend]
    refine ⟨live, CandleFeed.due?_of_append hnew, ?_⟩
    have hlive : bar.time.before live.time = true := hsorted _ _ _ happend
    rcases h with ⟨b, hclosed, hlast⟩ | hbehind
    · rw [CandleFeed.closed?_of_append happend, Option.some.injEq] at hclosed
      rw [barTime_of_last_eq hlast, Option.some.injEq] at htime
      rw [← htime, ← hclosed]
      exact hlive
    · obtain ⟨due, hdue, hbefore⟩ := hbehind time htime
      rw [CandleFeed.due?_of_append happend, Option.some.injEq] at hdue
      exact Instant.before_trans hbefore (hdue ▸ hlive)

theorem upToDate_trigger (h : w.UpToDate ∨ w.Behind) (hclosed : w.series.closed? = some b) :
    (w.after .trigger).UpToDate := by
  rcases h with hup | hbehind
  · exact hup.trigger
  · refine ⟨b, hclosed, ?_⟩
    have hnewer : w.monitor.state.isNewer b = true := by
      unfold State.isNewer
      split
      · rfl
      · rename_i time htime
        obtain ⟨due, hdue, hbefore⟩ := hbehind time htime
        obtain ⟨earlier, bar, live, happend, rfl⟩ := CandleFeed.closed?_eq_some hclosed
        rw [CandleFeed.due?_of_append happend, Option.some.injEq] at hdue
        rw [hdue]
        exact hbefore
    rw [last_trigger, hclosed, classifier_after]
    simp [hnewer]

-- ---------------------------------------------------------------------------
-- Runs
-- ---------------------------------------------------------------------------

structure Safe (w : Followed) : Prop where
  sorted : Sorted w.series
  fixed : w.UpToDate ∨ w.Behind

theorem Safe.after (h : w.Safe) {step : Step} (horder : step.InOrder w.series) :
    (w.after step).Safe := by
  cases step with
  | push c => exact ⟨sorted_push horder, .inr (behind_push h.sorted h.fixed)⟩
  | updateLive c =>
    exact ⟨h.sorted.updateLive horder, h.fixed.imp (·.updateLive c) (·.updateLive horder)⟩
  | trigger =>
    refine ⟨h.sorted, ?_⟩
    cases hclosed : w.series.closed? with
    | none =>
      rcases h.fixed with ⟨b, hb, -⟩ | hbehind
      · rw [hclosed] at hb
        cases hb
      · right
        intro time htime
        rw [last_trigger, hclosed] at htime
        exact hbehind time htime
    | some b => exact .inl (upToDate_trigger h.fixed hclosed)

theorem Safe.run (h : w.Safe) {steps : List Step} (horder : w.InOrder steps) : (w.run steps).Safe := by
  induction steps generalizing w with
  | nil => exact h
  | cons step rest ih => exact ih (h.after horder.1) horder.2

def Step.isPush : Step → Bool
  | .push _ => true
  | _ => false

theorem UpToDate.last_run (h : w.UpToDate) {looks : List Step}
    (hlooks : ∀ step ∈ looks, step.isPush = false) : (w.run looks).last = w.last := by
  induction looks generalizing w with
  | nil => rfl
  | cons step rest ih =>
    have hrest : ∀ step ∈ rest, step.isPush = false :=
      fun s hs => hlooks s (List.mem_cons_of_mem _ hs)
    cases step with
    | push c => exact absurd (hlooks _ List.mem_cons_self) (by simp [Step.isPush])
    | updateLive c => exact ih (h.updateLive c) hrest
    | trigger => exact (ih h.trigger hrest).trans h.last_trigger

/-- After a look at two candles or more, the last closed bar is the candle before the last, and it is
told as its place in the series is told now. No further look and no new price of the bar in progress
changes that. -/
theorem lastClosed_run {w : Followed} (hsorted : Sorted w.series) (hbehind : w.Behind)
    {steps : List Step} (hsteps : w.InOrder steps) {looks : List Step}
    (hlooks : ∀ step ∈ looks, step.isPush = false) :
    ∀ earlier bar live, ((w.run steps).after .trigger).series.candles = earlier ++ [bar, live] →
      ((w.run steps).after .trigger).last =
        w.monitor.classifier.snapshot
          (((w.run steps).after .trigger).series.indicatorsAt earlier.length bar.closing)
          .barClose bar.time ∧
      (((w.run steps).after .trigger).run looks).last = ((w.run steps).after .trigger).last := by
  intro earlier bar live hcandles
  have hsafe : (w.run steps).Safe := Safe.run ⟨hsorted, .inr hbehind⟩ hsteps
  have hclosed := CandleFeed.closed?_of_append hcandles
  have hup := upToDate_trigger hsafe.fixed hclosed
  refine ⟨?_, hup.last_run hlooks⟩
  obtain ⟨b, hb, hlast⟩ := hup
  obtain rfl : _ = b := Option.some.inj (hclosed.symm.trans hb)
  rw [hlast, classifier_after, classifier_run]
  rfl

theorem behind_of_new (classifier : Classifier) (series : CandleFeed) :
    Behind ⟨.ofClassifier classifier, series⟩ := nofun

def candleAt (seconds : Int) : Candle := ⟨⟨seconds, 0⟩, 1, 1, 1, 1, 1⟩

def started (seconds : List Int) : Followed :=
  ⟨.ofClassifier .standard, .standard, seconds.map candleAt⟩

theorem lastClosed_run_of_started :
    Sorted (started [0, 900]).series ∧ (started [0, 900]).Behind ∧
      (started [0, 900]).InOrder [.trigger, .updateLive (candleAt 900), .push (candleAt 1800)] ∧
      (((started [0, 900]).run [.trigger, .updateLive (candleAt 900), .push (candleAt 1800)]).after
        .trigger).last.barTime = some ⟨900, 0⟩ := by
  have hsorted : Sorted (started [0, 900]).series := by
    refine sorted_push (w := started [0]) (c := candleAt 900) ?_
    rintro _ ⟨⟩
    rfl
  have hbehind := behind_of_new .standard (started [0, 900]).series
  have horder : (started [0, 900]).InOrder
      [.trigger, .updateLive (candleAt 900), .push (candleAt 1800)] := by
    refine ⟨trivial, ?_, ?_, trivial⟩
    · rintro _ ⟨⟩
      rfl
    · rintro _ ⟨⟩
      rfl
  have hnone : ∀ step ∈ ([] : List Step), step.isPush = false := by simp
  have hlast := (lastClosed_run hsorted hbehind horder hnone [candleAt 0] (candleAt 900)
    (candleAt 1800) rfl).1
  exact ⟨hsorted, hbehind, horder, by rw [hlast, Classifier.barTime_snapshot]; rfl⟩

/-- A bar that has been fixed stays the last one as long as no later bar is closed. -/
theorem last_trigger_of_later {time : Instant} (hlast : w.last.barTime = some time)
    (hclosed : w.series.closed? = some b) (h : time.before b.time = false) :
    (w.after .trigger).last = w.last := by
  have hlast : w.monitor.state.lastClosed.barTime = some time := hlast
  rw [last_trigger, hclosed]
  simp [State.isNewer, hlast, h]

theorem barTime_started (first second : Int) :
    ((started [first, second]).after .trigger).last.barTime = some ⟨first, 0⟩ := by
  have hcandles : (started [first, second]).series.candles =
      [] ++ [candleAt first, candleAt second] := rfl
  have hclosed := CandleFeed.closed?_of_append hcandles
  obtain ⟨b, hb, hlast⟩ := upToDate_trigger (.inr (behind_of_new _ _)) hclosed
  obtain rfl : _ = b := Option.some.inj (hclosed.symm.trans hb)
  exact barTime_of_last_eq hlast

/-- Where the first two candles are not in order, the first stays the last closed bar; so does a bar that
was fixed while the monitor followed a series of later candles. -/
theorem lastClosed_run_of_unsorted :
    (started [1800, 900]).InOrder [.trigger, .push (candleAt 2700), .trigger] ∧
      ((started [1800, 900]).run [.trigger, .push (candleAt 2700), .trigger]).series.due? =
        some (candleAt 900) ∧
      ((started [1800, 900]).run [.trigger, .push (candleAt 2700), .trigger]).last.barTime =
        some ⟨1800, 0⟩ ∧
      (after ⟨((started [3600, 4500]).after .trigger).monitor, (started [0, 900]).series⟩
        .trigger).last.barTime = some ⟨3600, 0⟩ := by
  refine ⟨⟨trivial, ?_, trivial, trivial⟩, rfl, ?_, ?_⟩
  · rintro _ ⟨⟩
    rfl
  · let pushed := ((started [1800, 900]).after .trigger).after (.push (candleAt 2700))
    have hfirst : pushed.last.barTime = some ⟨1800, 0⟩ := barTime_started 1800 900
    have hcandles : pushed.series.candles = [candleAt 1800] ++ [candleAt 900, candleAt 2700] := rfl
    have hclosed := CandleFeed.closed?_of_append hcandles
    exact (congrArg Snapshot.barTime (last_trigger_of_later hfirst hclosed rfl)).trans hfirst
  · let moved : Followed :=
      ⟨((started [3600, 4500]).after .trigger).monitor, (started [0, 900]).series⟩
    have hfirst : moved.last.barTime = some ⟨3600, 0⟩ := barTime_started 3600 4500
    have hcandles : moved.series.candles = [] ++ [candleAt 0, candleAt 900] := rfl
    have hclosed := CandleFeed.closed?_of_append hcandles
    exact (congrArg Snapshot.barTime (last_trigger_of_later hfirst hclosed rfl)).trans hfirst

end Followed

end TradingRules.Regime
