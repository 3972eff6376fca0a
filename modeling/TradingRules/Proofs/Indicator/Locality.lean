import TradingRules.Proofs.Double.Exact
import TradingRules.Proofs.Indicator.Causality
import Mathlib.Data.List.DropRight

/-!
# Readings of a window

The deviation and the bands of the last closes are computed from those closes alone. Their mean is not: its
sum is kept from the first close on, and what a close before the window has done to it stays. The mean is one
of the window at its first reading, and wherever no sum had to be rounded (`readingAt?_local_iff`).
-/

namespace TradingRules

namespace Running

-- ---------------------------------------------------------------------------
-- Running sums
-- ---------------------------------------------------------------------------

/-- One step of a running sum: what comes in is added, and what leaves is taken off. -/
def slide (sum : Double) : Double × Option Double → Double
  | (entering, none) => sum + entering
  | (entering, some old) => sum + entering - old

theorem sums_eq (width : Nat) (xs : List Double) : sums width xs = states slide 0 (beside width xs) := by
  unfold sums
  congr 1
  funext sum step
  rcases step with ⟨entering, _ | old⟩ <;> rfl

def runningSum (width : Nat) (xs : List Double) (k : Nat) : Double :=
  ((beside width xs).take k).foldl slide 0

variable {α σ : Type} {width k : Nat} {xs ys : List Double}

theorem getElem?_states (step : σ → α → σ) (s : σ) (as : List α) (place : Nat) :
    (states step s as)[place]? = as[place]?.map fun _ => (as.take (place + 1)).foldl step s := by
  induction as generalizing s place with
  | nil => rfl
  | cons a as ih =>
    cases place with
    | zero => rfl
    | succ place => exact ih (step s a) place

theorem getElem?_sums {place : Nat} (h : place < xs.length) :
    (sums width xs)[place]? = some (runningSum width xs (place + 1)) := by
  have hbeside : place < (beside width xs).length := by rwa [length_beside]
  rw [sums_eq, getElem?_states, List.getElem?_eq_getElem hbeside]
  rfl

theorem getElem?_beside (h : k < xs.length) :
    (beside width xs)[k]? = some (xs[k], if k < width then none else xs[k - width]?) := by
  have hlast : k - width < xs.length := by omega
  simp only [beside_eq, List.zip, List.getElem?_zipWith, List.getElem?_append, List.length_replicate,
    List.getElem?_replicate, List.getElem?_map, List.getElem?_eq_getElem h, List.getElem?_eq_getElem hlast]
  by_cases hwarm : k < width <;> simp [hwarm]

theorem runningSum_succ (h : k < xs.length) : runningSum width xs (k + 1) =
    slide (runningSum width xs k) (xs[k], if k < width then none else xs[k - width]?) := by
  rw [runningSum, List.take_add_one, getElem?_beside h, List.foldl_append]
  rfl

theorem take_beside (width : Nat) (xs : List Double) (k : Nat) :
    (beside width xs).take k = beside width (xs.take k) := by
  have hcut := List.prefix_iff_eq_take.mp (beside_causal width (List.take_prefix k xs))
  rw [hcut, length_beside, List.length_take, List.take_eq_take_iff, length_beside]
  omega

theorem runningSum_congr (h : xs.take k = ys.take k) : runningSum width xs k = runningSum width ys k := by
  rw [runningSum, runningSum, take_beside, take_beside, h]

theorem getElem?_windows {place : Nat} (hinside : place < xs.length) (hready : width ≤ place + 1) :
    (windows width xs)[place]? = some (some ((xs.take (place + 1)).rtake width)) := by
  have hlength : (xs.take (place + 1)).length = place + 1 := List.length_take_of_le hinside
  have hwidth : place + 1 - (place + 1 - width) = width := by omega
  rw [windows, List.getElem?_mapIdx, List.getElem?_eq_getElem hinside, Option.map_some, if_pos hready,
    List.rtake, hlength, List.drop_take, hwidth]

-- ---------------------------------------------------------------------------
-- NaNs stay
-- ---------------------------------------------------------------------------

theorem isNaN_slide {sum : Double} (h : sum.isNaN = true) (step : Double × Option Double) :
    (slide sum step).isNaN = true := by
  obtain ⟨entering, leaving⟩ := step
  cases leaving with
  | none => rwa [slide, Double.add_of_isNaN h]
  | some old => rwa [slide, Double.add_of_isNaN h, Double.sub_of_isNaN h]

theorem isNaN_slide_of_entering (sum : Double) {entering : Double} (h : entering.isNaN = true)
    (leaving : Option Double) : (slide sum (entering, leaving)).isNaN = true := by
  have hsum := Double.isNaN_add_of_right sum h
  cases leaving with
  | none => exact hsum
  | some old => rwa [slide, Double.sub_of_isNaN hsum]

/-- A running sum that a NaN has come into is a NaN from then on. -/
theorem isNaN_runningSum {place : Nat} (hplace : place < xs.length) (hnan : xs[place].isNaN = true)
    (hafter : place < k) (hinside : k ≤ xs.length) : (runningSum width xs k).isNaN = true := by
  induction k with
  | zero => omega
  | succ k ih =>
    rw [runningSum_succ (by omega)]
    rcases Nat.lt_succ_iff_lt_or_eq.mp hafter with hbefore | rfl
    · exact isNaN_slide (ih hbefore (by omega)) _
    · exact isNaN_slide_of_entering _ hnan _

-- ---------------------------------------------------------------------------
-- Exact sums are those of the window
-- ---------------------------------------------------------------------------

def exactTotal (xs : List Double) : ℚ := (xs.map Double.toRat).sum

/-- No running sum of a series has to be rounded: what comes in can be added exactly, and what leaves taken
off. -/
structure ExactSums (width : Nat) (xs : List Double) : Prop where
  finite : ∀ x ∈ xs, x.isFinite = true
  entering : ∀ k, Double.Representable (exactTotal ((xs.take k).rtake (width + 1)))
  leaving : ∀ k, Double.Representable (exactTotal ((xs.take k).rtake width))

theorem exactTotal_concat (xs : List Double) (x : Double) :
    exactTotal (xs ++ [x]) = exactTotal xs + x.toRat := by
  simp [exactTotal]

theorem exactTotal_cons (x : Double) (xs : List Double) :
    exactTotal (x :: xs) = x.toRat + exactTotal xs := by
  simp [exactTotal]

theorem rtake_succ_of_lt {α : Type} {xs : List α} {n : Nat} (h : n < xs.length) :
    xs.rtake (n + 1) = xs[xs.length - (n + 1)] :: xs.rtake n := by
  have hrest : xs.length - (n + 1) + 1 = xs.length - n := by omega
  rw [List.rtake, List.drop_eq_getElem_cons (by omega), hrest, List.rtake]

theorem rtake_of_length_le {α : Type} {xs : List α} {n : Nat} (h : xs.length ≤ n) : xs.rtake n = xs := by
  rw [List.rtake, Nat.sub_eq_zero_of_le h, List.drop_zero]

theorem ExactSums.runningSum_exactly (h : ExactSums width xs) (hk : k ≤ xs.length) :
    (runningSum width xs k).Exactly (exactTotal ((xs.take k).rtake width)) := by
  induction k with
  | zero =>
    rw [List.take_zero, List.rtake_nil]
    exact Double.exactly_zero
  | succ k ih =>
    have hinside : k < xs.length := hk
    have hlength : (xs.take (k + 1)).length = k + 1 := List.length_take_of_le hk
    have hwide : exactTotal ((xs.take (k + 1)).rtake (width + 1)) =
        exactTotal ((xs.take k).rtake width) + xs[k].toRat := by
      rw [List.take_succ_eq_append_getElem hinside, List.rtake_concat_succ, exactTotal_concat]
    obtain ⟨added, hadded⟩ := h.entering (k + 1)
    have hadd : runningSum width xs k + xs[k] = added :=
      (ih (by omega)).add (h.finite _ (List.getElem_mem _)) (hwide ▸ hadded)
    rw [runningSum_succ hinside]
    by_cases hwarm : k < width
    · -- the window is the whole prefix, and nothing leaves it
      rw [if_pos hwarm, slide, hadd]
      rw [rtake_of_length_le (by omega)] at hadded
      rwa [rtake_of_length_le (by omega)]
    · have hlast : k - width < xs.length := by omega
      have hplace : k + 1 - (width + 1) = k - width := by omega
      have hwindow : (xs.take (k + 1)).rtake (width + 1) = xs[k - width] :: (xs.take (k + 1)).rtake width := by
        rw [rtake_succ_of_lt (by omega), List.getElem_take]
        simp only [hlength, hplace]
      obtain ⟨taken, htaken⟩ := h.leaving (k + 1)
      rw [hwindow, exactTotal_cons] at hadded
      rw [if_neg hwarm, List.getElem?_eq_getElem hlast, slide, hadd]
      have htake : added - xs[k - width] = taken :=
        hadded.sub (h.finite _ (List.getElem_mem _)) (by rwa [add_sub_cancel_left])
      rwa [htake]

open Double.Magnitude (leastExponent greatestExponent)

theorem exactTotal_steps {e : Int} (h : ∀ x ∈ xs, ∃ j : Int, x.toRat = j * 2 ^ e) :
    ∃ j : Int, exactTotal xs = j * 2 ^ e := by
  induction xs with
  | nil => exact ⟨0, by simp [exactTotal]⟩
  | cons x xs ih =>
    obtain ⟨hx, hxs⟩ := List.forall_mem_cons.mp h
    obtain ⟨i, hi⟩ := hx
    obtain ⟨j, hj⟩ := ih hxs
    exact ⟨i + j, by rw [exactTotal_cons, hi, hj, Int.cast_add, add_mul]⟩

theorem abs_exactTotal_le (xs : List Double) : |exactTotal xs| ≤ (xs.map fun x => |x.toRat|).sum := by
  induction xs with
  | nil => simp [exactTotal]
  | cons x xs ih =>
    rw [exactTotal_cons, List.map_cons, List.sum_cons]
    exact (abs_add_le _ _).trans (by gcongr)

section
variable {e : Int} (hleast : leastExponent ≤ e) (hgreatest : e ≤ greatestExponent)
include hleast hgreatest

theorem representable_exactTotal (hsteps : ∀ x ∈ xs, ∃ j : Int, x.toRat = j * 2 ^ e)
    (htotal : (xs.map fun x => |x.toRat|).sum < 2 ^ 53 * 2 ^ e) :
    Double.Representable (exactTotal xs) := by
  obtain ⟨j, hj⟩ := exactTotal_steps hsteps
  have hstep : (0 : ℚ) < 2 ^ e := by positivity
  have hbound : |(j : ℚ)| * 2 ^ e < 2 ^ 53 * 2 ^ e := by
    calc |(j : ℚ)| * 2 ^ e
      _ = |exactTotal xs| := by rw [hj, abs_mul, abs_of_pos hstep]
      _ ≤ (xs.map fun x => |x.toRat|).sum := abs_exactTotal_le xs
      _ < 2 ^ 53 * 2 ^ e := htotal
  have hcount : |j| < 2 ^ 53 := by exact_mod_cast lt_of_mul_lt_mul_right hbound hstep.le
  rw [hj]
  refine Double.representable_of_steps ?_ hleast hgreatest
  rw [Int.abs_eq_natAbs] at hcount
  exact_mod_cast hcount

/-- Multiples of a power of two have exact sums as long as all of them together fit a significand. -/
theorem exactSums_of_steps (hfinite : ∀ x ∈ xs, x.isFinite = true)
    (hsteps : ∀ x ∈ xs, ∃ j : Int, x.toRat = j * 2 ^ e)
    (htotal : (xs.map fun x => |x.toRat|).sum < 2 ^ 53 * 2 ^ e) (width : Nat) : ExactSums width xs := by
  have hwindow (k n : Nat) : Double.Representable (exactTotal ((xs.take k).rtake n)) := by
    have hpart : ((xs.take k).rtake n).Sublist xs := (List.drop_sublist _ _).trans (List.take_sublist _ _)
    refine representable_exactTotal hleast hgreatest (fun x hx => hsteps x (hpart.subset hx)) ?_
    refine ((hpart.map _).sum_le_sum fun q hq => ?_).trans_lt htotal
    obtain ⟨x, -, rfl⟩ := List.mem_map.mp hq
    exact abs_nonneg _
  exact ⟨hfinite, fun k => hwindow k _, fun k => hwindow k _⟩

end

end Running

namespace Indicator

open Running

-- ---------------------------------------------------------------------------
-- Readings
-- ---------------------------------------------------------------------------

/-- The number of closes that an indicator of the last closes is documented to be computed from. -/
def window? : Indicator → Option Nat
  | .sma n | .stddev n | .bollinger n _ => some n
  | _ => none

def closes (candles : List Candle) : List Double := candles.map Candle.closing

/-- Two series of one length that carry the same closes in the window of the last `n` up to a place. -/
structure SameWindow (n place : Nat) (s t : List Candle) : Prop where
  length_eq : s.length = t.length
  closing_eq : ∀ p, place < p + n → p ≤ place → (closes s)[p]? = (closes t)[p]?

variable {n place : Nat} {s t : List Candle} {candles : List Candle}

def windowCloses (n place : Nat) (candles : List Candle) : List Double :=
  ((closes candles).take (place + 1)).rtake n

theorem SameWindow.windowCloses_eq (h : SameWindow n place s t) (hinside : place < s.length) :
    windowCloses n place s = windowCloses n place t := by
  have hs : ((closes s).take (place + 1)).length = place + 1 :=
    List.length_take_of_le (by simpa [closes] using hinside)
  have ht : ((closes t).take (place + 1)).length = place + 1 :=
    List.length_take_of_le (by simpa [closes, ← h.length_eq] using hinside)
  rw [windowCloses, windowCloses, List.rtake, List.rtake, hs, ht]
  refine List.ext_getElem? fun p => ?_
  simp only [List.getElem?_drop, List.getElem?_take]
  split
  · exact h.closing_eq _ (by omega) (by omega)
  · rfl

theorem readingAt?_of_length_le (i : Indicator) (h : candles.length ≤ place) :
    i.readingAt? candles place = none := by
  have hnone : (i.points candles)[place]? = none := by
    refine List.getElem?_eq_none ?_
    unfold points
    split
    · exact Nat.zero_le _
    · rw [List.length_zipWith]
      omega
  rw [readingAt?, hnone]
  rfl

theorem readingAt?_of_inside {i : Indicator} (hvoid : i.isVoid candles = false)
    (hinside : place < candles.length) : i.readingAt? candles place = ((i.readings candles)[place]?).join := by
  simp only [readingAt?, points, hvoid, Bool.false_eq_true, if_false, List.getElem?_zipWith,
    List.getElem?_eq_getElem hinside]
  cases (i.readings candles)[place]? <;> rfl

theorem readingAt?_sma (hn : 0 < n) (hready : n ≤ place + 1) (hinside : place < candles.length) :
    (Indicator.sma n).readingAt? candles place =
      some (.single (runningSum n (closes candles) (place + 1) / Double.ofNat n)) := by
  obtain ⟨n, rfl⟩ := Nat.exists_eq_add_of_le' hn
  have hcloses : place < (closes candles).length := by simpa [closes] using hinside
  rw [readingAt?_of_inside rfl hinside]
  show ((readingsWhere _ ((sums (n + 1) (closes candles)).map _))[place]?).join = _
  rw [readingsWhere, List.getElem?_mapIdx, List.getElem?_map, getElem?_sums hcloses]
  simp only [Option.map_some, Option.join_some]
  rw [if_pos (decide_eq_true hready)]

/-- Of an indicator that maps the windows of the closes, a reading is a function of one window. -/
theorem readingAt?_of_windows {i : Indicator} {f : List Double → Reading} (hvoid : i.isVoid candles = false)
    (hreadings : i.readings candles = (windows n (closes candles)).map (Option.map f))
    (hready : n ≤ place + 1) (hinside : place < candles.length) :
    i.readingAt? candles place = some (f (windowCloses n place candles)) := by
  have hcloses : place < (closes candles).length := by simpa [closes] using hinside
  rw [readingAt?_of_inside hvoid hinside, hreadings, List.getElem?_map, getElem?_windows hcloses hready]
  rfl

theorem readingAt?_of_window {i : Indicator} (hi : i.window? = some n) (hsma : i ≠ .sma n) (hn : 0 < n)
    (hready : n ≤ place + 1) : ∃ f : List Double → Reading, ∀ candles : List Candle,
      place < candles.length → i.readingAt? candles place = some (f (windowCloses n place candles)) := by
  obtain ⟨n, rfl⟩ := Nat.exists_eq_add_of_le' hn
  cases i with
  | sma m =>
    cases hi
    exact absurd rfl hsma
  | stddev m =>
    cases hi
    let deviation : List Double → Reading := fun window => .single (meanAndDeviation window).2
    exact ⟨deviation, fun candles => readingAt?_of_windows (f := deviation) rfl rfl hready⟩
  | bollinger m hundredths =>
    cases hi
    exact ⟨bandsOf hundredths, fun candles => readingAt?_of_windows rfl rfl hready⟩
  | _ => cases hi

-- ---------------------------------------------------------------------------
-- Locality
-- ---------------------------------------------------------------------------

def bar (close : Double) : Candle := ⟨⟨0, 0⟩, close, close, close, close, 0⟩

@[simp] theorem closes_map_bar (xs : List Double) : closes (xs.map bar) = xs := by
  simp [closes, bar, Function.comp_def]

theorem sameWindow_of_first (x y : Double) (xs : List Double) (hafter : n ≤ place) :
    SameWindow n place ((x :: xs).map bar) ((y :: xs).map bar) where
  length_eq := by simp
  closing_eq p hlow _ := by
    obtain ⟨p, rfl⟩ := Nat.exists_eq_add_one_of_ne_zero (show p ≠ 0 by omega)
    rw [closes_map_bar, closes_map_bar, List.getElem?_cons_succ, List.getElem?_cons_succ]

def risingAt (place : Nat) : List Double := List.replicate place 0 ++ [1]

@[simp] theorem length_risingAt (place : Nat) : (risingAt place).length = place + 1 := by
  simp [risingAt]

theorem getElem?_risingAt {p : Nat} (h : p < place) : (risingAt place)[p]? = some 0 := by
  rw [risingAt, List.getElem?_append_left (by simpa), List.getElem?_replicate, if_pos h]

theorem getElem?_risingAt_self (place : Nat) : (risingAt place)[place]? = some 1 := by
  simp [risingAt]

theorem runningSum_before_rise {k : Nat} (hk : k ≤ place) : runningSum n (risingAt place) k = 0 := by
  induction k with
  | zero => rfl
  | succ k ih =>
    obtain ⟨hinside, hzero⟩ := List.getElem?_eq_some_iff.mp (getElem?_risingAt hk)
    rw [runningSum_succ hinside, ih (by omega), hzero]
    split
    · rfl
    · rw [getElem?_risingAt (by omega)]
      rfl

theorem runningSum_at_rise (hn : 0 < n) (hafter : n ≤ place) :
    runningSum n (risingAt place) (place + 1) = 1 := by
  obtain ⟨hinside, hone⟩ := List.getElem?_eq_some_iff.mp (getElem?_risingAt_self place)
  rw [runningSum_succ hinside, runningSum_before_rise le_rfl, hone, if_neg (by omega),
    getElem?_risingAt (by omega)]
  rfl

theorem readingAt?_sma_of_isNaN {p : Nat} {x : Double} (hn : 0 < n) (hready : n ≤ place + 1)
    (hinside : place < candles.length) (hp : p ≤ place) (hx : (closes candles)[p]? = some x)
    (hnan : x.isNaN = true) : ∃ mean : Double, mean.isNaN = true ∧
      (Indicator.sma n).readingAt? candles place = some (.single mean) := by
  obtain ⟨hplace, rfl⟩ := List.getElem?_eq_some_iff.mp hx
  have hsum : (runningSum n (closes candles) (place + 1)).isNaN = true :=
    isNaN_runningSum hplace hnan (by omega) (by simpa [closes] using hinside)
  refine ⟨_, ?_, readingAt?_sma hn hready hinside⟩
  rwa [Double.div_of_isNaN hsum]

/-- Past its first reading the mean of two series with the same window may differ: in one of them a NaN has
left it. -/
theorem not_local_sma (hn : 0 < n) (hafter : n ≤ place) : ∃ s t, SameWindow n place s t ∧
    (Indicator.sma n).readingAt? s place ≠ (Indicator.sma n).readingAt? t place := by
  obtain ⟨p, rfl⟩ := Nat.exists_eq_add_one_of_ne_zero (show place ≠ 0 by omega)
  have hcalm : risingAt (p + 1) = 0 :: risingAt p := rfl
  refine ⟨(risingAt (p + 1)).map bar, (Double.notANumber :: risingAt p).map bar,
    hcalm ▸ sameWindow_of_first _ _ _ hafter, fun heq => ?_⟩
  have hinside : p + 1 < ((Double.notANumber :: risingAt p).map bar).length := by simp
  obtain ⟨mean, hmean, hreading⟩ :=
    readingAt?_sma_of_isNaN hn (by omega) hinside (Nat.zero_le (p + 1)) rfl (by decide)
  have hnumber := Double.isNaN_one_div (Double.isNaN_ofNat n)
  rw [hreading, readingAt?_sma hn (by omega) (by simp), closes_map_bar, runningSum_at_rise hn hafter] at heq
  rw [Reading.single.inj (Option.some.inj heq), hmean] at hnumber
  cases hnumber

theorem SameWindow.readingAt?_eq {i : Indicator} (h : SameWindow n place s t) {f : List Candle → Reading}
    (hf : ∀ candles : List Candle, place < candles.length → i.readingAt? candles place = some (f candles))
    (heq : place < s.length → f s = f t) : i.readingAt? s place = i.readingAt? t place := by
  rcases Nat.lt_or_ge place s.length with hinside | hbehind
  · rw [hf s hinside, hf t (h.length_eq ▸ hinside), heq hinside]
  · rw [readingAt?_of_length_le i hbehind, readingAt?_of_length_le i (h.length_eq ▸ hbehind)]

theorem SameWindow.local_of_window {i : Indicator} (h : SameWindow n place s t) (hi : i.window? = some n)
    (hsma : i ≠ .sma n) (hn : 0 < n) (hready : n ≤ place + 1) :
    i.readingAt? s place = i.readingAt? t place := by
  obtain ⟨f, hf⟩ := readingAt?_of_window hi hsma hn hready
  exact h.readingAt?_eq hf fun hinside => congrArg f (h.windowCloses_eq hinside)

theorem SameWindow.local_of_sums (h : SameWindow n place s t) (hn : 0 < n) (hready : n ≤ place + 1)
    (hsums : place < s.length →
      runningSum n (closes s) (place + 1) = runningSum n (closes t) (place + 1)) :
    (Indicator.sma n).readingAt? s place = (Indicator.sma n).readingAt? t place :=
  h.readingAt?_eq (fun _ hinside => readingAt?_sma hn hready hinside) fun hinside => by rw [hsums hinside]

/-- An exact sum is the one of the window. -/
theorem runningSum_exactly (h : ExactSums n ((closes candles).take (place + 1)))
    (hinside : place < candles.length) :
    (runningSum n (closes candles) (place + 1)).Exactly (exactTotal (windowCloses n place candles)) := by
  have hlength : ((closes candles).take (place + 1)).length = place + 1 :=
    List.length_take_of_le (by simpa [closes] using hinside)
  have hexact := h.runningSum_exactly hlength.ge
  have htake : ((closes candles).take (place + 1)).take (place + 1) = (closes candles).take (place + 1) := by
    rw [List.take_take, Nat.min_self]
  rwa [runningSum_congr htake, htake] at hexact

/-- The indicators of the last closes read them alone, except for the mean: it does so at its first reading
only. Where no sum has to be rounded the mean, too, is one of the window. -/
theorem readingAt?_local_iff {i : Indicator} (hi : i.window? = some n) (hn : 0 < n) (hready : n ≤ place + 1) :
    ((∀ s t, SameWindow n place s t → i.readingAt? s place = i.readingAt? t place) ↔
      (i = .sma n → place + 1 = n)) ∧
    ∀ s t, SameWindow n place s t → ExactSums n ((closes s).take (place + 1)) →
      ExactSums n ((closes t).take (place + 1)) → i.readingAt? s place = i.readingAt? t place := by
  refine ⟨⟨fun hlocal heq => ?_, fun hfirst s t h => ?_⟩, fun s t h hs ht => ?_⟩
  · subst heq
    by_contra hne
    obtain ⟨s, t, h, hdiffer⟩ := not_local_sma hn (show n ≤ place by omega)
    exact hdiffer (hlocal s t h)
  · by_cases heq : i = .sma n
    · subst heq
      refine h.local_of_sums hn hready fun hinside => runningSum_congr ?_
      have hwhole (candles : List Candle) :
          windowCloses n place candles = (closes candles).take (place + 1) :=
        rtake_of_length_le (by rw [hfirst rfl]; exact List.length_take_le _ _)
      rw [← hwhole, ← hwhole, h.windowCloses_eq hinside]
    · exact h.local_of_window hi heq hn hready
  · by_cases heq : i = .sma n
    · subst heq
      refine h.local_of_sums hn hready fun hinside => ?_
      have hsum := runningSum_exactly hs hinside
      rw [h.windowCloses_eq hinside] at hsum
      exact hsum.unique (runningSum_exactly ht (h.length_eq ▸ hinside))
    · exact h.local_of_window hi heq hn hready

/-- Small whole closes are added without rounding, so that the mean forgets the first of them. -/
theorem readingAt?_local_iff_of_whole_closes :
    let s := [10, 1, 3].map bar
    let t := [7, 1, 3].map bar
    SameWindow 2 2 s t ∧ ExactSums 2 ((closes s).take 3) ∧ ExactSums 2 ((closes t).take 3) ∧
      (Indicator.sma 2).readingAt? s 2 = (Indicator.sma 2).readingAt? t 2 := by
  intro s t
  have hone : (1 : Double).toRat = (1 : Int) :=
    Double.toRat_of_whole (m := ⟨2 ^ 52, -52⟩) (by decide) (by decide) (by norm_num)
  have hthree : (3 : Double).toRat = (3 : Int) :=
    Double.toRat_of_whole (m := ⟨3 * 2 ^ 51, -51⟩) (by decide) (by decide) (by norm_num)
  have hseven : (7 : Double).toRat = (7 : Int) :=
    Double.toRat_of_whole (m := ⟨7 * 2 ^ 50, -50⟩) (by decide) (by decide) (by norm_num)
  have hten : (10 : Double).toRat = (10 : Int) :=
    Double.toRat_of_whole (m := ⟨5 * 2 ^ 50, -49⟩) (by decide) (by decide) (by norm_num)
  have hsExact : ExactSums 2 [10, 1, 3] := by
    refine exactSums_of_steps (e := 0) (by decide) (by decide) (by decide) ?_ ?_ 2
    · simpa using ⟨⟨10, hten⟩, ⟨1, hone⟩, ⟨3, hthree⟩⟩
    · norm_num [hten, hone, hthree]
  have htExact : ExactSums 2 [7, 1, 3] := by
    refine exactSums_of_steps (e := 0) (by decide) (by decide) (by decide) ?_ ?_ 2
    · simpa using ⟨⟨7, hseven⟩, ⟨1, hone⟩, ⟨3, hthree⟩⟩
    · norm_num [hseven, hone, hthree]
  have hwindow : SameWindow 2 2 s t := sameWindow_of_first _ _ _ (by decide)
  have hs : ExactSums 2 ((closes s).take 3) := by
    rw [closes_map_bar]
    exact hsExact
  have ht : ExactSums 2 ((closes t).take 3) := by
    rw [closes_map_bar]
    exact htExact
  exact ⟨hwindow, hs, ht, (readingAt?_local_iff rfl (by decide) (by decide)).2 s t hwindow hs ht⟩

/-- A close that no sum can hold beside the next ones falsifies the mean of those. -/
theorem readingAt?_sma_of_huge_close :
    let s := [100000000000000000, 1, 3].map bar
    let t := [1, 1, 3].map bar
    SameWindow 2 2 s t ∧ (Indicator.sma 2).readingAt? s 2 = some (.single 0) ∧
      (Indicator.sma 2).readingAt? t 2 = some (.single 2) := by
  intro s t
  have hs : (runningSum 2 (closes s) 3 / Double.ofNat 2).bits = (0 : Double).bits := by decide +kernel
  have ht : (runningSum 2 (closes t) 3 / Double.ofNat 2).bits = (2 : Double).bits := by decide +kernel
  refine ⟨sameWindow_of_first _ _ _ (by decide), ?_, ?_⟩
  · rw [readingAt?_sma (by decide) (by decide) (by decide)]
    exact congrArg (fun bits => some (Reading.single ⟨bits⟩)) hs
  · rw [readingAt?_sma (by decide) (by decide) (by decide)]
    exact congrArg (fun bits => some (Reading.single ⟨bits⟩)) ht

end Indicator

end TradingRules
