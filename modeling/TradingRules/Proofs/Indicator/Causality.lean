import TradingRules.Indicator.Basic
import Mathlib.Data.List.Infix

/-!
# Indicators do not look ahead

What comes later in a series does not change the readings before it (`readingAt?_of_prefix`). Every
step of an indicator's computation answers for the first elements of a series what it answers for
them alone, and the steps are composed.
-/

namespace TradingRules

variable {α β γ : Type}

/-- The results for the first elements are the first results. -/
def Causal (f : List α → List β) : Prop := ∀ ⦃xs ys : List α⦄, xs <+: ys → f xs <+: f ys

namespace Causal

theorem id : Causal fun xs : List α => xs := fun _ _ h => h

theorem map {f : List α → List β} (hf : Causal f) (g : β → γ) : Causal fun xs => (f xs).map g :=
  fun _ _ h => (hf h).map g

theorem comp {g : List β → List γ} {f : List α → List β} (hg : Causal g) (hf : Causal f) :
    Causal fun xs => g (f xs) := fun _ _ h => hg (hf h)

theorem drop {f : List α → List β} (hf : Causal f) (n : Nat) : Causal fun xs => (f xs).drop n :=
  fun _ _ h => (hf h).drop n

theorem cons {f : List α → List β} (hf : Causal f) (b : β) : Causal fun xs => b :: f xs :=
  fun _ _ h => (List.prefix_cons_inj b).mpr (hf h)

theorem append {f : List α → List β} (hf : Causal f) (bs : List β) : Causal fun xs => bs ++ f xs :=
  fun _ _ h => (List.prefix_append_right_inj bs).mpr (hf h)

theorem mapIdx (g : Nat → α → β) : Causal (List.mapIdx g) := by
  rintro xs _ ⟨more, rfl⟩
  rw [List.mapIdx_append]
  exact List.prefix_append _ _

theorem zipWith {δ : Type} {f : List α → List β} {g : List α → List γ} (hf : Causal f)
    (hg : Causal g) (op : β → γ → δ) : Causal fun xs => List.zipWith op (f xs) (g xs) := by
  intro xs ys h
  have hleft := hf h
  have hright := hg h
  show List.zipWith op (f xs) (g xs) <+: List.zipWith op (f ys) (g ys)
  generalize f xs = as, f ys = as' at hleft
  generalize g xs = bs, g ys = bs' at hright
  induction as generalizing as' bs bs' with
  | nil => exact List.nil_prefix
  | cons a as ih =>
    cases bs with
    | nil => exact List.nil_prefix
    | cons b bs =>
      obtain ⟨as', rfl, has⟩ := List.cons_prefix_iff.mp hleft
      obtain ⟨bs', rfl, hbs⟩ := List.cons_prefix_iff.mp hright
      exact (List.prefix_cons_inj _).mpr (ih as' has bs bs' hbs)

theorem zip {f : List α → List β} {g : List α → List γ} (hf : Causal f) (hg : Causal g) :
    Causal fun xs => (f xs).zip (g xs) := hf.zipWith hg Prod.mk

end Causal

-- ---------------------------------------------------------------------------
-- Running computations
-- ---------------------------------------------------------------------------

namespace Running

variable {σ : Type}

theorem states_causal (step : σ → α → σ) (s : σ) : Causal (states step s) := by
  intro xs ys h
  induction xs generalizing s ys with
  | nil => exact List.nil_prefix
  | cons x xs ih =>
    obtain ⟨ys, rfl, hxs⟩ := List.cons_prefix_iff.mp h
    exact (List.prefix_cons_inj _).mpr (ih _ hxs)

@[simp] theorem length_states (step : σ → α → σ) (s : σ) (xs : List α) :
    (states step s xs).length = xs.length := by
  induction xs generalizing s with
  | nil => rfl
  | cons x xs ih => exact congrArg Nat.succ (ih _)

/-- A lag that is longer than the series may stand for itself; what is too much is cut off. -/
theorem beside_eq (lag : Nat) (xs : List α) :
    beside lag xs = xs.zip (List.replicate lag none ++ xs.map some) := by
  rcases Nat.le_total lag xs.length with h | h
  · rw [beside, Nat.min_eq_left h]
  · have hcut : ∀ more : List (Option α),
        xs.zip (List.replicate xs.length none ++ more) = xs.zip (List.replicate xs.length none) := by
      intro more
      have hlength : xs.length = (List.replicate xs.length (none : Option α)).length := by simp
      have hzip : (xs ++ []).zip (List.replicate xs.length none ++ more) = _ :=
        List.zip_append hlength
      simpa using hzip
    obtain ⟨more, rfl⟩ := Nat.exists_eq_add_of_le h
    rw [beside, Nat.min_eq_right h, List.replicate_add, List.append_assoc, hcut, hcut]

theorem beside_causal (lag : Nat) : Causal (beside (α := α) lag) := by
  have h : Causal fun xs : List α => xs.zip (List.replicate lag none ++ xs.map some) :=
    Causal.id.zip ((Causal.id.map some).append _)
  exact funext (beside_eq lag) ▸ h

@[simp] theorem length_beside (lag : Nat) (xs : List α) : (beside lag xs).length = xs.length := by
  simp [beside_eq]

theorem sums_causal (width : Nat) : Causal (sums width) :=
  (states_causal _ _).comp (beside_causal width)

@[simp] theorem length_sums (width : Nat) (xs : List Double) : (sums width xs).length = xs.length := by
  simp [sums]

theorem smoothed_causal (width : Nat) (update : Double → Double → Double) :
    Causal (smoothed width update) := (states_causal _ _).map _

@[simp] theorem length_smoothed (width : Nat) (update : Double → Double → Double)
    (xs : List Double) : (smoothed width update xs).length = xs.length := by
  simp [smoothed]

theorem windows_causal (width : Nat) : Causal (windows (α := α) width) := by
  rintro xs _ ⟨more, rfl⟩
  refine List.prefix_iff_getElem.mpr ⟨by simp [windows], fun i hi => ?_⟩
  have hi : i < xs.length := by simpa [windows] using hi
  simp only [windows, List.getElem_mapIdx]
  split
  · rw [List.drop_append_of_le_length (by omega),
      List.take_append_of_le_length (by rw [List.length_drop]; omega)]
  · rfl

@[simp] theorem length_windows (width : Nat) (xs : List α) :
    (windows width xs).length = xs.length := by
  simp [windows]

end Running

-- ---------------------------------------------------------------------------
-- Readings
-- ---------------------------------------------------------------------------

namespace Indicator

open Running

theorem readingsWhere_causal (valid : Nat → Bool) : Causal (readingsWhere valid) := Causal.mapIdx _

@[simp] theorem length_readingsWhere (valid : Nat → Bool) (values : List Double) :
    (readingsWhere valid values).length = values.length := by
  simp [readingsWhere]

theorem trueRanges_causal : Causal trueRanges := by
  intro xs ys h
  cases xs with
  | nil => exact List.nil_prefix
  | cons first rest =>
    obtain ⟨more, rfl, hrest⟩ := List.cons_prefix_iff.mp h
    have hzip : Causal fun rest => rest.zip (first :: rest) := Causal.id.zip (Causal.id.cons first)
    exact (List.prefix_cons_inj _).mpr ((hzip hrest).map _)

@[simp] theorem length_trueRanges (candles : List Candle) :
    (trueRanges candles).length = candles.length := by
  cases candles with
  | nil => rfl
  | cons first rest => simp [trueRanges]

theorem changes_causal : Causal changes := (Causal.id.drop 1).zipWith Causal.id _

@[simp] theorem length_changes (candles : List Candle) :
    (changes candles).length = candles.length - 1 := by
  simp [changes]

theorem rates_causal (period : Nat) : Causal (rates period) := (beside_causal period).map _

@[simp] theorem length_rates (period : Nat) (closes : List Double) :
    (rates period closes).length = closes.length := by
  simp [rates]

theorem positive_causal (i : Indicator) : Causal i.positive := by
  have hcloses : Causal fun candles : List Candle => candles.map Candle.closing := Causal.id.map _
  cases i with
  | sma n => exact (readingsWhere_causal _).comp (((sums_causal n).comp hcloses).map _)
  | ema n => exact (readingsWhere_causal _).comp ((smoothed_causal n _).comp hcloses)
  | rsi n =>
    have haverage := smoothed_causal n (wilder n)
    exact ((readingsWhere_causal _).comp ((haverage.comp (changes_causal.map _)).zipWith
      (haverage.comp (changes_causal.map _)) rsiOf)).cons none
  | roc n => exact (readingsWhere_causal _).comp ((rates_causal n).comp hcloses)
  | atr n => exact (readingsWhere_causal _).comp ((smoothed_causal n _).comp trueRanges_causal)
  | stddev n => exact ((windows_causal n).comp hcloses).map _
  | bollinger n hundredths => exact ((windows_causal n).comp hcloses).map _

theorem length_le_positive (i : Indicator) (candles : List Candle) :
    candles.length ≤ (i.positive candles).length := by
  cases i with
  | rsi n =>
    simp [positive]
    omega
  | _ => simp [positive]

theorem readings_causal (i : Indicator) : Causal i.readings := by
  unfold readings
  split <;> first | exact Causal.id.map _ | exact positive_causal i

theorem length_le_readings (i : Indicator) (candles : List Candle) :
    candles.length ≤ (i.readings candles).length := by
  unfold readings
  split <;> first | simp | exact length_le_positive _ _

theorem isVoid_of_prefix {i : Indicator} {bars candles : List Candle} (h : bars <+: candles)
    (hvoid : i.isVoid candles = true) : i.isVoid bars = true := by
  cases i with
  | atr n =>
    simp only [isVoid, Bool.or_eq_true, beq_iff_eq, decide_eq_true_eq] at hvoid ⊢
    have hlength := h.length_le
    omega
  | _ => exact hvoid

theorem points_causal (i : Indicator) : Causal i.points := by
  intro bars candles h
  unfold points
  split
  · exact List.nil_prefix
  · rename_i hbars
    rw [if_neg fun hvoid => hbars <| isVoid_of_prefix h hvoid]
    exact Causal.id.zipWith (readings_causal i) _ h

section
variable {bars candles : List Candle} {place : Nat}

theorem readingAt?_of_void {i : Indicator} (h : i.isVoid candles = true) :
    i.readingAt? candles place = none := by
  simp [readingAt?, points, h]

theorem readingAt?_atr_of_lt {n : Nat} (h : place < n) :
    (Indicator.atr (n + 1)).readingAt? candles place = none := by
  unfold readingAt? points
  split
  · rfl
  · simp only [readings, positive, readingsWhere, List.getElem?_zipWith, List.getElem?_mapIdx]
    cases candles[place]? <;> cases (smoothed _ _ _)[place]? <;> simp [h]

theorem readingAt?_of_isVoid {i : Indicator} (hplace : place < bars.length)
    (hvoid : i.isVoid bars = true) : i.readingAt? candles place = none := by
  cases i with
  | atr n =>
    simp only [isVoid, Bool.or_eq_true, beq_iff_eq, decide_eq_true_eq] at hvoid
    cases n with
    | zero => exact readingAt?_of_void rfl
    | succ n => exact readingAt?_atr_of_lt (by omega)
  | _ => exact readingAt?_of_void hvoid

theorem readingAt?_of_prefix (i : Indicator) (h : bars <+: candles) (hplace : place < bars.length) :
    i.readingAt? candles place = i.readingAt? bars place := by
  cases hvoid : i.isVoid bars with
  | true =>
    rw [readingAt?_of_isVoid hplace hvoid, readingAt?_of_isVoid hplace hvoid]
  | false =>
    have hlength : place < (i.points bars).length := by
      have hle := length_le_readings i bars
      simp [points, hvoid]
      omega
    have hpoints := points_causal i h
    rw [readingAt?, readingAt?, List.getElem?_eq_getElem hlength,
      List.getElem?_eq_getElem (hlength.trans_le hpoints.length_le), hpoints.getElem hlength]

/-- Behind the end of a series there is no reading, so there is nothing to cut off. -/
theorem readingAt?_take (i : Indicator) (candles : List Candle) (place : Nat) :
    i.readingAt? (candles.take (place + 1)) place = i.readingAt? candles place := by
  rcases Nat.lt_or_ge place candles.length with hinside | hbehind
  · refine (i.readingAt?_of_prefix (List.take_prefix _ _) ?_).symm
    rw [List.length_take]
    omega
  · rw [List.take_of_length_le (by omega)]

end

end Indicator

end TradingRules
