import TradingRules.Proofs.Indicator.Locality

/-!
# Where readings begin

An indicator has a reading at every place of the series from the end of its warm-up on
(`isSome_readingAt?_iff`), whatever the closes are. Its points stand beside the candles they are
computed for (`time_of_point`).
-/

namespace TradingRules.Indicator

open Running

/-- As many bars stand up to a place as the first reading asks for: as many as the period counts, or one
more where the change from bar to bar is looked at. -/
def PastWarmUp (place : Nat) : Indicator → Prop
  | .sma n | .ema n | .atr n | .stddev n | .bollinger n _ => 0 < n ∧ n ≤ place + 1
  | .rsi n | .roc n => 0 < n ∧ n ≤ place

def period : Indicator → Nat
  | .sma n | .ema n | .rsi n | .roc n | .atr n | .stddev n | .bollinger n _ => n

variable {candles : List Candle} {place : Nat} {i : Indicator}

theorem PastWarmUp.period_pos (h : i.PastWarmUp place) : 0 < i.period := by
  cases i <;> exact h.1

theorem isSome_join_readingsWhere {valid : Nat → Bool} {values : List Double}
    (hinside : place < values.length) :
    ((readingsWhere valid values)[place]?).join.isSome = true ↔ valid place = true := by
  rw [readingsWhere, List.getElem?_mapIdx, List.getElem?_eq_getElem hinside, Option.map_some,
    Option.join_some]
  split <;> simp [*]

theorem isSome_join_windows {n : Nat} {closes : List Double} (f : List Double → Reading)
    (hinside : place < closes.length) :
    (((windows n closes).map (Option.map f))[place]?).join.isSome = true ↔ n ≤ place + 1 := by
  rw [windows, List.getElem?_map, List.getElem?_mapIdx, List.getElem?_eq_getElem hinside, Option.map_some,
    Option.map_some, Option.join_some]
  split <;> simp [*]

/-- The loops begin to give readings where as many bars stand as the period asks for. -/
theorem isSome_positive_iff (hperiod : 0 < i.period) (hinside : place < candles.length) :
    ((i.positive candles)[place]?).join.isSome = true ↔ i.PastWarmUp place := by
  cases i with
  | sma n | ema n | atr n =>
    rw [positive, isSome_join_readingsWhere (by simpa using hinside), decide_eq_true_iff, PastWarmUp]
    exact (and_iff_right hperiod).symm
  | roc n =>
    rw [positive, isSome_join_readingsWhere (by simpa using hinside), Bool.and_eq_true,
      decide_eq_true_iff, decide_eq_true_iff, PastWarmUp]
  | rsi n =>
    rw [positive, PastWarmUp]
    cases place with
    | zero => exact iff_of_false Bool.false_ne_true fun h => absurd h.2 (Nat.not_le_of_gt h.1)
    | succ place =>
      -- the change to a candle stands one place before it
      have hchanges : place < candles.length - 1 := by omega
      rw [List.getElem?_cons_succ, isSome_join_readingsWhere (by simpa using hchanges), Bool.not_eq_true',
        decide_eq_false_iff_not, Nat.not_lt]
      exact (and_iff_right hperiod).symm
  | stddev n | bollinger n =>
    rw [positive, PastWarmUp]
    refine (isSome_join_windows _ (by simpa using hinside)).trans ?_
    exact (and_iff_right hperiod).symm

theorem readings_of_period_pos (hperiod : 0 < i.period) (candles : List Candle) :
    i.readings candles = i.positive candles := by
  unfold readings
  split <;> first | rfl | exact absurd hperiod (Nat.lt_irrefl 0)

theorem readingAt?_of_period_zero (hperiod : i.period = 0) : i.readingAt? candles place = none := by
  cases i with
  | rsi n | roc n =>
    obtain rfl : n = 0 := hperiod
    simp only [readingAt?, points, isVoid, readings, Bool.false_eq_true, if_false,
      List.getElem?_zipWith, List.getElem?_map]
    cases candles[place]? <;> rfl
  | sma n | ema n | atr n | stddev n | bollinger n =>
    obtain rfl : n = 0 := hperiod
    exact readingAt?_of_void rfl

theorem not_pastWarmUp_of_isVoid (hvoid : i.isVoid candles = true) (hinside : place < candles.length) :
    ¬i.PastWarmUp place := by
  cases i <;> simp only [isVoid, Bool.or_eq_true, beq_iff_eq, decide_eq_true_eq, Bool.false_eq_true,
    PastWarmUp] at hvoid ⊢
  all_goals omega

theorem isSome_readingAt?_iff (i : Indicator) (candles : List Candle) (place : Nat) :
    (i.readingAt? candles place).isSome = true ↔ place < candles.length ∧ i.PastWarmUp place := by
  rcases Nat.lt_or_ge place candles.length with hinside | hbehind
  · rw [and_iff_right hinside]
    rcases Nat.eq_zero_or_pos i.period with hperiod | hperiod
    · rw [readingAt?_of_period_zero hperiod]
      exact iff_of_false nofun fun h => h.period_pos.ne' hperiod
    · cases hvoid : i.isVoid candles with
      | true =>
        rw [readingAt?_of_void hvoid]
        exact iff_of_false nofun (not_pastWarmUp_of_isVoid hvoid hinside)
      | false =>
        rw [readingAt?_of_inside hvoid hinside, readings_of_period_pos hperiod]
        exact isSome_positive_iff hperiod hinside
  · rw [readingAt?_of_length_le i hbehind]
    exact iff_of_false nofun fun h => h.1.not_ge hbehind

theorem time_of_point {p : IndicatorPoint} (h : (i.points candles)[place]? = some p) :
    candles[place]?.map Candle.time = some p.time := by
  unfold points at h
  split at h
  · cases h
  · obtain ⟨c, r, hc, -, rfl⟩ := List.getElem?_zipWith_eq_some.mp h
    rw [hc]
    rfl

end TradingRules.Indicator
