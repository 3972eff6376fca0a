import TradingRules.Proofs.Double.Nearest

/-!
# The shortest decimal is in the interval

The grids tried for a double end with one finer than its rounding interval, so that a decimal is found
(`shortest_spec`), and every decimal found lies in the interval.
-/

namespace TradingRules.Decimal

open Double (Magnitude)

def Scaled.value (s : Scaled) : ℚ := s.digits * 10 ^ s.exponent

-- ---------------------------------------------------------------------------
-- Powers of ten beside powers of two
-- ---------------------------------------------------------------------------

theorem two_ten_powers : 2 ^ 100000 ≤ 10 ^ 30103 ∧ 10 ^ 30103 ≤ 2 ^ 100001 := by
  decide +kernel

theorem two_le_ten : (2 : ℚ) ^ 100000 ≤ 10 ^ 30103 := by exact_mod_cast two_ten_powers.1

theorem ten_le_two : (10 : ℚ) ^ 30103 ≤ 2 ^ 100001 := by exact_mod_cast two_ten_powers.2

theorem ten_zpow_le_of_neg {l : Int} (hl : l < 0) : ((10 : ℚ) ^ 30103) ^ l ≤ (2 ^ 100000) ^ l := by
  obtain ⟨n, rfl⟩ := Int.exists_eq_neg_ofNat hl.le
  rw [zpow_neg, zpow_neg, zpow_natCast, zpow_natCast]
  exact inv_anti₀ (by positivity) (pow_le_pow_left₀ (by positivity) two_le_ten n)

theorem ten_pow_le_of_le {n : Nat} (hn : n ≤ 100000) :
    ((10 : ℚ) ^ 30103) ^ n ≤ 2 ^ 100000 * (2 ^ 100000) ^ n :=
  calc ((10 : ℚ) ^ 30103) ^ n
    _ ≤ (2 ^ 100001) ^ n := pow_le_pow_left₀ (by positivity) ten_le_two n
    _ = 2 ^ n * (2 ^ 100000) ^ n := by rw [← mul_pow, ← pow_succ']
    _ ≤ 2 ^ 100000 * (2 ^ 100000) ^ n := by gcongr; norm_num

theorem ten_zpow_le {l e : Int} (he : e * 100000 ≤ l * 30103) (hl : l ≤ 100000) :
    (10 : ℚ) ^ e ≤ 2 * 2 ^ l := by
  have hpowers : ((10 : ℚ) ^ 30103) ^ l ≤ 2 ^ 100000 * (2 ^ 100000) ^ l := by
    rcases lt_or_ge l 0 with hneg | hnonneg
    · have hone : (1 : ℚ) ≤ 2 ^ 100000 := one_le_pow₀ one_le_two
      have hpos : (0 : ℚ) < (2 ^ 100000) ^ l := by positivity
      exact (ten_zpow_le_of_neg hneg).trans (le_mul_of_one_le_left hpos.le hone)
    · obtain ⟨n, rfl⟩ := Int.eq_ofNat_of_zero_le hnonneg
      exact ten_pow_le_of_le (by omega)
  refine le_of_pow_le_pow_left₀ (n := 100000) (by decide) (by positivity) ?_
  calc ((10 : ℚ) ^ e) ^ 100000
    _ = 10 ^ (e * 100000) := by rw [← zpow_natCast, ← zpow_mul]; rfl
    _ ≤ 10 ^ (l * 30103) := zpow_le_zpow_right₀ (by norm_num) he
    _ = (10 ^ 30103) ^ l := by rw [← zpow_natCast, ← zpow_mul, mul_comm]; rfl
    _ ≤ 2 ^ 100000 * (2 ^ 100000) ^ l := hpowers
    _ = (2 * 2 ^ l) ^ 100000 := by
      rw [mul_pow, ← zpow_natCast (2 ^ l), ← zpow_mul, mul_comm l, zpow_mul, zpow_natCast]

theorem two_zpow_le {e : Int} {l : Nat} (he : l * 30103 ≤ e * 100000) : (2 : ℚ) ^ (l : Int) ≤ 10 ^ e := by
  refine le_of_pow_le_pow_left₀ (n := 100000) (by decide) (by positivity) ?_
  calc ((2 : ℚ) ^ (l : Int)) ^ 100000
    _ = (2 ^ 100000) ^ l := by rw [zpow_natCast, ← pow_mul, ← pow_mul, mul_comm]
    _ ≤ (10 ^ 30103) ^ l := pow_le_pow_left₀ (by positivity) two_le_ten l
    _ = 10 ^ ((l : Int) * 30103) := by rw [← pow_mul, ← zpow_natCast, mul_comm]; push_cast; rfl
    _ ≤ 10 ^ (e * 100000) := zpow_le_zpow_right₀ (by norm_num) he
    _ = (10 ^ e) ^ 100000 := by rw [← zpow_natCast, ← zpow_mul]; rfl

-- ---------------------------------------------------------------------------
-- Grids
-- ---------------------------------------------------------------------------

section
variable {i : Interval} {k : Int} {tie : Tie} {s : Scaled}

theorem pow_toNat {b : ℚ} (hb : b ≠ 0) (k : Int) : b ^ k.toNat = b ^ k * b ^ (-k).toNat := by
  rcases Int.le_total 0 k with h | h
  · obtain ⟨n, rfl⟩ := Int.eq_ofNat_of_zero_le h
    simp
  · obtain ⟨n, rfl⟩ := Int.exists_eq_neg_ofNat h
    simp [hb]

theorem gridRatio_pos : 0 < (gridRatio i k).1 ∧ 0 < (gridRatio i k).2 :=
  ⟨Nat.mul_pos (Nat.pow_pos (by decide)) (Nat.pow_pos (by decide)),
    Nat.mul_pos (Nat.pow_pos (by decide)) (Nat.pow_pos (by decide))⟩

theorem gridRatio_mul : ((gridRatio i k).1 : ℚ) * 10 ^ k = (gridRatio i k).2 * 2 ^ i.exponent := by
  have htwo := pow_toNat two_ne_zero i.exponent
  have hten := pow_toNat (by norm_num : (10 : ℚ) ≠ 0) k
  have hnum : ((gridRatio i k).1 : ℚ) = 2 ^ i.exponent.toNat * 10 ^ (-k).toNat := by simp [gridRatio]
  have hden : ((gridRatio i k).2 : ℚ) = 2 ^ (-i.exponent).toNat * 10 ^ k.toNat := by simp [gridRatio]
  rw [hnum, hden, htwo, hten]
  ring

/-- One scale takes the units of the interval and the steps of the grid to whole numbers. -/
theorem exists_scale (i : Interval) (k : Int) : ∃ c : ℚ, 0 < c ∧
    (∀ a : Nat, ((a * (gridRatio i k).1 : Nat) : ℚ) = a * 2 ^ i.exponent * c) ∧
      ∀ b : Nat, ((b * (gridRatio i k).2 : Nat) : ℚ) = b * 10 ^ k * c := by
  have hstep : (0 : ℚ) < 10 ^ k := by positivity
  have hden : (0 : ℚ) < (gridRatio i k).2 := by exact_mod_cast gridRatio_pos.2
  refine ⟨(gridRatio i k).2 / 10 ^ k, by positivity, fun a => ?_, fun b => ?_⟩
  · rw [Nat.cast_mul, mul_div_assoc', eq_div_iff hstep.ne', mul_assoc, gridRatio_mul]
    ring
  · rw [Nat.cast_mul]
    field_simp

theorem units_lt_iff {a b : Nat} :
    a * (gridRatio i k).1 < b * (gridRatio i k).2 ↔ (a : ℚ) * 2 ^ i.exponent < b * 10 ^ k := by
  obtain ⟨c, hc, hunits, hsteps⟩ := exists_scale i k
  rw [← Nat.cast_lt (α := ℚ), hunits, hsteps, mul_lt_mul_iff_left₀ hc]

theorem steps_lt_iff {a b : Nat} :
    b * (gridRatio i k).2 < a * (gridRatio i k).1 ↔ (b : ℚ) * 10 ^ k < a * 2 ^ i.exponent := by
  obtain ⟨c, hc, hunits, hsteps⟩ := exists_scale i k
  rw [← Nat.cast_lt (α := ℚ), hunits, hsteps, mul_lt_mul_iff_left₀ hc]

theorem units_le_iff {a b : Nat} :
    a * (gridRatio i k).1 ≤ b * (gridRatio i k).2 ↔ (a : ℚ) * 2 ^ i.exponent ≤ b * 10 ^ k := by
  rw [← not_lt, ← not_lt, steps_lt_iff]

theorem steps_le_iff {a b : Nat} :
    b * (gridRatio i k).2 ≤ a * (gridRatio i k).1 ↔ (b : ℚ) * 10 ^ k ≤ a * 2 ^ i.exponent := by
  rw [← not_lt, ← not_lt, units_lt_iff]

theorem holds_iff {candidate : Nat} :
    i.holds (gridRatio i k).1 (gridRatio i k).2 candidate = true ↔ i.Contains (candidate * 10 ^ k) := by
  unfold Interval.holds Interval.Contains
  split
  · rw [Bool.and_eq_true, decide_eq_true_iff, decide_eq_true_iff, units_le_iff, steps_le_iff]
  · rw [Bool.and_eq_true, decide_eq_true_iff, decide_eq_true_iff, units_lt_iff, steps_lt_iff]

theorem onGrid?_eq_some (h : i.onGrid? tie k = some s) :
    s.exponent = k ∧ 0 < s.digits ∧ i.Contains s.value := by
  unfold Interval.onGrid? at h
  simp only at h
  split at h
  · rename_i hbelow
    simp only [Bool.and_eq_true, decide_eq_true_eq] at hbelow
    cases h
    exact ⟨rfl, hbelow.1.1, holds_iff.mp hbelow.1.2⟩
  · split at h
    · rename_i habove
      cases h
      exact ⟨rfl, Nat.succ_pos _, holds_iff.mp habove⟩
    · cases h

def Interval.Fine (i : Interval) (k : Int) : Prop :=
  i.low < i.value ∧ (i.value : ℚ) * 2 ^ i.exponent + 10 ^ k < i.high * 2 ^ i.exponent

theorem onGrid?_isSome (tie : Tie) (h : i.Fine k) : (i.onGrid? tie k).isSome = true := by
  let below := i.value * (gridRatio i k).1 / (gridRatio i k).2
  have hunder : (below : ℚ) * 10 ^ k ≤ i.value * 2 ^ i.exponent :=
    steps_le_iff.mp (Nat.div_mul_le_self _ _)
  have hover : (i.value : ℚ) * 2 ^ i.exponent < (below + 1 : Nat) * 10 ^ k :=
    units_lt_iff.mp (Nat.lt_mul_of_div_lt (Nat.lt_succ_self below) gridRatio_pos.2)
  have hlow : (i.low : ℚ) * 2 ^ i.exponent < i.value * 2 ^ i.exponent := by
    have hstep : (0 : ℚ) < 2 ^ i.exponent := by positivity
    have hlt : (i.low : ℚ) < i.value := by exact_mod_cast h.1
    exact mul_lt_mul_of_pos_right hlt hstep
  have habove : i.holds (gridRatio i k).1 (gridRatio i k).2 (below + 1) = true := by
    apply holds_iff.mpr
    apply Interval.Contains.of_lt (hlow.trans hover)
    push_cast
    linarith [h.2]
  unfold Interval.onGrid?
  simp only [below] at habove
  simp only [habove, ↓reduceIte]
  split <;> rfl

/-- The search ends with a decimal of some grid if it comes to a fine one. -/
theorem search_spec (tie : Tie) (leading : Int) (fuel places : Nat) {fine : Int} (h : i.Fine fine)
    (hle : fine ≤ leading - places) (hlt : leading - places - fuel < fine) :
    ∃ k, fine ≤ k ∧ i.onGrid? tie k = some (i.search tie leading fuel places) := by
  induction fuel generalizing places with
  | zero => omega
  | succ fuel ih =>
    unfold Interval.search
    split
    · rename_i s hs
      exact ⟨_, hle, hs⟩
    · rename_i hnone
      -- A fine grid has a decimal, so this one was coarser.
      have hne : fine ≠ leading - places := by
        rintro rfl
        have hsome := onGrid?_isSome tie h
        rw [hnone] at hsome
        cases hsome
      exact ih (places + 1) (by omega) (by omega)

end

-- ---------------------------------------------------------------------------
-- Trailing zeros
-- ---------------------------------------------------------------------------

theorem dropZeros_spec (fuel : Nat) (s : Scaled) :
    (s.dropZeros fuel).value = s.value ∧ s.exponent ≤ (s.dropZeros fuel).exponent ∧
      (0 < s.digits → 0 < (s.dropZeros fuel).digits) := by
  induction fuel generalizing s with
  | zero => exact ⟨rfl, Int.le_refl _, id⟩
  | succ fuel ih =>
    unfold Scaled.dropZeros
    split
    · rename_i hzero
      obtain ⟨hvalue, hexponent, hdigits⟩ := ih ⟨s.digits / 10, s.exponent + 1⟩
      refine ⟨hvalue.trans ?_, by simp only at hexponent; omega, fun _ => hdigits (by simp only; omega)⟩
      have hten : (s.digits : ℚ) = (s.digits / 10 : Nat) * 10 := by
        exact_mod_cast (Nat.div_mul_cancel (Nat.dvd_of_mod_eq_zero hzero.2)).symm
      rw [Scaled.value, Scaled.value, hten, zpow_add_one₀ (by norm_num)]
      ring
    · exact ⟨rfl, Int.le_refl _, id⟩

-- ---------------------------------------------------------------------------
-- The grids of a double
-- ---------------------------------------------------------------------------

section
variable {i : Interval} {m : Magnitude}

theorem log2_value_le (h : 0 < i.value) :
    (2 : ℚ) ^ ((i.value.log2 : Int) + i.exponent) ≤ i.value * 2 ^ i.exponent := by
  rw [zpow_add₀ two_ne_zero]
  exact mul_le_mul_of_nonneg_right (Double.log2_bounds h).1 (by positivity)

/-- The first grid is no coarser than twice the value. -/
theorem leading_le (h : 0 < i.value) (hlog : (i.value.log2 : Int) + i.exponent ≤ 100000) :
    (10 : ℚ) ^ i.leading ≤ 2 * (i.value * 2 ^ i.exponent) := by
  have hpos : (0 : ℚ) < i.value * 2 ^ i.exponent := by positivity
  unfold Interval.leading
  simp only
  split
  · rename_i hgrid
    rw [← Nat.one_mul (gridRatio i _).2, steps_le_iff, Nat.cast_one, one_mul] at hgrid
    linarith
  · refine (ten_zpow_le ?_ hlog).trans (mul_le_mul_of_nonneg_left (log2_value_le h) zero_le_two)
    omega

theorem le_leading (hleast : -1076 ≤ i.exponent) : -324 ≤ i.leading := by
  unfold Interval.leading
  simp only
  split <;> omega

theorem log2_around (hm : m.Canonical) (hpos : 0 < m.significand) :
    ((Interval.around m).value.log2 : Int) + (Interval.around m).exponent ≤ 100000 := by
  have hvalue : (Interval.around m).value < 2 ^ 55 := by
    have hlt := hm.significand_lt
    simp only [Interval.around]
    omega
  have hlog := (Nat.log2_lt (by simp only [Interval.around]; omega)).mpr hvalue
  have hexponent := hm.le_greatest
  simp only [Interval.around, Magnitude.greatestExponent] at hlog hexponent ⊢
  omega

/-- With seventeen digits after the first a step is narrower than half the gap above a double. -/
theorem fine_around (hm : m.Canonical) (hpos : 0 < m.significand) :
    (Interval.around m).Fine ((Interval.around m).leading - 17) := by
  have hvaluePos : 0 < (Interval.around m).value := by simp only [Interval.around]; omega
  refine ⟨by simp only [Interval.around]; split <;> omega, ?_⟩
  have hleading := leading_le hvaluePos (log2_around hm hpos)
  have hstep : (0 : ℚ) < 2 ^ (Interval.around m).exponent := by positivity
  have hvalue : ((Interval.around m).value : ℚ) ≤ 2 ^ 55 := by
    have hlt := hm.significand_lt
    simp only [Interval.around]
    exact_mod_cast (by omega : 4 * m.significand ≤ 2 ^ 55)
  have hhigh : ((Interval.around m).high : ℚ) = (Interval.around m).value + 2 := by
    simp [Interval.around]
  rw [hhigh, zpow_sub₀ (by norm_num)]
  have hpower : (10 : ℚ) ^ (17 : Int) = 100000000000000000 := by norm_num
  rw [hpower, add_mul, add_lt_add_iff_left, div_lt_iff₀ (by norm_num)]
  nlinarith

theorem shortest_spec (tie : Tie) (hm : m.Canonical) (hpos : 0 < m.significand) :
    0 < (shortest tie m).digits ∧ (Interval.around m).Contains (shortest tie m).value ∧
      -341 ≤ (shortest tie m).exponent := by
  have hleast : -324 ≤ (Interval.around m).leading := by
    apply le_leading
    have hexponent := hm.least_le
    simp only [Interval.around, Magnitude.leastExponent] at hexponent ⊢
    omega
  obtain ⟨k, hk, hgrid⟩ := search_spec tie (Interval.around m).leading 18 0 (fine_around hm hpos)
    (by omega) (by omega)
  obtain ⟨hexponent, hdigits, hcontains⟩ := onGrid?_eq_some hgrid
  obtain ⟨hvalue, hle, hpositive⟩ := dropZeros_spec 20
    ((Interval.around m).search tie (Interval.around m).leading 18 0)
  unfold shortest
  rw [if_neg (by omega)]
  refine ⟨hpositive hdigits, hvalue ▸ hcontains, ?_⟩
  simp only at hle ⊢
  omega

end

end TradingRules.Decimal
