import TradingRules.Decimal.Shortest
import TradingRules.Proofs.Double.Canonical

/-!
# Rounding to the nearest double

The fractions in the rounding interval of a double, its ends included iff its significand is even, are
those that round to it: `nearest_of_contains` reads every one of them as the double. A fraction that is
not far above the greatest double has a finite one (`toWord_nearest_lt`), so every machine integer has.
-/

namespace TradingRules

open Decimal (twoTo Interval)
open Double (Magnitude)
open Double.Magnitude (leastExponent greatestExponent roundQuotient shifted nearest)

namespace Decimal.Interval

def Contains (i : Interval) (v : ℚ) : Prop :=
  if i.closed then i.low * 2 ^ i.exponent ≤ v ∧ v ≤ i.high * 2 ^ i.exponent
  else i.low * 2 ^ i.exponent < v ∧ v < i.high * 2 ^ i.exponent

variable {i : Interval} {v : ℚ}

theorem Contains.bounds (h : i.Contains v) :
    i.low * 2 ^ i.exponent ≤ v ∧ v ≤ i.high * 2 ^ i.exponent := by
  unfold Contains at h
  split at h
  · exact h
  · exact ⟨h.1.le, h.2.le⟩

theorem Contains.bounds_of_open (h : i.Contains v) (hopen : i.closed = false) :
    i.low * 2 ^ i.exponent < v ∧ v < i.high * 2 ^ i.exponent := by
  rwa [Contains, hopen] at h

theorem Contains.of_lt (hlow : i.low * 2 ^ i.exponent < v) (hhigh : v < i.high * 2 ^ i.exponent) :
    i.Contains v := by
  unfold Contains
  split
  · exact ⟨hlow.le, hhigh.le⟩
  · exact ⟨hlow, hhigh⟩

end Decimal.Interval

namespace Double.Magnitude

def value (m : Magnitude) : ℚ := m.significand * 2 ^ m.exponent

/-- A magnitude above which the gap is twice the gap below. -/
def Narrow (m : Magnitude) : Prop := m.significand = 2 ^ 52 ∧ leastExponent < m.exponent

instance (m : Magnitude) : Decidable m.Narrow := inferInstanceAs (Decidable (_ ∧ _))

end Double.Magnitude

namespace Double

-- ---------------------------------------------------------------------------
-- Quotients
-- ---------------------------------------------------------------------------

section
variable {num den c : Nat} {v : ℚ} {s : Int}

/-- `c` steps of a size come nearest to `v`, or as near as `c - 1` or `c + 1` with `c` even. -/
structure Nearest (c : Nat) (step v : ℚ) : Prop where
  low : (c - 1 / 2) * step ≤ v
  high : v ≤ (c + 1 / 2) * step
  low_of_odd : c % 2 = 1 → (c - 1 / 2) * step < v
  high_of_odd : c % 2 = 1 → v < (c + 1 / 2) * step

theorem roundQuotient_of_nearest (hden : 0 < den) (h : Nearest c 1 (num / den)) :
    roundQuotient num den = c := by
  have hpos : (0 : ℚ) < den := by exact_mod_cast hden
  have hlow : 2 * (c * den) ≤ 2 * num + den := by
    have h := h.low
    rw [mul_one, le_div_iff₀ hpos] at h
    have h : 2 * ((c : ℚ) * den) ≤ 2 * num + den := by linarith
    exact_mod_cast h
  have hhigh : 2 * num ≤ 2 * (c * den) + den := by
    have h := h.high
    rw [mul_one, div_le_iff₀ hpos] at h
    have h : 2 * (num : ℚ) ≤ 2 * (c * den) + den := by linarith
    exact_mod_cast h
  have hlowOdd : c % 2 = 1 → 2 * (c * den) < 2 * num + den := by
    intro hodd
    have h := h.low_of_odd hodd
    rw [mul_one, lt_div_iff₀ hpos] at h
    have h : 2 * ((c : ℚ) * den) < 2 * num + den := by linarith
    exact_mod_cast h
  have hhighOdd : c % 2 = 1 → 2 * num < 2 * (c * den) + den := by
    intro hodd
    have h := h.high_of_odd hodd
    rw [mul_one, div_lt_iff₀ hpos] at h
    have h : 2 * (num : ℚ) < 2 * (c * den) + den := by linarith
    exact_mod_cast h
  have hsplit : num / den * den + num % den = num := Nat.div_add_mod' num den
  have hrest : num % den < den := Nat.mod_lt _ hden
  unfold roundQuotient
  generalize num / den = quotient at *
  generalize num % den = rest at *
  -- The two bounds leave the quotient and its successor.
  have hle : quotient ≤ c := by
    by_contra hlt
    have hmul : (c + 1) * den ≤ quotient * den := Nat.mul_le_mul_right _ (by omega)
    rw [Nat.add_mul] at hmul
    omega
  have hge : c ≤ quotient + 1 := by
    by_contra hlt
    have hmul : (quotient + 2) * den ≤ c * den := Nat.mul_le_mul_right _ (by omega)
    rw [Nat.add_mul] at hmul
    omega
  rcases Nat.le_iff_lt_or_eq.mp hle with hlt | rfl
  · obtain rfl : c = quotient + 1 := by omega
    rw [Nat.add_mul] at *
    have hup : (den < 2 * rest || (2 * rest == den && quotient % 2 == 1)) = true := by
      simp only [Bool.or_eq_true, decide_eq_true_eq, Bool.and_eq_true, beq_iff_eq]
      omega
    simp only [hup, ↓reduceIte]
  · have hdown : (den < 2 * rest || (2 * rest == den && quotient % 2 == 1)) = false := by
      simp only [Bool.or_eq_false_iff, decide_eq_false_iff_not, Bool.and_eq_false_iff, beq_eq_false_iff_ne]
      omega
    simp only [hdown, Bool.false_eq_true, ↓reduceIte]

theorem shifted_pos (hden : 0 < den) : 0 < (shifted num den s).2 := by
  unfold shifted
  split
  · exact Nat.mul_pos hden (Nat.pow_pos (by decide))
  · exact hden

theorem twoTo_toNat {k : Int} (h : 0 ≤ k) : ((twoTo k.toNat : Nat) : ℚ) = 2 ^ k := by
  obtain ⟨n, rfl⟩ := Int.eq_ofNat_of_zero_le h
  simp

theorem shifted_div (num den : Nat) (s : Int) :
    ((shifted num den s).1 / (shifted num den s).2 : ℚ) = num / den / 2 ^ s := by
  unfold shifted
  split
  · rename_i hs
    rw [Nat.cast_mul, twoTo_toNat hs, div_div]
  · rename_i hs
    rw [Nat.cast_mul, twoTo_toNat (by omega), zpow_neg]
    field_simp

theorem roundQuotient_shifted (hden : 0 < den) (h : Nearest c (2 ^ s) (num / den)) :
    roundQuotient (shifted num den s).1 (shifted num den s).2 = c := by
  have hpos : (0 : ℚ) < 2 ^ s := by positivity
  apply roundQuotient_of_nearest (shifted_pos hden)
  rw [shifted_div]
  refine ⟨?_, ?_, fun hodd => ?_, fun hodd => ?_⟩
  · rw [mul_one, le_div_iff₀ hpos]
    exact h.low
  · rw [mul_one, div_le_iff₀ hpos]
    exact h.high
  · rw [mul_one, lt_div_iff₀ hpos]
    exact h.low_of_odd hodd
  · rw [mul_one, div_lt_iff₀ hpos]
    exact h.high_of_odd hodd

theorem shifted_lt_iff (hden : 0 < den) {n : Nat} :
    (shifted num den s).1 / (shifted num den s).2 < n ↔ (num / den : ℚ) < n * 2 ^ s := by
  have hpos : (0 : ℚ) < 2 ^ s := by positivity
  have hshifted : (0 : ℚ) < (shifted num den s).2 := by exact_mod_cast shifted_pos hden
  rw [Nat.div_lt_iff_lt_mul (shifted_pos hden), ← div_lt_iff₀ hpos, ← shifted_div, div_lt_iff₀ hshifted]
  exact_mod_cast Iff.rfl

-- ---------------------------------------------------------------------------
-- Binades
-- ---------------------------------------------------------------------------

/-- The fraction has 53 bits before the point when it is counted in steps of `2 ^ e`. -/
def InBinade (e : Int) (v : ℚ) : Prop := 2 ^ 52 * 2 ^ e ≤ v ∧ v < 2 ^ 53 * 2 ^ e

theorem InBinade.le {d e : Int} {w : ℚ} (hv : InBinade d v) (hw : w < 2 ^ 53 * 2 ^ e) (h : v ≤ w) : d ≤ e := by
  have hlt : (2 : ℚ) ^ (52 + d) < 2 ^ (53 + e) := by
    rw [zpow_add₀ two_ne_zero, zpow_add₀ two_ne_zero]
    exact (hv.1.trans h).trans_lt hw
  have := (zpow_lt_zpow_iff_right₀ one_lt_two).mp hlt
  omega

theorem log2_bounds {n : Nat} (h : 0 < n) : (2 : ℚ) ^ (n.log2 : Int) ≤ n ∧ (n : ℚ) < 2 ^ ((n.log2 : Int) + 1) := by
  constructor
  · rw [zpow_natCast]
    exact_mod_cast Nat.log2_self_le h.ne'
  · rw [← Nat.cast_one, ← Nat.cast_add, zpow_natCast]
    exact_mod_cast Nat.lt_log2_self

/-- The logarithms of the parts of a fraction place it within two binades. -/
theorem estimate_bounds (hnum : 0 < num) (hden : 0 < den) :
    2 ^ 52 * 2 ^ ((num.log2 : Int) - den.log2 - 53) < (num / den : ℚ) ∧
      (num / den : ℚ) < 2 ^ 54 * 2 ^ ((num.log2 : Int) - den.log2 - 53) := by
  have hnumPos : (0 : ℚ) < num := by exact_mod_cast hnum
  have hdenPos : (0 : ℚ) < den := by exact_mod_cast hden
  obtain ⟨hnumLow, hnumHigh⟩ := log2_bounds hnum
  obtain ⟨hdenLow, hdenHigh⟩ := log2_bounds hden
  constructor
  · calc (2 : ℚ) ^ 52 * 2 ^ ((num.log2 : Int) - den.log2 - 53)
      _ = 2 ^ (num.log2 : Int) / 2 ^ ((den.log2 : Int) + 1) := by
        rw [← zpow_natCast, ← zpow_add₀ two_ne_zero, ← zpow_sub₀ two_ne_zero]
        congr 1
        omega
      _ ≤ num / 2 ^ ((den.log2 : Int) + 1) := by gcongr
      _ < num / den := by gcongr
  · calc (num / den : ℚ)
      _ ≤ num / 2 ^ (den.log2 : Int) := by gcongr
      _ < 2 ^ ((num.log2 : Int) + 1) / 2 ^ (den.log2 : Int) := by gcongr
      _ = 2 ^ 54 * 2 ^ ((num.log2 : Int) - den.log2 - 53) := by
        rw [← zpow_natCast, ← zpow_add₀ two_ne_zero, ← zpow_sub₀ two_ne_zero]
        congr 1
        omega

/-- A magnitude whose significand has come out one bit too long. -/
def carried (significand : Nat) (exponent : Int) : Magnitude :=
  if significand = 2 ^ 53 then ⟨2 ^ 52, exponent + 1⟩ else ⟨significand, exponent⟩

/-- The steps that are counted are those of the fraction's binade, but none below the least. -/
theorem nearest_eq_carried (hnum : 0 < num) (hden : 0 < den) : ∃ e : Int, InBinade e (num / den) ∧
    nearest num den =
      carried (roundQuotient (shifted num den (max e leastExponent)).1
        (shifted num den (max e leastExponent)).2) (max e leastExponent) := by
  obtain ⟨hlow, hhigh⟩ := estimate_bounds hnum hden
  let estimate : Int := (num.log2 : Int) - den.log2 - 53
  have hhigh : (num / den : ℚ) < 2 ^ 54 * 2 ^ estimate := hhigh
  have hfloor : ∀ {n : Nat}, (shifted num den estimate).1 / (shifted num den estimate).2 < n ↔
      (num / den : ℚ) < n * 2 ^ estimate := shifted_lt_iff hden
  by_cases hfirst : (num / den : ℚ) < 2 ^ 53 * 2 ^ estimate
  · refine ⟨estimate, ⟨hlow.le, hfirst⟩, ?_⟩
    have hshort : (shifted num den estimate).1 / (shifted num den estimate).2 < twoTo 53 :=
      hfloor.mpr (by exact_mod_cast hfirst)
    simp only [nearest, estimate] at hshort ⊢
    rw [if_pos hshort]
    rfl
  · have hdouble : ∀ k : Nat, (2 : ℚ) ^ k * 2 ^ (estimate + 1) = 2 ^ (k + 1) * 2 ^ estimate := by
      intro k
      rw [zpow_add_one₀ two_ne_zero]
      ring
    refine ⟨estimate + 1, ⟨?_, ?_⟩, ?_⟩
    · rw [hdouble]
      exact not_lt.mp hfirst
    · rw [hdouble]
      exact hhigh
    · have hlong : ¬(shifted num den estimate).1 / (shifted num den estimate).2 < twoTo 53 :=
        fun h => hfirst (by exact_mod_cast hfloor.mp h)
      have hshort : (shifted num den estimate).1 / (shifted num den estimate).2 < twoTo 54 :=
        hfloor.mpr (by exact_mod_cast hhigh)
      simp only [nearest, estimate] at hlong hshort ⊢
      rw [if_neg hlong, if_pos hshort]
      rfl

end

-- ---------------------------------------------------------------------------
-- The interval of a double
-- ---------------------------------------------------------------------------

section
variable {m : Magnitude} {v : ℚ}

theorem step_around : (2 : ℚ) ^ (Interval.around m).exponent = 2 ^ m.exponent / 4 := by
  show (2 : ℚ) ^ (m.exponent - 2) = 2 ^ m.exponent / 4
  rw [zpow_sub₀ two_ne_zero]
  norm_num

theorem low_around (hpos : 0 < m.significand) :
    ((Interval.around m).low : ℚ) = 4 * m.significand - if m.Narrow then 1 else 2 := by
  have hnarrow : (m.significand == twoTo 52 && decide (leastExponent < m.exponent)) = decide m.Narrow := by
    rw [Bool.eq_iff_iff, Bool.and_eq_true, beq_iff_eq, decide_eq_true_iff, decide_eq_true_iff]
    exact Iff.rfl
  simp only [Interval.around, hnarrow, decide_eq_true_eq]
  split <;> rw [Nat.cast_sub (by omega)] <;> push_cast <;> rfl

theorem high_around : ((Interval.around m).high : ℚ) = 4 * m.significand + 2 := by
  simp [Interval.around]

theorem nearest_of_around (hpos : 0 < m.significand) (h : (Interval.around m).Contains v) :
    Nearest m.significand (2 ^ m.exponent) v := by
  have hstep : (0 : ℚ) < 2 ^ m.exponent := by positivity
  have hgap : (if m.Narrow then 1 else 2 : ℚ) ≤ 2 := by split <;> norm_num
  have hlow : (m.significand - 1 / 2) * 2 ^ m.exponent ≤
      ((Interval.around m).low : ℚ) * 2 ^ (Interval.around m).exponent := by
    rw [low_around hpos, step_around]
    nlinarith
  have hhigh : ((Interval.around m).high : ℚ) * 2 ^ (Interval.around m).exponent =
      (m.significand + 1 / 2) * 2 ^ m.exponent := by
    rw [high_around, step_around]
    ring
  have hopen : m.significand % 2 = 1 → (Interval.around m).closed = false := by
    intro hodd
    simp [Interval.around, hodd]
  constructor
  · exact hlow.trans h.bounds.1
  · exact hhigh ▸ h.bounds.2
  · exact fun hodd => hlow.trans_lt (h.bounds_of_open (hopen hodd)).1
  · exact fun hodd => hhigh ▸ (h.bounds_of_open (hopen hodd)).2

/-- Just below a power of two the steps are half as wide. -/
theorem low_of_narrow (hm : m.Narrow) (h : (Interval.around m).Contains v) :
    (m.significand - 1 / 4) * 2 ^ m.exponent ≤ v := by
  have hpos : 0 < m.significand := by
    rw [hm.1]
    decide
  have hlow := h.bounds.1
  rw [low_around hpos, step_around, if_pos hm] at hlow
  linarith

theorem lt_of_contains (hm : m.Canonical) (hpos : 0 < m.significand) (h : (Interval.around m).Contains v) :
    v < 2 ^ 53 * 2 ^ m.exponent := by
  have hstep : (0 : ℚ) < 2 ^ m.exponent := by positivity
  have hsignificand : (m.significand : ℚ) + 1 ≤ 2 ^ 53 := by exact_mod_cast hm.significand_lt
  have hhigh := (nearest_of_around hpos h).high
  nlinarith

theorem max_binade_eq {e : Int} (hm : m.Canonical) (hpos : 0 < m.significand)
    (h : (Interval.around m).Contains v) (hbinade : InBinade e v)
    (habove : m.Narrow → m.significand * 2 ^ m.exponent ≤ v) : max e leastExponent = m.exponent := by
  have hlt := lt_of_contains hm hpos h
  have hle : e ≤ m.exponent := hbinade.le hlt (le_refl v)
  have hleast := hm.least_le
  by_cases hexponent : m.exponent = leastExponent
  · omega
  have hnormal : 2 ^ 52 ≤ m.significand := hm.normal.resolve_right hexponent
  have hlow : 2 ^ 52 * 2 ^ m.exponent ≤ v := by
    rcases hnormal.eq_or_lt with hpower | hlarger
    · have hnarrow : m.Narrow := ⟨hpower.symm, by omega⟩
      have hv := habove hnarrow
      rw [hnarrow.1] at hv
      exact_mod_cast hv
    · have hstep : (0 : ℚ) < 2 ^ m.exponent := by positivity
      have hsignificand : (2 : ℚ) ^ 52 + 1 ≤ m.significand := by exact_mod_cast hlarger
      have hv := (nearest_of_around hpos h).low
      nlinarith
  have hge : m.exponent ≤ e := InBinade.le ⟨hlow, hlt⟩ hbinade.2 (le_refl v)
  omega

/-- Just below a power of two the binade is the one before, where the significand rounds up and
carries. -/
theorem nearest_below_power {e : Int} (hm : m.Narrow) (h : (Interval.around m).Contains v)
    (hbinade : InBinade e v) (hbelow : v < m.significand * 2 ^ m.exponent) :
    max e leastExponent = m.exponent - 1 ∧ Nearest (2 ^ 53) (2 ^ (m.exponent - 1)) v := by
  have hstep : (0 : ℚ) < 2 ^ (m.exponent - 1) := by positivity
  have hdouble : (2 : ℚ) ^ m.exponent = 2 * 2 ^ (m.exponent - 1) := by
    rw [zpow_sub_one₀ two_ne_zero]
    ring
  have hlow := low_of_narrow hm h
  rw [hm.1, hdouble] at hlow hbelow
  push_cast at hlow hbelow
  have hinside : InBinade (m.exponent - 1) v := ⟨by nlinarith, by nlinarith⟩
  have hle : e ≤ m.exponent - 1 := hbinade.le hinside.2 (le_refl v)
  have hge : m.exponent - 1 ≤ e := hinside.le hbinade.2 (le_refl v)
  have hleast := hm.2
  refine ⟨by omega, ?_, ?_, fun hodd => ?_, fun hodd => ?_⟩
  · push_cast
    nlinarith
  · push_cast
    nlinarith
  · exact absurd hodd (by decide)
  · exact absurd hodd (by decide)

theorem nearest_of_contains {num den : Nat} (hm : m.Canonical) (hpos : 0 < m.significand) (hnum : 0 < num)
    (hden : 0 < den) (h : (Interval.around m).Contains (num / den)) : nearest num den = m := by
  obtain ⟨e, hbinade, hnearest⟩ := nearest_eq_carried hnum hden
  rw [hnearest]
  by_cases hbelow : m.Narrow ∧ (num / den : ℚ) < m.significand * 2 ^ m.exponent
  · obtain ⟨hnarrow, hbelow⟩ := hbelow
    obtain ⟨hexponent, hround⟩ := nearest_below_power hnarrow h hbinade hbelow
    rw [hexponent, roundQuotient_shifted hden hround, carried, if_pos rfl, Int.sub_add_cancel, ← hnarrow.1]
  · have hexponent : max e leastExponent = m.exponent :=
      max_binade_eq hm hpos h hbinade fun hnarrow => not_lt.mp fun hlt => hbelow ⟨hnarrow, hlt⟩
    have hshort : m.significand ≠ 2 ^ 53 := hm.significand_lt.ne
    rw [hexponent, roundQuotient_shifted hden (nearest_of_around hpos h), carried, if_neg hshort]

end

-- ---------------------------------------------------------------------------
-- Results that are finite
-- ---------------------------------------------------------------------------

theorem isFinite_ofMagnitude {m : Magnitude} (negative : Bool) (h : m.toWord < 2047 * 2 ^ 52) :
    (ofMagnitude negative m).isFinite = true := by
  have hpower : twoTo 63 = 2 ^ 63 := rfl
  have hinfinity : infinity.bits.toNat = 2047 * 2 ^ 52 := rfl
  have hbits : (ofMagnitude negative m).abs.bits.toNat = m.toWord := by
    rw [toNat_abs, ofMagnitude, UInt64.toNat_ofNat', hpower]
    cases negative
    · simp only [Bool.false_eq_true, ↓reduceIte]
      omega
    · simp only [↓reduceIte]
      omega
  rw [isFinite, decide_eq_true_iff, UInt64.lt_iff_toNat_lt, hbits, hinfinity]
  exact h

theorem Magnitude.toWord_lt {m : Magnitude} (hsignificand : m.significand < 2 ^ 53)
    (hleast : leastExponent ≤ m.exponent) (hgreatest : m.exponent ≤ greatestExponent) :
    m.toWord < 2047 * 2 ^ 52 := by
  have hpower : fractionModulus = 2 ^ 52 := rfl
  unfold leastExponent greatestExponent at *
  rw [toWord, hpower]
  split
  · rename_i hlarge
    exact absurd hgreatest (Int.not_le.mpr hlarge)
  · split <;> omega

theorem roundQuotient_le (num den : Nat) : roundQuotient num den ≤ num / den + 1 := by
  simp only [roundQuotient]
  split <;> omega

/-- A fraction that is not far above the greatest double is not rounded to infinity. -/
theorem toWord_nearest_lt {num den : Nat} (hnum : 0 < num) (hden : 0 < den)
    (h : (num / den : ℚ) < 2 ^ 1022) : (nearest num den).toWord < 2047 * 2 ^ 52 := by
  obtain ⟨e, hbinade, hnearest⟩ := nearest_eq_carried hnum hden
  have hexponent : e < 970 := by
    have hlt : (2 : ℚ) ^ (52 + e) < 2 ^ (1022 : Int) := by
      rw [zpow_add₀ two_ne_zero]
      exact hbinade.1.trans_lt h
    have := (zpow_lt_zpow_iff_right₀ one_lt_two).mp hlt
    omega
  have hquotient : (shifted num den (max e leastExponent)).1 /
      (shifted num den (max e leastExponent)).2 < 2 ^ 53 := by
    have hstep : (2 : ℚ) ^ e ≤ 2 ^ max e leastExponent :=
      zpow_le_zpow_right₀ one_le_two (le_max_left _ _)
    rw [shifted_lt_iff hden]
    push_cast
    nlinarith [hbinade.2]
  have hround := roundQuotient_le (shifted num den (max e leastExponent)).1
    (shifted num den (max e leastExponent)).2
  have hleast : leastExponent ≤ max e leastExponent := le_max_right _ _
  have hgreatest : max e leastExponent < greatestExponent := 
    max_lt (hexponent.trans (by decide)) (by decide)
  rw [hnearest, carried]
  split
  · exact Magnitude.toWord_lt (by norm_num) (hleast.trans (by simp)) hgreatest
  · exact Magnitude.toWord_lt (by simp only; omega) hleast hgreatest.le

theorem isFinite_nearest {n : Nat} (negative : Bool) (h : n ≤ 2 ^ 64) :
    (ofMagnitude negative (nearest n 1)).isFinite = true := by
  apply isFinite_ofMagnitude
  rcases Nat.eq_zero_or_pos n with rfl | hpos
  · decide
  · apply toWord_nearest_lt hpos Nat.one_pos
    calc ((n : ℚ) / (1 : Nat))
      _ = n := by simp
      _ ≤ 2 ^ 64 := by exact_mod_cast h
      _ < 2 ^ 1022 := pow_lt_pow_right₀ one_lt_two (by norm_num)

theorem isFinite_ofInt64 (i : Int64) : (ofInt64 i).isFinite = true := by
  have hlow := i.le_toInt
  have hhigh := i.toInt_lt
  exact isFinite_nearest _ (by omega)

end Double

end TradingRules
