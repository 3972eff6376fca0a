import TradingRules.Double.Whole
import TradingRules.Proofs.Double.Order

/-!
# Integers as doubles

Rounding keeps the order of integers but may join neighbours (`totalRank_ofInt64_mono`). What an integer
is rounded to is a whole number: it has nothing behind the point (`fractional_of_beq_ofInt64`), and it reads
back as the integer exactly if a double holds the integer, the greatest integer apart
(`toInt64_ofInt64_eq_iff`).
-/

namespace TradingRules.Double

open Magnitude (leastExponent greatestExponent roundQuotient shifted nearest)

variable {x y : Double} {m : Magnitude}

-- ---------------------------------------------------------------------------
-- Rounding integers
-- ---------------------------------------------------------------------------

theorem le_roundQuotient (num den : Nat) : num / den ≤ roundQuotient num den := by
  simp only [roundQuotient]
  split <;> omega

theorem roundQuotient_mono {k l den : Nat} (h : k ≤ l) : roundQuotient k den ≤ roundQuotient l den := by
  rcases Nat.lt_or_ge (k / den) (l / den) with hlt | hge
  · have hk := roundQuotient_le k den
    have hl := le_roundQuotient l den
    omega
  · have hquotient : k / den = l / den := Nat.le_antisymm (Nat.div_le_div_right h) hge
    have hrest : k % den ≤ l % den := by
      have hk := Nat.div_add_mod k den
      have hl := Nat.div_add_mod l den
      rw [hquotient] at hk
      omega
    simp only [roundQuotient, hquotient, Bool.or_eq_true, Bool.and_eq_true, decide_eq_true_eq, beq_iff_eq]
    split <;> split <;> omega

theorem roundQuotient_shifted_mono {k l : Nat} {e : Int} (h : k ≤ l) :
    roundQuotient (shifted k 1 e).1 (shifted k 1 e).2 ≤ roundQuotient (shifted l 1 e).1 (shifted l 1 e).2 := by
  unfold shifted
  split
  · exact roundQuotient_mono h
  · exact roundQuotient_mono (Nat.mul_le_mul_right _ h)

structure Rounded (n c : Nat) (e : Int) : Prop where
  binade : InBinade e n
  least_le : -52 ≤ e
  le_greatest : e ≤ 12
  steps : roundQuotient (shifted n 1 e).1 (shifted n 1 e).2 = c
  low : 2 ^ 52 ≤ c
  high : c ≤ 2 ^ 53
  nearest_eq : nearest n 1 = carried c e

theorem exists_rounded {n : Nat} (hpos : 0 < n) (hn : n ≤ 2 ^ 64) : ∃ c e, Rounded n c e := by
  obtain ⟨e, hbinade, hnearest⟩ := nearest_eq_carried hpos Nat.one_pos
  have hone : InBinade (-52) 1 := by
    constructor <;> norm_num [zpow_neg]
  have hquotient : (n : ℚ) / (1 : Nat) = n := by rw [Nat.cast_one, div_one]
  have hlow : -52 ≤ e := hone.le hbinade.2 (by rw [hquotient]; exact_mod_cast hpos)
  have hhigh : e ≤ 12 := by
    refine hbinade.le (w := 2 ^ 64) (by norm_num) ?_
    rw [hquotient]
    exact_mod_cast hn
  rw [max_eq_left (by unfold leastExponent; omega)] at hnearest
  have hfloor : 2 ^ 52 ≤ (shifted n 1 e).1 / (shifted n 1 e).2 := by
    rw [← Nat.not_lt, shifted_lt_iff Nat.one_pos]
    exact_mod_cast hbinade.1.not_gt
  have hceil : (shifted n 1 e).1 / (shifted n 1 e).2 < 2 ^ 53 := by
    rw [shifted_lt_iff Nat.one_pos]
    exact_mod_cast hbinade.2
  rw [hquotient] at hbinade
  exact ⟨_, e, hbinade, hlow, hhigh, rfl, hfloor.trans (le_roundQuotient _ _),
    (roundQuotient_le _ _).trans hceil, hnearest⟩

namespace Rounded

variable {k l c d : Nat} {e f : Int}

theorem toWord_eq (h : Rounded k c e) : (nearest k 1).toWord = (e + 1074).toNat * 2 ^ 52 + c := by
  have hleast : leastExponent ≤ e := le_trans (by decide) h.least_le
  have hgreatest : e < greatestExponent := h.le_greatest.trans_lt (by decide)
  have hlow := h.low
  rw [h.nearest_eq, carried]
  split
  · have hword : (Magnitude.mk (2 ^ 52) (e + 1)).toWord = (e + 1 + 1074).toNat * 2 ^ 52 + 2 ^ 52 :=
      toWord_of_le (by norm_num) (by simp only; omega) hgreatest (.inl (le_refl _))
    unfold leastExponent at hleast
    exact hword.trans (by omega)
  · exact toWord_of_le h.high hleast hgreatest.le (.inl hlow)

theorem toWord_le (hk : Rounded k c e) (hl : Rounded l d f) (h : k ≤ l) :
    (nearest k 1).toWord ≤ (nearest l 1).toWord := by
  have hle : e ≤ f := hk.binade.le hl.binade.2 (by exact_mod_cast h)
  have hleast := hk.least_le
  have hhigh := hk.high
  have hlow := hl.low
  rw [hk.toWord_eq, hl.toWord_eq]
  rcases hle.eq_or_lt with rfl | hlt
  · have hsteps : c ≤ d := by
      rw [← hk.steps, ← hl.steps]
      exact roundQuotient_shifted_mono h
    omega
  · omega

end Rounded

theorem toWord_nearest_mono {k l : Nat} (h : k ≤ l) (hl : l ≤ 2 ^ 64) :
    (nearest k 1).toWord ≤ (nearest l 1).toWord := by
  rcases Nat.eq_zero_or_pos k with rfl | hpos
  · have hzero : (nearest 0 1).toWord = 0 := by decide
    omega
  · obtain ⟨c, e, hk⟩ := exists_rounded hpos (h.trans hl)
    obtain ⟨d, f, hl⟩ := exists_rounded (hpos.trans_le h) hl
    exact hk.toWord_le hl h

theorem toWord_nearest_pos {n : Nat} (hpos : 0 < n) (hn : n ≤ 2 ^ 64) : 0 < (nearest n 1).toWord := by
  have hone : 0 < (nearest 1 1).toWord := by decide
  exact hone.trans_le (toWord_nearest_mono hpos hn)

section
variable (i : Int64)

theorem natAbs_toInt_le : i.toInt.natAbs ≤ 2 ^ 64 := by
  have hlow := i.le_toInt
  have hhigh := i.toInt_lt
  omega

theorem toWord_ofInt64_lt : (nearest i.toInt.natAbs 1).toWord < 2 ^ 63 := by
  have hmax : (nearest (2 ^ 64) 1).toWord < 2 ^ 63 := by decide
  exact (toWord_nearest_mono (natAbs_toInt_le i) (le_refl _)).trans_lt hmax

theorem toNat_ofInt64 : (ofInt64 i).bits.toNat =
    (nearest i.toInt.natAbs 1).toWord + if i.toInt < 0 then 2 ^ 63 else 0 := by
  have hlt := toWord_ofInt64_lt i
  have hsign : i < 0 ↔ i.toInt < 0 := Int64.lt_iff_toInt_lt
  have hpower : Decimal.twoTo 63 = 2 ^ 63 := rfl
  have hsize : UInt64.size = 2 ^ 64 := rfl
  simp only [ofInt64, ofMagnitude, hsign, decide_eq_true_eq, hpower]
  rw [UInt64.toNat_ofNat_of_lt']
  split <;> omega

theorem bits_ofInt64_ne : (ofInt64 i).bits ≠ signBit := by
  intro hbits
  have hvalue : signBit.toNat = 2 ^ 63 := rfl
  have hlt := toWord_ofInt64_lt i
  have hword := toNat_ofInt64 i
  rw [hbits, hvalue] at hword
  split at hword
  · have hpos := toWord_nearest_pos (n := i.toInt.natAbs) (by omega) (natAbs_toInt_le i)
    omega
  · omega

theorem place_ofInt64 : (ofInt64 i).place =
    if i.toInt < 0 then -((nearest i.toInt.natAbs 1).toWord : Int) else (nearest i.toInt.natAbs 1).toWord := by
  have hlt := toWord_ofInt64_lt i
  have hword := toNat_ofInt64 i
  rw [place_eq]
  split at hword <;> omega

end

theorem place_ofInt64_mono {i j : Int64} (h : i ≤ j) : (ofInt64 i).place ≤ (ofInt64 j).place := by
  have hle : i.toInt ≤ j.toInt := Int64.le_iff_toInt_le.mp h
  rw [place_ofInt64, place_ofInt64]
  rcases Int.lt_or_le j.toInt 0 with hneg | hnonneg
  · have hword := toWord_nearest_mono (show j.toInt.natAbs ≤ i.toInt.natAbs by omega) (natAbs_toInt_le i)
    omega
  · rcases Int.lt_or_le i.toInt 0 with hlow | hhigh
    · omega
    · have hword := toWord_nearest_mono (show i.toInt.natAbs ≤ j.toInt.natAbs by omega) (natAbs_toInt_le j)
      omega

theorem isNaN_ofInt64 (i : Int64) : (ofInt64 i).isNaN = false := by
  obtain ⟨m, hm⟩ := isFinite_iff.mp (isFinite_ofInt64 i)
  exact isNaN_of_magnitude? hm

theorem ofInt64_lt_iff (i j : Int64) : ofInt64 i < ofInt64 j ↔ (ofInt64 i).totalRank < (ofInt64 j).totalRank :=
  lt_iff_totalRank (isNaN_ofInt64 i) (isNaN_ofInt64 j) (bits_ofInt64_ne i) (bits_ofInt64_ne j)

theorem totalRank_ofInt64_mono {i j : Int64} (h : i ≤ j) :
    (ofInt64 i).totalRank ≤ (ofInt64 j).totalRank := by
  have hplace := place_ofInt64_mono h
  rw [totalRank_of_ne (bits_ofInt64_ne i), totalRank_of_ne (bits_ofInt64_ne j)]
  omega

-- ---------------------------------------------------------------------------
-- Whole parts
-- ---------------------------------------------------------------------------

theorem roundQuotient_one (n : Nat) : roundQuotient n 1 = n := by
  simp [roundQuotient, Nat.mod_one]

namespace Rounded

variable {n c : Nat} {e : Int}

theorem canonical (h : Rounded n c e) : (nearest n 1).Canonical := by
  have hlow := h.low
  have hhigh := h.high
  have hleast : leastExponent ≤ e := le_trans (by decide) h.least_le
  have hgreatest : e < greatestExponent := h.le_greatest.trans_lt (by decide)
  rw [h.nearest_eq, carried]
  split
  · exact ⟨by norm_num, by simp only; omega, hgreatest, .inl (le_refl _)⟩
  · exact ⟨by simp only; omega, hleast, hgreatest.le, .inl hlow⟩

theorem unit_dvd (h : Rounded n c e) : (nearest n 1).unit ∣ (nearest n 1).significand := by
  have hleast := h.least_le
  have hpower (k : Nat) : Decimal.twoTo k = 2 ^ k := rfl
  rw [h.nearest_eq, carried]
  split
  · exact Nat.pow_dvd_pow 2 (by simp only; omega)
  · simp only [Magnitude.unit, hpower]
    rcases Int.lt_or_le e 0 with hneg | hnonneg
    · rw [← h.steps, shifted, if_neg (Int.not_le.mpr hneg), roundQuotient_one]
      exact Nat.dvd_mul_left _ _
    · rw [show (-e).toNat = 0 by omega]
      exact Nat.one_dvd _

end Rounded

theorem truncate_of_dvd (hm : m.Canonical) (h : m.unit ∣ m.significand) : m.truncate = m := by
  have hpos : 0 < m.unit := Nat.pow_pos (by decide)
  rw [Magnitude.truncate]
  split
  · rename_i hlt
    have hzero : m.significand = 0 := Nat.eq_zero_of_dvd_of_lt h hlt
    have hexponent : m.exponent = leastExponent := hm.normal.resolve_left (by omega)
    rw [Magnitude.zero, ← hzero, ← hexponent]
  · rw [Nat.mod_eq_zero_of_dvd h, Nat.sub_zero]

theorem whole_of_dvd (h : m.unit ∣ m.significand) : (m.whole : ℚ) = m.significand * 2 ^ m.exponent := by
  have hpower (k : Nat) : Decimal.twoTo k = 2 ^ k := rfl
  obtain ⟨k, hk⟩ := h
  have hpos : 0 < m.unit := Nat.pow_pos (by decide)
  rw [Magnitude.whole, hk, Nat.mul_div_cancel_left _ hpos, Magnitude.unit, hpower, hpower]
  push_cast
  rw [mul_right_comm, ← zpow_natCast, ← zpow_natCast, ← zpow_add₀ two_ne_zero, mul_comm]
  congr 2
  omega

theorem fractional_of_dvd (hm : x.magnitude? = some m) (h : m.unit ∣ m.significand) : x.fractional = x - x := by
  have hwhole : x.truncate = x := by
    simp only [truncate, hm]
    rw [truncate_of_dvd (canonical_of_magnitude? hm) h, ofMagnitude_magnitude? hm]
  rw [fractional, hwhole]

theorem magnitude?_ofInt64 (i : Int64) : ∃ m, (ofInt64 i).magnitude? = some m ∧ m.unit ∣ m.significand := by
  by_cases hzero : i.toInt = 0
  · obtain rfl : i = 0 := Int64.toInt_inj.mp hzero
    exact ⟨⟨0, leastExponent⟩, rfl, Nat.dvd_zero _⟩
  · obtain ⟨c, e, h⟩ := exists_rounded (n := i.toInt.natAbs) (by omega) (natAbs_toInt_le i)
    exact ⟨_, magnitude?_ofMagnitude h.canonical _, h.unit_dvd⟩

theorem exactly_ofInt64 (i : Int64) : (ofInt64 i).Exactly (ofInt64 i).toRat :=
  ⟨isFinite_ofInt64 i, rfl, bits_ofInt64_ne i⟩

theorem fractional_ofInt64 (i : Int64) : (ofInt64 i).fractional = 0 := by
  obtain ⟨m, hm, hunit⟩ := magnitude?_ofInt64 i
  rw [fractional_of_dvd hm hunit]
  exact (exactly_ofInt64 i).sub (isFinite_ofInt64 i) (by rw [sub_self]; exact exactly_zero)

theorem fractional_of_beq_ofInt64 {i : Int64} (h : (ofInt64 i == x) = true) : (x.fractional == 0) = true := by
  rcases eq_or_zeros_of_beq h with rfl | ⟨-, hbits | hbits⟩
  · rw [fractional_ofInt64]
    decide
  · obtain rfl : x = ⟨0⟩ := congrArg Double.mk hbits
    rw [fractional_of_dvd (m := ⟨0, leastExponent⟩) rfl (Nat.dvd_zero _)]
    decide
  · obtain rfl : x = ⟨signBit⟩ := congrArg Double.mk hbits
    rw [fractional_of_dvd (m := ⟨0, leastExponent⟩) rfl (Nat.dvd_zero _)]
    decide

-- ---------------------------------------------------------------------------
-- Reading back
-- ---------------------------------------------------------------------------

/-- The whole part of what an integer is rounded to is its value. -/
theorem toInt64_ofInt64 (i : Int64) :
    ∃ k : Int, (ofInt64 i).toRat = k ∧ (ofInt64 i).toInt64 = .ofIntClamp k := by
  obtain ⟨m, hm, hunit⟩ := magnitude?_ofInt64 i
  refine ⟨if (ofInt64 i).isNegative then -m.whole else m.whole, ?_, by simp only [toInt64, hm]⟩
  rw [toRat, hm]
  simp only [← whole_of_dvd hunit]
  split <;> push_cast <;> ring

theorem nearest_of_value {n : Nat} (hm : m.Canonical) (hpos : 0 < m.significand) (hn : 0 < n)
    (h : (n : ℚ) = m.significand * 2 ^ m.exponent) : nearest n 1 = m := by
  have hstep : (0 : ℚ) < 2 ^ m.exponent := by positivity
  have hgap : (1 : ℚ) ≤ if m.Narrow then 1 else 2 := by split <;> norm_num
  refine nearest_of_contains hm hpos hn Nat.one_pos (.of_lt ?_ ?_)
  · rw [low_around hpos, step_around, Nat.cast_one, div_one, h]
    nlinarith
  · rw [high_around, step_around, Nat.cast_one, div_one, h]
    nlinarith

section
variable {i : Int64}

theorem Exactly.natAbs_eq (h : x.Exactly i.toInt) (hm : x.magnitude? = some m) :
    (i.toInt.natAbs : ℚ) = m.significand * 2 ^ m.exponent := by
  have hmagnitude : (0 : ℚ) ≤ m.significand * 2 ^ m.exponent := by positivity
  rw [Nat.cast_natAbs, Int.cast_abs, ← h.toRat_eq, toRat, hm, abs_mul, abs_of_nonneg hmagnitude]
  split <;> simp

theorem Exactly.isNegative_eq (h : x.Exactly i.toInt) (hm : x.magnitude? = some m)
    (hpos : 0 < m.significand) : x.isNegative = decide (i < 0) := by
  have hmagnitude : (0 : ℚ) < m.significand * 2 ^ m.exponent := by positivity
  have hcast : i < 0 ↔ (i.toInt : ℚ) < 0 := Int64.lt_iff_toInt_lt.trans Int.cast_lt_zero.symm
  rw [Bool.eq_iff_iff, decide_eq_true_iff, hcast, ← h.toRat_eq, toRat, hm]
  dsimp only
  split
  · exact iff_of_true ‹_› (by linarith)
  · exact iff_of_false ‹_› (by linarith)

/-- A double that holds an integer is what the integer is rounded to. -/
theorem ofInt64_of_exactly (h : x.Exactly i.toInt) : ofInt64 i = x := by
  obtain ⟨m, hm⟩ := isFinite_iff.mp h.isFinite
  by_cases hzero : i.toInt = 0
  · obtain rfl : i = 0 := Int64.toInt_inj.mp hzero
    exact exactly_zero.unique (by simpa using h)
  · have hne : m.significand ≠ 0 := by
      rw [ne_eq, ← toRat_eq_zero_iff hm, h.toRat_eq]
      exact_mod_cast hzero
    have hpos : 0 < m.significand := Nat.pos_of_ne_zero hne
    rw [ofInt64, nearest_of_value (canonical_of_magnitude? hm) hpos (by omega) (h.natAbs_eq hm),
      ← h.isNegative_eq hm hpos, ofMagnitude_magnitude? hm]

end

theorem toRat_ofInt64_eq_iff (i : Int64) :
    (ofInt64 i).toRat = i.toInt ↔ Representable i.toInt := by
  constructor
  · exact fun h => ⟨_, h ▸ exactly_ofInt64 i⟩
  · rintro ⟨x, hx⟩
    rw [ofInt64_of_exactly hx, hx.toRat_eq]

theorem toInt64_ofInt64_maxValue : (ofInt64 .maxValue).toInt64 = .maxValue := by decide

theorem toRat_ofInt64_minValue : (ofInt64 .minValue).toRat = Int64.minValue.toInt := by
  have hsign : (ofInt64 .minValue).sign = .negative := rfl
  have hvalue : Int64.minValue.toInt = -2 ^ 63 := rfl
  rw [toRat_of_magnitude? (m := ⟨2 ^ 52, 11⟩) rfl, hsign, hvalue, Float.Model.UnpackedFloat.Sign.apply]
  norm_num

/-- Clamping answers the integer, or an end of the range for one that is past it. -/
theorem of_ofIntClamp_eq {k : Int} {i : Int64} (h : Int64.ofIntClamp k = i) :
    k = i.toInt ∨ i = .minValue ∨ i = .maxValue := by
  subst h
  by_cases hlow : Int64.minValue.toInt ≤ k
  · by_cases hhigh : k ≤ Int64.maxValue.toInt
    · exact .inl (Int64.toInt_ofIntClamp hlow hhigh).symm
    · rw [Int64.ofIntClamp, dif_pos hlow, dif_neg hhigh]
      exact .inr (.inr rfl)
  · rw [Int64.ofIntClamp, dif_neg hlow]
    exact .inr (.inl rfl)

/-- An integer reads back if a double holds it; the greatest one is also the nearest to a greater double. -/
theorem toInt64_ofInt64_eq_iff (i : Int64) :
    (ofInt64 i).toInt64 = i ↔ Representable i.toInt ∨ i = .maxValue := by
  rw [← toRat_ofInt64_eq_iff]
  obtain ⟨k, hvalue, hback⟩ := toInt64_ofInt64 i
  constructor
  · intro hsame
    rcases of_ofIntClamp_eq (hback.symm.trans hsame) with hk | rfl | rfl
    · exact .inl (hk ▸ hvalue)
    · exact .inl toRat_ofInt64_minValue
    · exact .inr rfl
  · rintro (hexact | rfl)
    · have hk : k = i.toInt := by
        rw [hvalue] at hexact
        exact_mod_cast hexact
      rw [hback, hk, Int64.ofIntClamp_toInt]
    · exact toInt64_ofInt64_maxValue

theorem toInt64_of_zero (h : x.bits = 0 ∨ x.bits = signBit) : x.toInt64 = 0 := by
  obtain rfl | rfl : x = ⟨0⟩ ∨ x = ⟨signBit⟩ := h.imp (congrArg Double.mk) (congrArg Double.mk)
  · decide +kernel
  · decide +kernel

theorem toInt64_congr (h : (x == y) = true) : x.toInt64 = y.toInt64 := by
  rcases eq_or_zeros_of_beq h with rfl | ⟨hx, hy⟩
  · rfl
  · rw [toInt64_of_zero hx, toInt64_of_zero hy]

def IsInteger (x : Double) : Prop := (ofInt64 x.toInt64 == x) = true

instance (x : Double) : Decidable x.IsInteger := inferInstanceAs (Decidable (_ = true))

theorem isInteger_of_zero (h : x.bits = 0 ∨ x.bits = signBit) : x.IsInteger := by
  rw [IsInteger, toInt64_of_zero h]
  obtain rfl | rfl : x = ⟨0⟩ ∨ x = ⟨signBit⟩ := h.imp (congrArg Double.mk) (congrArg Double.mk)
  · decide
  · decide

end TradingRules.Double
