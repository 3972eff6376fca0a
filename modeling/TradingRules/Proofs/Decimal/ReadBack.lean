import TradingRules.Proofs.Decimal.Digits
import TradingRules.Proofs.Decimal.Shortest

/-!
# Numbers read back

The text of a finite double is its sign and a numeral. A numeral with a point is read as the double
without its sign (`readDouble?_numeral`); one without a point is a run of digits.
-/

namespace TradingRules.Decimal

open Text (isAsciiDigit)
open Double (Magnitude ofMagnitude)

-- ---------------------------------------------------------------------------
-- Decimals in the interval of a double
-- ---------------------------------------------------------------------------

section
variable {m : Magnitude} {digits : Nat} {exponent : Int} {negative : Bool}

/-- A decimal in the interval of a double with a significand, of which few places are behind the
point. -/
structure InRange (m : Magnitude) (digits : Nat) (exponent : Int) : Prop where
  canonical : m.Canonical
  significand_pos : 0 < m.significand
  digits_pos : 0 < digits
  contains : (Interval.around m).Contains (digits * 10 ^ exponent)
  le_exponent : -342 ≤ exponent

theorem InRange.lt (h : InRange m digits exponent) : (digits * 10 ^ exponent : ℚ) < 2 ^ (1024 : Int) := by
  have hgreatest := h.canonical.le_greatest
  simp only [Magnitude.greatestExponent] at hgreatest
  calc (digits * 10 ^ exponent : ℚ)
    _ < 2 ^ 53 * 2 ^ m.exponent := Double.lt_of_contains h.canonical h.significand_pos h.contains
    _ ≤ 2 ^ 53 * 2 ^ (971 : Int) :=
      mul_le_mul_of_nonneg_left (zpow_le_zpow_right₀ one_le_two hgreatest) (by positivity)
    _ = 2 ^ (1024 : Int) := by rw [← zpow_natCast, ← zpow_add₀ two_ne_zero]; rfl

theorem InRange.ge (h : InRange m digits exponent) : (2 : ℚ) ^ (-1075 : Int) ≤ digits * 10 ^ exponent := by
  have hleast := h.canonical.least_le
  simp only [Magnitude.leastExponent] at hleast
  have hone : (1 : ℚ) ≤ m.significand := by exact_mod_cast h.significand_pos
  calc (2 : ℚ) ^ (-1075 : Int)
    _ = 2 ^ (-1074 : Int) / 2 := by rw [div_eq_mul_inv, ← zpow_sub_one₀ two_ne_zero]; rfl
    _ ≤ 2 ^ m.exponent / 2 := div_le_div_of_nonneg_right (zpow_le_zpow_right₀ one_le_two hleast) zero_le_two
    _ ≤ (m.significand - 1 / 2) * 2 ^ m.exponent := by
      have hstep : (0 : ℚ) < 2 ^ m.exponent := by positivity
      nlinarith
    _ ≤ digits * 10 ^ exponent := (Double.nearest_of_around h.significand_pos h.contains).low

theorem InRange.log2_le (h : InRange m digits exponent) : digits.log2 ≤ 100000 := by
  have hdigits : (digits : ℚ) < 2 ^ 1024 * 10 ^ 342 := by
    have hpower : (1 : ℚ) ≤ 10 ^ exponent * 10 ^ 342 := by
      rw [← zpow_natCast, ← zpow_add₀ (by norm_num)]
      exact one_le_zpow₀ (by norm_num) (by have := h.le_exponent; push_cast; omega)
    calc (digits : ℚ)
      _ ≤ digits * (10 ^ exponent * 10 ^ 342) := le_mul_of_one_le_right (by positivity) hpower
      _ = digits * 10 ^ exponent * 10 ^ 342 := by rw [mul_assoc]
      _ < 2 ^ 1024 * 10 ^ 342 := mul_lt_mul_of_pos_right (by exact_mod_cast h.lt) (by positivity)
  have hlt : digits < 2 ^ 1024 * 10 ^ 342 := by exact_mod_cast hdigits
  have hbound : 2 ^ 1024 * 10 ^ 342 ≤ 2 ^ 100000 := by decide +kernel
  exact ((Nat.log2_lt h.digits_pos.ne').mpr (hlt.trans_le hbound)).le

/-- The estimate of the decimal magnitude is far inside the limits that are answered without the
power. -/
theorem InRange.estimate (h : InRange m digits exponent) :
    -400 ≤ (digits.log2 : Int) * 30103 / 100000 + exponent ∧
      (digits.log2 : Int) * 30103 / 100000 + exponent ≤ 400 := by
  obtain ⟨hlogLow, hlogHigh⟩ := Double.log2_bounds h.digits_pos
  have hten : (10 : ℚ) ≠ 0 := by norm_num
  have hstep : (0 : ℚ) < 10 ^ exponent := by positivity
  let places : Int := (digits.log2 : Int) * 30103 / 100000
  constructor
  · have hplaces : (2 : ℚ) ^ (digits.log2 : Int) ≤ 10 ^ (places + 1) := two_zpow_le (by omega)
    have hlt : (10 : ℚ) ^ (-400 : Int) < 10 ^ (places + 1 + exponent) :=
      calc (10 : ℚ) ^ (-400 : Int)
        _ ≤ 2 ^ (-1076 : Int) := by
          rw [zpow_neg, zpow_neg]
          exact inv_anti₀ (by positivity) (by exact_mod_cast (by decide +kernel : 2 ^ 1076 ≤ 10 ^ 400))
        _ = 2 ^ (-1075 : Int) / 2 := by rw [div_eq_mul_inv, ← zpow_sub_one₀ two_ne_zero]; rfl
        _ ≤ digits * 10 ^ exponent / 2 := div_le_div_of_nonneg_right h.ge zero_le_two
        _ < 10 ^ (places + 1) * 10 ^ exponent := by
          rw [zpow_add_one₀ two_ne_zero] at hlogHigh
          nlinarith
        _ = 10 ^ (places + 1 + exponent) := (zpow_add₀ hten _ _).symm
    have := (zpow_lt_zpow_iff_right₀ (by norm_num)).mp hlt
    omega
  · have hplaces : (10 : ℚ) ^ places ≤ 2 * 2 ^ (digits.log2 : Int) :=
      ten_zpow_le (by omega) (by exact_mod_cast h.log2_le)
    have hlt : (10 : ℚ) ^ (places + exponent) < 10 ^ (401 : Int) :=
      calc (10 : ℚ) ^ (places + exponent)
        _ = 10 ^ places * 10 ^ exponent := zpow_add₀ hten _ _
        _ ≤ 2 * (digits * 10 ^ exponent) := by nlinarith
        _ < 2 * 2 ^ (1024 : Int) := mul_lt_mul_of_pos_left h.lt zero_lt_two
        _ ≤ 10 ^ (401 : Int) := by exact_mod_cast (by decide +kernel : 2 * 2 ^ 1024 ≤ 10 ^ 401)
    have := (zpow_lt_zpow_iff_right₀ (by norm_num)).mp hlt
    omega

/-- A decimal in the interval of a double is read as the double. -/
theorem toDouble_of_inRange (negative : Bool) (h : InRange m digits exponent) :
    toDouble negative digits exponent = ofMagnitude negative m := by
  obtain ⟨hlow, hhigh⟩ := h.estimate
  have hnear : ∀ num den : Nat, 0 < num → 0 < den → (num / den : ℚ) = digits * 10 ^ exponent →
      Magnitude.nearest num den = m := by
    intro num den hnum hden hvalue
    exact Double.nearest_of_contains h.canonical h.significand_pos hnum hden (hvalue ▸ h.contains)
  have hdigits := h.digits_pos
  unfold toDouble
  rw [if_neg (by omega), if_neg (by omega)]
  have hpower : ∀ n, 0 < tenTo n := fun n => Nat.pow_pos (by decide)
  split
  · rename_i hexponent
    obtain ⟨n, rfl⟩ := Int.eq_ofNat_of_zero_le hexponent
    refine congrArg (ofMagnitude negative) (hnear _ _ (Nat.mul_pos hdigits (hpower _)) Nat.one_pos ?_)
    simp
  · rename_i hexponent
    obtain ⟨n, rfl⟩ := Int.exists_eq_neg_ofNat (by omega : exponent ≤ 0)
    refine congrArg (ofMagnitude negative) (hnear _ _ hdigits (hpower _) ?_)
    simp [div_eq_mul_inv]

theorem toDouble_zero (negative : Bool) (exponent : Int) :
    toDouble negative 0 exponent = ofMagnitude negative .zero := by
  simp [toDouble]

theorem eq_zero_of_canonical (hm : m.Canonical) (h : m.significand = 0) : m = .zero := by
  have hnormal := hm.normal
  obtain ⟨significand, exponent⟩ := m
  simp only at h hnormal
  subst h
  simpa [Magnitude.zero] using hnormal

theorem toDouble_of_value (tie : Tie) (negative : Bool) (hm : m.Canonical)
    (hvalue : (digits * 10 ^ exponent : ℚ) = (shortest tie m).value) (hexponent : -341 ≤ exponent) :
    toDouble negative digits exponent = ofMagnitude negative m := by
  have hstep : (0 : ℚ) < 10 ^ exponent := by positivity
  by_cases hzero : m.significand = 0
  · have hvalueZero : (shortest tie m).value = 0 := by simp [shortest, hzero, Scaled.value]
    have hdigits : digits = 0 := by
      rw [hvalueZero] at hvalue
      exact_mod_cast (mul_eq_zero.mp hvalue).resolve_right hstep.ne'
    rw [hdigits, toDouble_zero, eq_zero_of_canonical hm hzero]
  · have hpos := Nat.pos_of_ne_zero hzero
    obtain ⟨hshortest, hcontains, -⟩ := shortest_spec tie hm hpos
    have hvaluePos : (0 : ℚ) < (shortest tie m).value := by
      unfold Scaled.value
      positivity
    have hdigits : 0 < digits := by
      rw [← hvalue] at hvaluePos
      exact_mod_cast (mul_pos_iff_of_pos_right hstep).mp hvaluePos
    exact toDouble_of_inRange negative ⟨hm, hpos, hdigits, hvalue ▸ hcontains, by omega⟩

theorem neg_exponent_le (tie : Tie) (hm : m.Canonical) : -(shortest tie m).exponent ≤ 341 := by
  by_cases hzero : m.significand = 0
  · simp [shortest, hzero]
  · have := (shortest_spec tie hm (Nat.pos_of_ne_zero hzero)).2.2
    omega

end

-- ---------------------------------------------------------------------------
-- The text of a double
-- ---------------------------------------------------------------------------

section
variable {x : Double} {m : Magnitude} {whole fraction : List Char}

def numeral (x : Double) : String :=
  match x.magnitude? with
  | none => if x.isNaN then "NaN" else "inf"
  | some m =>
    let s := shortest .up m
    if 0 ≤ s.exponent ∧ x.abs < 1e15 then s.positional ++ ".0" else s.positional

def isSigned (x : Double) : Bool := x.isNegative && !x.isNaN

theorem isSigned_of_magnitude? (h : x.magnitude? = some m) : isSigned x = x.isNegative := by
  simp [isSigned, Double.isNaN_of_magnitude? h]

theorem text_eq (x : Double) : text x = (if isSigned x then "-" else "") ++ numeral x := by
  cases hm : x.magnitude? with
  | none => cases hnan : x.isNaN <;> simp [text, numeral, isSigned, hm, hnan, special, signOf]
  | some m =>
    simp only [text, numeral, isSigned_of_magnitude? hm, hm, signOf]
    split <;> simp [String.append_assoc]

/-- What is written of a finite double: digits around a point, or digits alone. -/
theorem numeral_shape (h : x.magnitude? = some m) :
    (∃ whole fraction, (numeral x).toList = whole ++ '.' :: fraction ∧ Digits whole ∧ Digits fraction ∧
      (fraction.length : Int) ≤ max 1 (-(shortest .up m).exponent) ∧
      (digitsValue 0 (whole ++ fraction) : ℚ) * 10 ^ (-(fraction.length : Int)) = (shortest .up m).value) ∨
    Digits (numeral x).toList := by
  unfold numeral
  simp only [h]
  rcases Int.lt_or_le (shortest .up m).exponent 0 with hneg | hnonneg
  · obtain ⟨whole, fraction, htext, hwhole, hfraction, hvalue, hlength⟩ := positional_of_neg hneg
    rw [if_neg (by omega)]
    refine .inl ⟨whole, fraction, htext, hwhole.toDigits, hfraction, by omega, ?_⟩
    rw [hvalue, hlength, Int.neg_neg, Scaled.value]
  · split
    · refine .inl ⟨_, ['0'], String.toList_append, digits_positional hnonneg, .zero, by simp, ?_⟩
      have hzero : ∀ n, digitsValue n ['0'] = 10 * n := fun n => rfl
      obtain ⟨n, hn⟩ := Int.eq_ofNat_of_zero_le hnonneg
      rw [digitsValue_append, digitsValue_positional hnonneg, hzero, Scaled.value, hn]
      push_cast
      simp only [Int.toNat_natCast, List.length_singleton, zpow_natCast]
      ring
    · exact .inr (digits_positional hnonneg)

theorem named?_of_point {text : List Char} (h : '.' ∈ text) : named? text = none := by
  have hmem : '.' ∈ text.map Char.toLower := List.mem_map.mpr ⟨'.', h, rfl⟩
  unfold named?
  generalize text.map Char.toLower = lower at hmem
  split <;> simp_all

theorem readDouble?_pointed (hwhole : Digits whole) (hfraction : Digits fraction) :
    readDouble? (whole ++ '.' :: fraction) =
      some (toDouble false (digitsValue 0 (whole ++ fraction)) (-(fraction.length : Int))) := by
  have hnamed : named? (whole ++ '.' :: fraction) = none := named?_of_point (by simp)
  simp [readDouble?, splitSign_digits hwhole, hnamed, readUnsigned?_pointed hwhole hfraction]

theorem readDouble?_numeral (h : x.magnitude? = some m) (hpoint : '.' ∈ (numeral x).toList) :
    readDouble? (numeral x).toList = some (ofMagnitude false m) := by
  have hm := Double.canonical_of_magnitude? h
  rcases numeral_shape h with ⟨whole, fraction, htext, hwhole, hfraction, hlength, hvalue⟩ | hdigits
  · have hexponent := neg_exponent_le .up hm
    rw [htext, readDouble?_pointed hwhole hfraction,
      toDouble_of_value .up false hm hvalue (by omega)]
  · cases hdigits.isDigit _ hpoint

end

end TradingRules.Decimal
