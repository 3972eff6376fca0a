import TradingRules.Proofs.Double.Nearest
import TradingRules.Proofs.Double.Operations

/-!
# Exact sums

The value of a finite double is a fraction (`toRat`). If a double can hold the exact sum or difference of two
others then it is their sum or difference: nothing is rounded (`Exactly.add`, `Exactly.sub`). Doubles can hold
the multiples of a power of two up to 53 bits (`representable_of_steps`).
-/

namespace TradingRules.Double

open Float.Model (UnpackedFloat Format totalExponent)
open Float.Model.UnpackedFloat
open Magnitude (leastExponent greatestExponent)

variable {x y z : Double} {m : Magnitude}

-- ---------------------------------------------------------------------------
-- Unpacking
-- ---------------------------------------------------------------------------

def sign (x : Double) : Sign := if x.isNegative then .negative else .positive

theorem ofBitVec_unpackSign (x : Double) : Sign.ofBitVec (unpackSign x.word) = x.sign := by
  have hvalue : (unpackSign x.word).toNat = x.bits.toNat / 2 ^ 63 % 2 ^ 1 := by
    rw [← Nat.shiftRight_eq_div_pow]
    rfl
  have hlt : x.bits.toNat < 2 ^ 64 := x.bits.toNat_lt
  have hzero : unpackSign x.word = 0#1 ↔ ¬x.isNegative = true := by
    rw [isNegative_iff, ← BitVec.toNat_inj, hvalue]
    simp only [BitVec.toNat_ofNat]
    omega
  unfold Sign.ofBitVec sign
  by_cases hsign : x.isNegative = true
  · rw [if_pos hsign, if_neg (by simpa [hzero] using hsign)]
  · rw [if_neg hsign, if_pos (hzero.mpr hsign)]

theorem finite_congr {s : Sign} {m m' : Nat} {e e' : Int} (hm : m = m') (he : e = e') (hpos : 0 < m)
    (hpos' : 0 < m') : UnpackedFloat.finite s m e hpos = .finite s m' e' hpos' := by
  subst hm he
  rfl

theorem unpack_word (h : x.magnitude? = some m) : unpack Format.binary64 x.word =
    if hzero : m.significand = 0 then .zero x.sign
    else .finite x.sign m.significand m.exponent (Nat.pos_of_ne_zero hzero) := by
  have hne := unpackExponent_ne h
  obtain ⟨biased, fraction, hbiased, hfraction, hword, rfl⟩ := magnitude?_eq_some h
  have hexponent : (unpackExponent x.word).toNat = biased := by
    have hvalue : (unpackExponent x.word).toNat = x.bits.toNat / 2 ^ 52 % 2 ^ 11 := by
      rw [← Nat.shiftRight_eq_div_pow]
      rfl
    omega
  have hmantissa : (unpackMantissa x.word).toNat = fraction := by
    have hvalue : (unpackMantissa x.word).toNat = x.bits.toNat % 2 ^ 52 := rfl
    omega
  have hexponentZero : unpackExponent x.word = 0#_ ↔ biased = 0 := by
    rw [← hexponent, ← BitVec.toNat_inj]
    rfl
  have hmantissaZero : unpackMantissa x.word = 0#_ ↔ fraction = 0 := by
    rw [← hmantissa, ← BitVec.toNat_inj]
    rfl
  have hbias : (Format.binary64.exponentBias : Int) = 1023 := rfl
  unfold unpack
  simp only [if_neg hne, ofBitVec_unpackSign, hexponent, hexponentZero, hmantissaZero, hmantissa, hbias]
  by_cases hsmall : biased = 0
  · simp only [if_pos hsmall]
    by_cases hzero : fraction = 0
    · simp [hzero]
    · simp only [dif_neg hzero]
      exact finite_congr rfl (by unfold leastExponent; omega) _ _
  · have hlarge : (1#1 ++ unpackMantissa x.word).toNat = 2 ^ 52 + fraction := by
      rw [BitVec.toNat_append, hmantissa]
      exact (Nat.shiftLeft_add_eq_or_of_lt hfraction 1).symm
    simp only [if_neg hsmall]
    rw [dif_neg (by simp)]
    exact finite_congr hlarge (by omega) _ _

-- ---------------------------------------------------------------------------
-- Normal forms
-- ---------------------------------------------------------------------------

theorem shiftRight_of_zeros (m k : Nat) :
    (ExtendedMantissa.mk (m * 2 ^ k) false false) >>> k = ExtendedMantissa.mk m false false := by
  induction k generalizing m with
  | zero => rw [pow_zero, Nat.mul_one]; rfl
  | succ k ih =>
    have hstep : (ExtendedMantissa.mk (m * 2 ^ (k + 1)) false false) >>> (k + 1) =
        ((ExtendedMantissa.mk (m * 2 * 2 ^ k) false false) >>> k).shiftRightOne := by
      rw [pow_succ', Nat.mul_assoc]
      rfl
    rw [hstep, ih]
    simp [ExtendedMantissa.shiftRightOne]

theorem log2_mul_two_pow {n : Nat} (h : 0 < n) (k : Nat) : (n * 2 ^ k).log2 = n.log2 + k := by
  induction k with
  | zero => simp
  | succ k ih =>
    have hne : n * 2 ^ k ≠ 0 := (Nat.mul_pos h (Nat.two_pow_pos k)).ne'
    rw [pow_succ', Nat.mul_left_comm, Nat.log2_two_mul hne, ih, Nat.add_assoc]

theorem totalExponent_mul_two_pow {n : Nat} (h : 0 < n) (k : Nat) (e : Int) :
    totalExponent (n * 2 ^ k) e = totalExponent n (e + k) := by
  rw [totalExponent, totalExponent, log2_mul_two_pow h]
  omega

theorem targetExponent_of_canonical (hm : m.Canonical) (hpos : 0 < m.significand) :
    Format.binary64.targetExponent (totalExponent m.significand m.exponent) = m.exponent := by
  have hleast := hm.least_le
  have hlog : m.significand.log2 ≤ 52 := Nat.lt_succ_iff.mp ((Nat.log2_lt hpos.ne').mpr hm.significand_lt)
  have hbits : (Format.binary64.mantissaBits : Int) = 53 := rfl
  have hmin : Format.binary64.minExponent = leastExponent := rfl
  rw [Format.targetExponent, totalExponent, hbits, hmin]
  rcases hm.normal with hnormal | hexponent
  · have hge : 52 ≤ m.significand.log2 := (Nat.le_log2 hpos.ne').mpr hnormal
    omega
  · omega

theorem shiftToTargetExponent_of_canonical (hm : m.Canonical) (hpos : 0 < m.significand) (k : Nat) :
    shiftToTargetExponent Format.binary64 (m.significand * 2 ^ k) (m.exponent - k) .exact =
      (ExtendedMantissa.mk m.significand false false, m.exponent) := by
  have htotal : totalExponent (m.significand * 2 ^ k) (m.exponent - k) =
      totalExponent m.significand m.exponent := by
    rw [totalExponent_mul_two_pow hpos, Int.sub_add_cancel]
  have hamount : (m.exponent - (m.exponent - k)).toNat = k := by omega
  simp only [shiftToTargetExponent, htotal, targetExponent_of_canonical hm hpos, shiftToExponent, hamount,
    ExtendedMantissa.ofMantissaAndAccuracy, shiftRight_of_zeros, Int.sub_add_cancel]

theorem roundWithAccuracy_of_canonical (hm : m.Canonical) (hpos : 0 < m.significand) (s : Sign) (k : Nat) :
    roundWithAccuracy Format.binary64 s (m.significand * 2 ^ k) (m.exponent - k) .exact =
      .finite s m.significand m.exponent hpos := by
  have hagain := shiftToTargetExponent_of_canonical hm hpos 0
  simp only [pow_zero, Nat.mul_one, Nat.cast_zero, Int.sub_zero] at hagain
  have hrounded : (ExtendedMantissa.mk m.significand false false).roundedMantissa = m.significand := rfl
  simp only [roundWithAccuracy, shiftToTargetExponent_of_canonical hm hpos, hrounded, hagain]
  rw [dif_neg hpos.ne']

theorem eq_mul_two_pow {n n' k : Nat} {e : Int} (h : (n : ℚ) * 2 ^ e = n' * 2 ^ (e + k)) :
    n = n' * 2 ^ k := by
  have hstep : (2 : ℚ) ^ e ≠ 0 := by positivity
  have hq : (n : ℚ) = n' * 2 ^ k := by
    apply mul_right_cancel₀ hstep
    rw [h, zpow_add₀ two_ne_zero, zpow_natCast]
    ring
  exact_mod_cast hq

/-- A number that a double can hold is not changed by rounding, however it is written. -/
theorem round_of_canonical (hm : m.Canonical) (hpos : 0 < m.significand) (s : Sign) {n : Nat} {e : Int}
    (h : (n : ℚ) * 2 ^ e = m.significand * 2 ^ m.exponent) :
    UnpackedFloat.round Format.binary64 s n e = .finite s m.significand m.exponent hpos := by
  rcases le_total e m.exponent with hle | hle
  · obtain ⟨k, hk⟩ := Int.eq_ofNat_of_zero_le (Int.sub_nonneg.mpr hle)
    obtain rfl : e = m.exponent - k := by omega
    obtain rfl : n = m.significand * 2 ^ k := eq_mul_two_pow (by rwa [Int.sub_add_cancel])
    have htotal : totalExponent (m.significand * 2 ^ k) (m.exponent - k) =
        totalExponent m.significand m.exponent := by
      rw [totalExponent_mul_two_pow hpos, Int.sub_add_cancel]
    have hamount : (m.exponent - k - m.exponent).toNat = 0 := by omega
    simp only [UnpackedFloat.round, htotal, targetExponent_of_canonical hm hpos, decreaseExponent, hamount,
      Nat.shiftLeft_zero, Nat.cast_zero, Int.sub_zero]
    exact roundWithAccuracy_of_canonical hm hpos s k
  · obtain ⟨k, hk⟩ := Int.eq_ofNat_of_zero_le (Int.sub_nonneg.mpr hle)
    obtain rfl : e = m.exponent + k := by omega
    have hn : m.significand = n * 2 ^ k := eq_mul_two_pow h.symm
    have hnpos : 0 < n := Nat.pos_of_mul_pos_right (hn ▸ hpos)
    have htotal : totalExponent n (m.exponent + k) = totalExponent m.significand m.exponent := by
      rw [hn, totalExponent_mul_two_pow hnpos]
    have hamount : (m.exponent + k - m.exponent).toNat = k := by omega
    have hsame := roundWithAccuracy_of_canonical hm hpos s 0
    simp only [pow_zero, Nat.mul_one, Nat.cast_zero, Int.sub_zero] at hsame
    simp only [UnpackedFloat.round, htotal, targetExponent_of_canonical hm hpos, decreaseExponent, hamount,
      Nat.shiftLeft_eq, ← hn, Int.add_sub_cancel, hsame]

-- ---------------------------------------------------------------------------
-- Values
-- ---------------------------------------------------------------------------

/-- The value of a finite double as a fraction, and zero for the others. -/
def toRat (x : Double) : ℚ :=
  match x.magnitude? with
  | none => 0
  | some m => (if x.isNegative then -1 else 1) * (m.significand * 2 ^ m.exponent)

/-- A finite double with a value and, among the two zeros, the positive one. -/
structure Exactly (x : Double) (q : ℚ) : Prop where
  isFinite : x.isFinite = true
  toRat_eq : x.toRat = q
  bits_ne : x.bits ≠ signBit

def Representable (q : ℚ) : Prop := ∃ x : Double, x.Exactly q

variable {p q : ℚ} {k e : Int}

theorem toRat_of_magnitude? (h : x.magnitude? = some m) :
    x.toRat = x.sign.apply m.significand * 2 ^ m.exponent := by
  rw [toRat, h, sign]
  by_cases hsign : x.isNegative = true
  · simp [hsign, Sign.apply]
  · simp [hsign, Sign.apply]

theorem toRat_of_whole (h : x.magnitude? = some m) (hsign : x.isNegative = false)
    (hvalue : (m.significand * 2 ^ m.exponent : ℚ) = k) : x.toRat = k := by
  rw [toRat, h, hsign, ← hvalue]
  simp

theorem toRat_eq_zero_iff (h : x.magnitude? = some m) : x.toRat = 0 ↔ m.significand = 0 := by
  rw [toRat_of_magnitude? h]
  cases x.sign <;> simp [Sign.apply, zpow_ne_zero]

theorem sign_of_zero (h : x.magnitude? = some m) (hzero : m.significand = 0) (hbits : x.bits ≠ signBit) :
    x.sign = .positive := by
  refine if_neg fun hsign => hbits ?_
  have hword := toWord_of_magnitude? h
  have hexponent : m.exponent ≤ greatestExponent := (canonical_of_magnitude? h).le_greatest
  have htoWord : m.toWord = 0 := by
    rw [Magnitude.toWord, if_neg (Int.not_lt.mpr hexponent), if_pos (by rw [hzero]; decide), hzero]
  have hlt : x.bits.toNat < 2 ^ 64 := x.bits.toNat_lt
  have hhigh := isNegative_iff.mp hsign
  apply UInt64.toNat_inj.mp
  have hvalue : signBit.toNat = 2 ^ 63 := rfl
  omega

theorem normalize_apply (s : Sign) {n : Nat} (hn : 0 < n) (e : Int) (zeroSign : Sign) :
    UnpackedFloat.normalize Format.binary64 (s.apply n) e zeroSign =
      UnpackedFloat.round Format.binary64 s n e := by
  cases s with
  | positive =>
    have hcompare : compare (Sign.positive.apply n) 0 = .gt := compare_gt_iff_gt.mpr (by simpa [Sign.apply])
    rw [UnpackedFloat.normalize, hcompare]
    rfl
  | negative =>
    have hcompare : compare (Sign.negative.apply n) 0 = .lt := compare_lt_iff_lt.mpr (by simpa [Sign.apply])
    rw [UnpackedFloat.normalize, hcompare]
    simp [Sign.apply]

theorem exists_apply {s : Sign} {n : Nat} {f : Int} (h : (k : ℚ) * 2 ^ e = s.apply n * 2 ^ f) :
    ∃ l : Nat, k = s.apply l ∧ (l : ℚ) * 2 ^ e = n * 2 ^ f := by
  have hstep : (0 : ℚ) < 2 ^ e := by positivity
  have hnonneg : (0 : ℚ) ≤ n * 2 ^ f := by positivity
  cases s with
  | positive =>
    simp only [Sign.apply, Int.cast_natCast] at h
    have hk : (0 : ℚ) ≤ k := nonneg_of_mul_nonneg_left (h ▸ hnonneg) hstep
    obtain ⟨l, rfl⟩ := Int.eq_ofNat_of_zero_le (Int.cast_nonneg_iff.mp hk)
    exact ⟨l, rfl, by exact_mod_cast h⟩
  | negative =>
    simp only [Sign.apply, Int.cast_neg, Int.cast_natCast, neg_mul] at h
    have hk : (0 : ℚ) ≤ (-k : Int) := by
      refine nonneg_of_mul_nonneg_left (b := (2 : ℚ) ^ e) ?_ hstep
      push_cast
      linarith
    obtain ⟨l, hl⟩ := Int.eq_ofNat_of_zero_le (Int.cast_nonneg_iff.mp hk)
    obtain rfl : k = -l := by omega
    refine ⟨l, rfl, ?_⟩
    push_cast at h
    linarith

/-- Rounding gives the double of a value from whatever integer and exponent the value has. -/
theorem Exactly.normalize_eq (hx : x.Exactly q) (h : (k : ℚ) * 2 ^ e = q) :
    UnpackedFloat.normalize Format.binary64 k e .positive = unpack Format.binary64 x.word := by
  obtain ⟨m, hm⟩ := isFinite_iff.mp hx.isFinite
  rw [← hx.toRat_eq, toRat_of_magnitude? hm] at h
  obtain ⟨n, rfl, hn⟩ := exists_apply h
  rw [unpack_word hm]
  split
  · rename_i hzero
    have hnzero : n = 0 := by
      rw [hzero, Nat.cast_zero, zero_mul] at hn
      simpa [zpow_ne_zero] using hn
    rw [sign_of_zero hm hzero hx.bits_ne, hnzero]
    rfl
  · rename_i hzero
    have hpos : 0 < m.significand := Nat.pos_of_ne_zero hzero
    have hnpos : 0 < n := by
      have hright : (0 : ℚ) < m.significand * 2 ^ m.exponent := by positivity
      have hstep : (0 : ℚ) < 2 ^ e := by positivity
      exact_mod_cast pos_of_mul_pos_left (hn ▸ hright) hstep.le
    rw [normalize_apply _ hnpos, round_of_canonical (canonical_of_magnitude? hm) hpos _ hn]

theorem exactly_of_ne_zero (hx : x.isFinite = true) (hne : x.toRat ≠ 0) : x.Exactly x.toRat := by
  refine ⟨hx, rfl, fun hbits => hne ?_⟩
  obtain rfl : x = ⟨signBit⟩ := congrArg Double.mk hbits
  have hm : (⟨signBit⟩ : Double).magnitude? = some ⟨0, leastExponent⟩ := rfl
  exact (toRat_eq_zero_iff hm).mpr rfl

theorem unpack_of_ne_zero (hx : x.isFinite = true) (hne : x.toRat ≠ 0) : ∃ k e : Int,
    (k : ℚ) * 2 ^ e = x.toRat ∧
      unpack Format.binary64 x.word = UnpackedFloat.normalize Format.binary64 k e .positive := by
  obtain ⟨m, hm⟩ := isFinite_iff.mp hx
  have hvalue := toRat_of_magnitude? hm
  exact ⟨_, _, hvalue.symm, ((exactly_of_ne_zero hx hne).normalize_eq hvalue.symm).symm⟩

-- ---------------------------------------------------------------------------
-- Sums
-- ---------------------------------------------------------------------------

theorem shiftLeft_value (s : Sign) (n : Nat) {e f : Int} (h : f ≤ e) :
    (s.apply (n <<< (e - f).toNat : Nat) : ℚ) * 2 ^ f = s.apply n * 2 ^ e := by
  obtain ⟨k, hk⟩ := Int.eq_ofNat_of_zero_le (Int.sub_nonneg.mpr h)
  obtain rfl : e = f + k := by omega
  have hamount : (f + k - f).toNat = k := by omega
  rw [hamount, Nat.shiftLeft_eq, zpow_add₀ two_ne_zero, zpow_natCast]
  cases s <;> simp only [Sign.apply] <;> push_cast <;> ring

/-- A sum is what rounding makes of the exact sum. -/
theorem add_unpack (hx : x.Exactly p) (hy : y.isFinite = true) : ∃ k e : Int,
    (k : ℚ) * 2 ^ e = p + y.toRat ∧
      UnpackedFloat.add Format.binary64 (unpack Format.binary64 x.word) (unpack Format.binary64 y.word) =
        UnpackedFloat.normalize Format.binary64 k e .positive := by
  obtain ⟨m, hm⟩ := isFinite_iff.mp hx.isFinite
  obtain ⟨n, hn⟩ := isFinite_iff.mp hy
  obtain rfl := hx.toRat_eq
  by_cases hxzero : m.significand = 0
  · have hxunpack : unpack Format.binary64 x.word = .zero .positive := by
      rw [unpack_word hm, dif_pos hxzero, sign_of_zero hm hxzero hx.bits_ne]
    rw [hxunpack, (toRat_eq_zero_iff hm).mpr hxzero, zero_add]
    by_cases hyzero : n.significand = 0
    · refine ⟨0, 0, by rw [(toRat_eq_zero_iff hn).mpr hyzero]; simp, ?_⟩
      rw [unpack_word hn, dif_pos hyzero]
      cases y.sign <;> rfl
    · obtain ⟨k, e, hvalue, hyunpack⟩ := unpack_of_ne_zero hy (mt (toRat_eq_zero_iff hn).mp hyzero)
      refine ⟨k, e, hvalue, ?_⟩
      rw [← hyunpack, unpack_word hn, dif_neg hyzero]
      rfl
  · by_cases hyzero : n.significand = 0
    · obtain ⟨k, e, hvalue, hxunpack⟩ :=
        unpack_of_ne_zero hx.isFinite (mt (toRat_eq_zero_iff hm).mp hxzero)
      rw [(toRat_eq_zero_iff hn).mpr hyzero, add_zero]
      refine ⟨k, e, hvalue, ?_⟩
      rw [← hxunpack, unpack_word hm, unpack_word hn, dif_neg hxzero, dif_pos hyzero]
      rfl
    · rw [unpack_word hm, unpack_word hn, dif_neg hxzero, dif_neg hyzero]
      refine ⟨_, _, ?_, rfl⟩
      rw [toRat_of_magnitude? hm, toRat_of_magnitude? hn, Int.cast_add, add_mul,
        shiftLeft_value _ _ (min_le_left _ _), shiftLeft_value _ _ (min_le_right _ _)]

theorem ofFloat_eq {f : Float} (hz : z.isFinite = true)
    (h : f.toModel = Float.Model.pack (unpack Format.binary64 z.word)) : ofFloat f = z := by
  obtain ⟨m, hm⟩ := isFinite_iff.mp hz
  have hrepack : UnpackedFloat.pack Format.binary64 (unpack Format.binary64 z.word) = z.word := by
    rw [pack_unpack, if_neg (by simp [isNaNBits_word, isNaN_of_magnitude? hm])]
  have hbits : f.toBits = z.bits := by
    rw [Float.toBits, h]
    exact congrArg UInt64.ofBitVec hrepack
  rw [ofFloat_of_number (h ▸ unpack_pack_ne (unpack_ne_notANumber hm)), hbits]

/-- A sum that a double can hold is that double. -/
theorem Exactly.add (hx : x.Exactly p) (hy : y.isFinite = true) (hz : z.Exactly (p + y.toRat)) :
    x + y = z := by
  obtain ⟨m, hm⟩ := isFinite_iff.mp hx.isFinite
  obtain ⟨n, hn⟩ := isFinite_iff.mp hy
  obtain ⟨k, e, hvalue, hunpack⟩ := add_unpack hx hy
  have hsum : map₂ (· + ·) x y = z := by
    rw [map₂_of_numbers _ (isNaN_of_magnitude? hm) (isNaN_of_magnitude? hn)]
    refine ofFloat_eq hz.isFinite ?_
    rw [← hz.normalize_eq hvalue, ← hunpack, ← unpack_toFloat hm, ← unpack_toFloat hn]
    rfl
  exact hsum

-- ---------------------------------------------------------------------------
-- Differences
-- ---------------------------------------------------------------------------

theorem toNat_neg (y : Double) : (-y).bits.toNat = (y.bits.toNat + 2 ^ 63) % 2 ^ 64 := by
  have hxor : (-y).bits.toNat = y.bits.toNat ^^^ 2 ^ 63 := UInt64.toNat_xor _ _
  have hlt : y.bits.toNat < 2 ^ 64 := y.bits.toNat_lt
  rw [hxor]
  rcases Nat.lt_or_ge y.bits.toNat (2 ^ 63) with hlow | hhigh
  · rw [xor_signBit hlow, Nat.mod_eq_of_lt (by omega)]
  · obtain ⟨n, hn⟩ := Nat.exists_eq_add_of_le' hhigh
    have hsmall : n < 2 ^ 63 := by omega
    rw [hn, ← xor_signBit hsmall, Nat.xor_assoc, Nat.xor_self, Nat.xor_zero, xor_signBit hsmall]
    omega

theorem magnitude?_neg (y : Double) : (-y).magnitude? = y.magnitude? := by
  have hpower : Magnitude.fractionModulus = 2 ^ 52 := rfl
  have hbits := toNat_neg y
  have hfraction : (-y).bits.toNat % 2 ^ 52 = y.bits.toNat % 2 ^ 52 := by omega
  have hbiased : (-y).bits.toNat / 2 ^ 52 % 2048 = y.bits.toNat / 2 ^ 52 % 2048 := by omega
  simp only [magnitude?, hpower, hfraction, hbiased]

theorem sign_neg (y : Double) : (-y).sign = -y.sign := by
  have hbits := toNat_neg y
  have hlt : y.bits.toNat < 2 ^ 64 := y.bits.toNat_lt
  unfold sign
  by_cases hsign : y.isNegative = true
  · have hhigh := isNegative_iff.mp hsign
    rw [if_pos hsign, if_neg (isNegative_iff.not.mpr (by omega))]
    rfl
  · have hlow := isNegative_iff.not.mp hsign
    rw [if_neg hsign, if_pos (isNegative_iff.mpr (by omega))]
    rfl

theorem unpack_neg (hy : y.magnitude? = some m) :
    unpack Format.binary64 (-y).word = (unpack Format.binary64 y.word).neg := by
  rw [unpack_word ((magnitude?_neg y).trans hy), unpack_word hy, sign_neg]
  split <;> rfl

theorem apply_neg (s : Sign) (n : Int) : (-s).apply n = -s.apply n := by
  cases s
  · exact (Int.neg_neg n).symm
  · rfl

theorem sub_eq_add_unpacked (spec : Format) (u v : UnpackedFloat) :
    UnpackedFloat.sub spec u v = UnpackedFloat.add spec u v.neg := by
  cases u with
  | finite s n e hn =>
    cases v with
    | finite t l f hl =>
      simp only [UnpackedFloat.sub, UnpackedFloat.add, UnpackedFloat.neg, apply_neg, Int.sub_eq_add_neg]
    | _ => rfl
  | _ => cases v <;> rfl

theorem sub_eq_add_opposite (x : Double) (hy : y.isFinite = true) : x - y = x + -y := by
  obtain ⟨m, hm⟩ := isFinite_iff.mp hy
  have hneg : (-y).magnitude? = some m := (magnitude?_neg y).trans hm
  show map₂ _ x y = map₂ _ x (-y)
  by_cases hx : x.isNaN = true
  · rw [map₂_of_isNaN _ hx, map₂_of_isNaN _ hx]
  · have hx : x.isNaN = false := Bool.not_eq_true _ ▸ hx
    rw [map₂_of_numbers _ hx (isNaN_of_magnitude? hm), map₂_of_numbers _ hx (isNaN_of_magnitude? hneg)]
    have hmodel : (x.toFloat - y.toFloat).toModel = (x.toFloat + (-y).toFloat).toModel := by
      show Float.Model.pack _ = Float.Model.pack _
      rw [unpack_toFloat hm, unpack_toFloat hneg, unpack_neg hm, sub_eq_add_unpacked]
    exact congrArg (fun f => ofFloat (.ofModel f)) hmodel

theorem toRat_neg (hy : y.isFinite = true) : (-y).toRat = -y.toRat := by
  obtain ⟨m, hm⟩ := isFinite_iff.mp hy
  rw [toRat_of_magnitude? ((magnitude?_neg y).trans hm), toRat_of_magnitude? hm, sign_neg, apply_neg,
    Int.cast_neg, neg_mul]

theorem isFinite_neg (hy : y.isFinite = true) : (-y).isFinite = true := by
  rwa [isFinite_iff, magnitude?_neg, ← isFinite_iff]

/-- A difference that a double can hold is that double. -/
theorem Exactly.sub (hx : x.Exactly p) (hy : y.isFinite = true) (hz : z.Exactly (p - y.toRat)) :
    x - y = z := by
  rw [sub_eq_add_opposite x hy]
  refine hx.add (isFinite_neg hy) ?_
  rwa [toRat_neg hy, ← sub_eq_add_neg]

theorem exactly_zero : (0 : Double).Exactly 0 where
  isFinite := by decide
  toRat_eq := (toRat_eq_zero_iff (m := ⟨0, leastExponent⟩) (by decide)).mpr rfl
  bits_ne := by decide

theorem Exactly.unique (hx : x.Exactly q) (hy : y.Exactly q) : x = y := by
  have hsum : q + (0 : Double).toRat = q := by rw [exactly_zero.toRat_eq, add_zero]
  calc x
    _ = x + 0 := (hx.add exactly_zero.isFinite (hsum.symm ▸ hx)).symm
    _ = y := hx.add exactly_zero.isFinite (hsum.symm ▸ hy)

-- ---------------------------------------------------------------------------
-- Which numbers doubles can hold
-- ---------------------------------------------------------------------------

theorem toWord_lt_two_pow (hm : m.Canonical) : m.toWord < 2 ^ 63 := by
  have hlt := Magnitude.toWord_lt hm.significand_lt hm.least_le hm.le_greatest
  omega

theorem toNat_ofMagnitude (hm : m.Canonical) (negative : Bool) :
    (ofMagnitude negative m).bits.toNat = m.toWord + if negative then 2 ^ 63 else 0 := by
  have hlt := toWord_lt_two_pow hm
  have hpower : Decimal.twoTo 63 = 2 ^ 63 := rfl
  have hsize : UInt64.size = 2 ^ 64 := rfl
  rw [ofMagnitude, hpower, UInt64.toNat_ofNat_of_lt']
  split <;> omega

theorem magnitude?_ofMagnitude (hm : m.Canonical) (negative : Bool) :
    (ofMagnitude negative m).magnitude? = some m := by
  have hpower : Magnitude.fractionModulus = 2 ^ 52 := rfl
  have hbits : (ofMagnitude negative m).bits.toNat % 2 ^ 63 = m.toWord := by
    have hlt := toWord_lt_two_pow hm
    rw [toNat_ofMagnitude hm]
    split <;> omega
  have hsignificand := hm.significand_lt
  have hleast := hm.least_le
  have hgreatest := hm.le_greatest
  unfold greatestExponent at hgreatest
  unfold leastExponent at hleast
  rw [Magnitude.toWord, hpower, if_neg (by unfold greatestExponent; omega)] at hbits
  have hnormal := hm.normal
  obtain ⟨significand, exponent⟩ := m
  simp only at hsignificand hleast hgreatest hnormal hbits
  simp only [magnitude?, hpower]
  by_cases hsmall : significand < 2 ^ 52
  · have hexponent : exponent = leastExponent := hnormal.resolve_left (by omega)
    rw [if_pos hsmall] at hbits
    rw [if_neg (by omega), if_pos (by omega), Option.some.injEq, Magnitude.mk.injEq]
    exact ⟨by omega, hexponent.symm⟩
  · rw [if_neg hsmall] at hbits
    rw [if_neg (by omega), if_neg (by omega), Option.some.injEq, Magnitude.mk.injEq]
    omega

theorem sign_ofMagnitude (hm : m.Canonical) (negative : Bool) :
    (ofMagnitude negative m).sign = if negative then .negative else .positive := by
  have hlt := toWord_lt_two_pow hm
  have hbits := toNat_ofMagnitude hm negative
  cases negative
  · exact if_neg (isNegative_iff.not.mpr (by simp at hbits; omega))
  · exact if_pos (isNegative_iff.mpr (by simp at hbits; omega))

theorem apply_natAbs (k : Int) :
    (if decide (k < 0) then Sign.negative else .positive).apply k.natAbs = k := by
  by_cases hlt : k < 0
  · simp only [hlt, decide_true, if_true, Sign.apply]
    omega
  · simp only [hlt, decide_false, Bool.false_eq_true, if_false, Sign.apply]
    omega

/-- The steps of a power of two that is no smaller than the least double, as many as fit a significand. -/
theorem representable_of_steps (hk : k.natAbs < 2 ^ 53) (hleast : leastExponent ≤ e)
    (hgreatest : e ≤ greatestExponent) : Representable (k * 2 ^ e) := by
  rcases eq_or_ne k 0 with rfl | hne
  · exact ⟨0, by simpa using exactly_zero⟩
  · have hpos : 0 < k.natAbs := Int.natAbs_pos.mpr hne
    have hlog : k.natAbs.log2 ≤ 52 := Nat.lt_succ_iff.mp ((Nat.log2_lt hpos.ne').mpr hk)
    let shift := min (52 - k.natAbs.log2) (e - leastExponent).toNat
    let m : Magnitude := ⟨k.natAbs * 2 ^ shift, e - shift⟩
    have hshifted : (k.natAbs * 2 ^ shift).log2 = k.natAbs.log2 + shift := log2_mul_two_pow hpos shift
    have hshiftedPos : 0 < k.natAbs * 2 ^ shift := Nat.mul_pos hpos (Nat.two_pow_pos _)
    have hm : m.Canonical := by
      refine ⟨?_, ?_, ?_, ?_⟩
      · exact (Nat.log2_lt hshiftedPos.ne').mp (by omega)
      · simp only [m]
        omega
      · simp only [m]
        omega
      · rcases Nat.le_total (52 - k.natAbs.log2) (e - leastExponent).toNat with hle | hle
        · exact .inl ((Nat.le_log2 hshiftedPos.ne').mp (by omega))
        · refine .inr ?_
          simp only [m]
          omega
    let x := ofMagnitude (decide (k < 0)) m
    have hx : x.magnitude? = some m := magnitude?_ofMagnitude hm _
    have hvalue : x.toRat = k * 2 ^ e := by
      have hshift : (e - (e - shift)).toNat = shift := by omega
      have halign := shiftLeft_value (if decide (k < 0) then .negative else .positive) k.natAbs
        (show e - shift ≤ e by omega)
      rw [apply_natAbs, hshift, Nat.shiftLeft_eq] at halign
      rw [toRat_of_magnitude? hx, sign_ofMagnitude hm]
      exact halign
    have hne : x.toRat ≠ 0 := by
      rw [hvalue]
      exact mul_ne_zero (Int.cast_ne_zero.mpr hne) (by positivity)
    exact ⟨x, hvalue ▸ exactly_of_ne_zero (isFinite_iff.mpr ⟨m, hx⟩) hne⟩

end TradingRules.Double
