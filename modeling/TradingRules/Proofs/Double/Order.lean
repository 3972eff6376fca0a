import TradingRules.Double.Order
import TradingRules.Proofs.Double.Exact

/-!
# The order of doubles

The bits below the sign, taken with the sign, order the doubles that are no NaNs as the machine compares
them; both zeros have place zero (`lt_iff_place`, `beq_iff_place`). The total order differs in
that it tells the zeros apart and has places for the NaNs (`lt_iff_totalRank`).
-/

namespace TradingRules.Double

open Float.Model (UnpackedFloat Format)
open Float.Model.UnpackedFloat
open Magnitude (leastExponent greatestExponent)

variable {x y z : Double} {m n : Magnitude}

-- ---------------------------------------------------------------------------
-- Magnitudes and their words
-- ---------------------------------------------------------------------------

theorem toWord_of_le (hsignificand : m.significand ≤ 2 ^ 53) (hleast : leastExponent ≤ m.exponent)
    (hgreatest : m.exponent ≤ greatestExponent)
    (hnormal : 2 ^ 52 ≤ m.significand ∨ m.exponent = leastExponent) :
    m.toWord = (m.exponent + 1074).toNat * 2 ^ 52 + m.significand := by
  have hpower : Magnitude.fractionModulus = 2 ^ 52 := rfl
  rw [Magnitude.toWord, hpower, if_neg (Int.not_lt.mpr hgreatest)]
  unfold leastExponent at *
  split <;> omega

theorem toWord_of_canonical (hm : m.Canonical) :
    m.toWord = (m.exponent + 1074).toNat * 2 ^ 52 + m.significand :=
  toWord_of_le hm.significand_lt.le hm.least_le hm.le_greatest hm.normal

theorem toWord_pos (hm : m.Canonical) (hpos : 0 < m.significand) : 0 < m.toWord := by
  rw [toWord_of_canonical hm]
  omega

theorem toWord_lt_infinity (hm : m.Canonical) : m.toWord < 2047 * 2 ^ 52 :=
  Magnitude.toWord_lt hm.significand_lt hm.least_le hm.le_greatest

theorem toWord_lt_of_exponent_lt (hm : m.Canonical) (hn : n.Canonical) (h : m.exponent < n.exponent) :
    m.toWord < n.toWord := by
  have hleast := hm.least_le
  have hlt := hm.significand_lt
  have hnormal : 2 ^ 52 ≤ n.significand := hn.normal.resolve_right (by omega)
  rw [toWord_of_canonical hm, toWord_of_canonical hn]
  unfold leastExponent at hleast
  omega

/-- The exponent decides before the significand does. -/
theorem compare_toWord (hm : m.Canonical) (hn : n.Canonical) :
    compare m.toWord n.toWord =
      (compare m.exponent n.exponent).then (compare m.significand n.significand) := by
  rcases lt_trichotomy m.exponent n.exponent with hlt | heq | hgt
  · rw [compare_lt_iff_lt.mpr hlt, compare_lt_iff_lt.mpr (toWord_lt_of_exponent_lt hm hn hlt)]
    rfl
  · rw [compare_eq_iff_eq.mpr heq, toWord_of_canonical hm, toWord_of_canonical hn, heq]
    simp only [Nat.compare_eq_ite_lt, Nat.add_lt_add_iff_left]
    rfl
  · rw [compare_gt_iff_gt.mpr hgt, compare_gt_iff_gt.mpr (toWord_lt_of_exponent_lt hn hm hgt)]
    rfl

-- ---------------------------------------------------------------------------
-- Places
-- ---------------------------------------------------------------------------

def place (x : Double) : Int := x.sign.apply (x.bits.toNat % 2 ^ 63 : Nat)

inductive Placed : UnpackedFloat → Int → Prop where
  | infinity (s : Sign) : Placed (.infinity s) (s.apply (2047 * 2 ^ 52))
  | zero (s : Sign) : Placed (.zero s) 0
  | finite (s : Sign) {m : Magnitude} (hm : m.Canonical) (hpos : 0 < m.significand) :
    Placed (.finite s m.significand m.exponent hpos) (s.apply m.toWord)

section
variable {u v : UnpackedFloat} {p q : Int}

theorem Placed.swap (h : v.compare u = some (compare q p)) : u.compare v = some (compare p q) := by
  rw [compare_swap, h, Option.map_some, Int.compare_swap]

theorem Placed.compare_infinity (s : Sign) (hv : Placed v q) :
    (UnpackedFloat.infinity s).compare v = some (compare (s.apply (2047 * 2 ^ 52)) q) := by
  cases hv with
  | infinity t => cases s <;> cases t <;> rfl
  | zero t => cases s <;> rfl
  | finite t hn hpos =>
    have hlt := toWord_lt_infinity hn
    cases s with
    | negative =>
      refine congrArg some (compare_lt_iff_lt.mpr ?_).symm
      cases t <;> simp only [Sign.apply] <;> omega
    | positive =>
      refine congrArg some (compare_gt_iff_gt.mpr ?_).symm
      cases t <;> simp only [Sign.apply] <;> omega

theorem Placed.compare_zero (s t : Sign) (hn : n.Canonical) (hpos : 0 < n.significand) :
    (UnpackedFloat.zero s).compare (.finite t n.significand n.exponent hpos) =
      some (compare 0 (t.apply n.toWord)) := by
  have hword := toWord_pos hn hpos
  cases t with
  | negative =>
    refine congrArg some (compare_gt_iff_gt.mpr ?_).symm
    simp only [Sign.apply]
    omega
  | positive =>
    refine congrArg some (compare_lt_iff_lt.mpr ?_).symm
    simp only [Sign.apply]
    omega

theorem Placed.compare_finite (s t : Sign) (hm : m.Canonical) (hn : n.Canonical)
    (hmpos : 0 < m.significand) (hnpos : 0 < n.significand) :
    (UnpackedFloat.finite s m.significand m.exponent hmpos).compare
        (.finite t n.significand n.exponent hnpos) =
      some (compare (s.apply m.toWord) (t.apply n.toWord)) := by
  have hmword := toWord_pos hm hmpos
  have hnword := toWord_pos hn hnpos
  have hsame := compare_toWord hm hn
  cases s with
  | negative =>
    cases t with
    | negative =>
      refine congrArg some ((congrArg Ordering.swap hsame).symm.trans ?_)
      rw [Nat.compare_swap]
      simp only [Sign.apply, Nat.compare_eq_ite_lt, Int.compare_eq_ite_lt, Int.neg_lt_neg_iff, Int.ofNat_lt]
    | positive =>
      refine congrArg some (compare_lt_iff_lt.mpr ?_).symm
      simp only [Sign.apply]
      omega
  | positive =>
    cases t with
    | negative =>
      refine congrArg some (compare_gt_iff_gt.mpr ?_).symm
      simp only [Sign.apply]
      omega
    | positive =>
      refine congrArg some (hsame.symm.trans ?_)
      simp only [Sign.apply, Nat.compare_eq_ite_lt, Int.compare_eq_ite_lt, Int.ofNat_lt]

/-- The machine compares two numbers as their places. -/
theorem Placed.compare (hu : Placed u p) (hv : Placed v q) : u.compare v = some (compare p q) := by
  cases hu with
  | infinity s => exact hv.compare_infinity s
  | zero s =>
    cases hv with
    | infinity t => exact swap ((Placed.zero s).compare_infinity t)
    | zero t => rfl
    | finite t hn hpos => exact compare_zero s t hn hpos
  | finite s hm hpos =>
    cases hv with
    | infinity t => exact swap ((Placed.finite s hm hpos).compare_infinity t)
    | zero t => exact swap (compare_zero t s hm hpos)
    | finite t hn hnpos => exact compare_finite s t hm hn hpos hnpos

end

theorem unpack_infinity (hnone : x.magnitude? = none) (hx : x.isNaN = false) :
    unpack Format.binary64 x.word = .infinity x.sign ∧ x.place = x.sign.apply (2047 * 2 ^ 52) := by
  have hpower : Magnitude.fractionModulus = 2 ^ 52 := rfl
  have hinfinity : infinity.bits.toNat = 2047 * 2 ^ 52 := rfl
  have hexponent : x.bits.toNat / 2 ^ 52 % 2048 = 2047 := by
    by_contra hne
    rw [magnitude?, hpower] at hnone
    simp only [if_neg hne] at hnone
    split at hnone <;> cases hnone
  rw [isNaN, decide_eq_false_iff_not, UInt64.lt_iff_toNat_lt, toNat_abs, hinfinity] at hx
  have hword : x.bits.toNat % 2 ^ 63 = 2047 * 2 ^ 52 := by omega
  constructor
  · rw [unpack, if_pos (unpackExponent_eq_iff.mpr hexponent), if_pos (unpackMantissa_eq_iff.mpr (by omega)),
      ofBitVec_unpackSign]
  · rw [place, hword]
    rfl

theorem unpack_toFloat_of_number (hx : x.isNaN = false) :
    x.toFloat.toModel.unpack = unpack Format.binary64 x.word := by
  have hrepack := pack_unpack x.word
  rw [isNaNBits_word, hx] at hrepack
  exact congrArg (unpack Format.binary64) hrepack

theorem placed_unpack (hx : x.isNaN = false) : Placed x.toFloat.toModel.unpack x.place := by
  rw [unpack_toFloat_of_number hx]
  cases hm : x.magnitude? with
  | none =>
    obtain ⟨hunpack, hplace⟩ := unpack_infinity hm hx
    rw [hunpack, hplace]
    exact .infinity _
  | some m =>
    rw [unpack_word hm, place, ← toWord_of_magnitude? hm]
    have hcanonical := canonical_of_magnitude? hm
    split
    · rename_i hzero
      have hplace : x.sign.apply m.toWord = 0 := by
        have hexponent : m.exponent = leastExponent := hcanonical.normal.resolve_left (by omega)
        rw [toWord_of_canonical hcanonical, hzero, hexponent]
        cases x.sign <;> rfl
      rw [hplace]
      exact .zero _
    · exact .finite _ hcanonical _

theorem lt_iff_place (hx : x.isNaN = false) (hy : y.isNaN = false) : x < y ↔ x.place < y.place := by
  rw [lt_iff_unpacked, UnpackedFloat.lt, (placed_unpack hx).compare (placed_unpack hy)]
  simp [Int.compare_eq_lt]

theorem beq_iff_place (hx : x.isNaN = false) (hy : y.isNaN = false) :
    (x == y) = true ↔ x.place = y.place := by
  have hbeq : (x == y) = x.toFloat.toModel.unpack.beq y.toFloat.toModel.unpack := rfl
  rw [hbeq, UnpackedFloat.beq, (placed_unpack hx).compare (placed_unpack hy)]
  simp

theorem beq_symm (h : (x == y) = true) : (y == x) = true := by
  obtain ⟨hx, hy⟩ := isNaN_of_beq h
  rw [beq_iff_place hx hy] at h
  exact (beq_iff_place hy hx).mpr h.symm

theorem beq_trans (hxy : (x == y) = true) (hyz : (y == z) = true) : (x == z) = true := by
  obtain ⟨hx, hy⟩ := isNaN_of_beq hxy
  obtain ⟨-, hz⟩ := isNaN_of_beq hyz
  rw [beq_iff_place hx hy] at hxy
  rw [beq_iff_place hy hz] at hyz
  exact (beq_iff_place hx hz).mpr (hxy.trans hyz)

theorem place_eq (x : Double) :
    x.place = if x.bits.toNat < 2 ^ 63 then (x.bits.toNat : Int) else 2 ^ 63 - x.bits.toNat := by
  have hlt : x.bits.toNat < 2 ^ 64 := x.bits.toNat_lt
  unfold place sign
  by_cases hsign : x.isNegative = true
  · have hhigh := isNegative_iff.mp hsign
    simp only [if_pos hsign, Sign.apply]
    omega
  · have hlow := mt isNegative_iff.mpr hsign
    simp only [if_neg hsign, Sign.apply]
    omega

/-- Doubles with one place are equal, or both are zeros. -/
theorem eq_or_zeros_of_place_eq (h : x.place = y.place) :
    x = y ∨ (x.bits = 0 ∨ x.bits = signBit) ∧ (y.bits = 0 ∨ y.bits = signBit) := by
  have hzero : (0 : UInt64).toNat = 0 := rfl
  have hsign : signBit.toNat = 2 ^ 63 := rfl
  have hbits : x.bits.toNat = y.bits.toNat ∨ (x.bits.toNat = 0 ∨ x.bits.toNat = 2 ^ 63) ∧
      (y.bits.toNat = 0 ∨ y.bits.toNat = 2 ^ 63) := by
    rw [place_eq, place_eq] at h
    omega
  simp only [← UInt64.toNat_inj, hzero, hsign]
  exact hbits.imp_left fun heq => congrArg Double.mk (UInt64.toNat_inj.mp heq)

theorem eq_or_zeros_of_beq (h : (x == y) = true) :
    x = y ∨ (x.bits = 0 ∨ x.bits = signBit) ∧ (y.bits = 0 ∨ y.bits = signBit) := by
  obtain ⟨hx, hy⟩ := isNaN_of_beq h
  exact eq_or_zeros_of_place_eq ((beq_iff_place hx hy).mp h)

-- ---------------------------------------------------------------------------
-- The total order
-- ---------------------------------------------------------------------------

theorem eq_of_totalRank_eq (h : x.totalRank = y.totalRank) : x = y := by
  have hpower : Decimal.twoTo 63 = 2 ^ 63 := rfl
  have hxlt : x.bits.toNat < 2 ^ 64 := x.bits.toNat_lt
  have hylt : y.bits.toNat < 2 ^ 64 := y.bits.toNat_lt
  have hbits : x.bits.toNat = y.bits.toNat := by
    simp only [totalRank, hpower] at h
    omega
  exact congrArg Double.mk (UInt64.toNat_inj.mp hbits)

theorem totalRank_of_ne (hbits : x.bits ≠ signBit) :
    x.totalRank = if x.place < 0 then x.place - 1 else x.place := by
  have hne : x.bits.toNat ≠ signBit.toNat := fun h => hbits (UInt64.toNat_inj.mp h)
  have hsign : signBit.toNat = 2 ^ 63 := rfl
  have hpower : Decimal.twoTo 63 = 2 ^ 63 := rfl
  simp only [totalRank, hpower, place_eq]
  omega

/-- The total order is the numeric one where no zero is negative. -/
theorem lt_iff_totalRank (hx : x.isNaN = false) (hy : y.isNaN = false) (hxbits : x.bits ≠ signBit)
    (hybits : y.bits ≠ signBit) : x < y ↔ x.totalRank < y.totalRank := by
  rw [lt_iff_place hx hy, totalRank_of_ne hxbits, totalRank_of_ne hybits]
  omega

end TradingRules.Double
