import TradingRules.Double.Magnitude
import Mathlib

/-!
# Bits and magnitudes

A finite double is the sign and the magnitude that its bits spell (`ofMagnitude_magnitude?`), and equals
itself (`beq_self`).
-/

namespace TradingRules.Double

open Decimal (twoTo)
open Magnitude (leastExponent greatestExponent)

variable {x : Double} {m : Magnitude}

/-- What the fields of a word can spell. -/
structure Magnitude.Canonical (m : Magnitude) : Prop where
  significand_lt : m.significand < 2 ^ 53
  least_le : leastExponent ≤ m.exponent
  le_greatest : m.exponent ≤ greatestExponent
  normal : 2 ^ 52 ≤ m.significand ∨ m.exponent = leastExponent

theorem magnitude?_eq_some (h : x.magnitude? = some m) : ∃ biased fraction,
    biased < 2047 ∧ fraction < 2 ^ 52 ∧ x.bits.toNat % 2 ^ 63 = biased * 2 ^ 52 + fraction ∧
      m = if biased = 0 then ⟨fraction, leastExponent⟩ else ⟨2 ^ 52 + fraction, biased - 1075⟩ := by
  have hpower : twoTo 52 = 2 ^ 52 := rfl
  simp only [magnitude?, Magnitude.fractionModulus, hpower] at h
  by_cases hbiased : x.bits.toNat / 2 ^ 52 % 2048 = 2047
  · rw [if_pos hbiased] at h
    cases h
  · rw [if_neg hbiased, ← apply_ite some, Option.some.injEq] at h
    exact ⟨x.bits.toNat / 2 ^ 52 % 2048, x.bits.toNat % 2 ^ 52, by omega, by omega, by omega, h.symm⟩

theorem canonical_of_magnitude? (h : x.magnitude? = some m) : m.Canonical := by
  obtain ⟨biased, fraction, hbiased, hfraction, -, rfl⟩ := magnitude?_eq_some h
  unfold leastExponent
  split
  · refine ⟨by simp only; omega, Int.le_refl _, ?_, .inr rfl⟩
    simp [greatestExponent]
  · refine ⟨by simp only; omega, ?_, ?_, .inl (Nat.le_add_right _ _)⟩
    · simp only [leastExponent]
      omega
    · simp only [greatestExponent]
      omega

theorem toWord_of_magnitude? (h : x.magnitude? = some m) : m.toWord = x.bits.toNat % 2 ^ 63 := by
  obtain ⟨biased, fraction, hbiased, hfraction, hword, rfl⟩ := magnitude?_eq_some h
  have hpower : twoTo 52 = 2 ^ 52 := rfl
  simp only [Magnitude.toWord, Magnitude.fractionModulus, hpower, leastExponent, greatestExponent]
  split
  · simp only [Int.reduceNeg, Int.reduceLT, ↓reduceIte]
    omega
  · rw [if_neg (by simp only; omega), if_neg (by simp)]
    simp only [Int.sub_add_cancel, Int.toNat_natCast]
    omega

theorem isNegative_iff : x.isNegative = true ↔ 2 ^ 63 ≤ x.bits.toNat := by
  simp [isNegative, signBit, UInt64.le_iff_toNat_le]

theorem ofMagnitude_magnitude? (h : x.magnitude? = some m) : ofMagnitude x.isNegative m = x := by
  have hpower : twoTo 63 = 2 ^ 63 := rfl
  have hlt : x.bits.toNat < 2 ^ 64 := x.bits.toNat_lt
  have hsum : m.toWord + (if x.isNegative then twoTo 63 else 0) = x.bits.toNat := by
    rw [toWord_of_magnitude? h, hpower]
    by_cases hsign : x.isNegative = true
    · have hhigh := isNegative_iff.mp hsign
      rw [if_pos hsign]
      omega
    · have hlow := mt isNegative_iff.mpr hsign
      rw [if_neg hsign]
      omega
  rw [ofMagnitude, hsum, UInt64.ofNat_toNat]

-- ---------------------------------------------------------------------------
-- The sign bit
-- ---------------------------------------------------------------------------

theorem xor_signBit {n : Nat} (h : n < 2 ^ 63) : n ^^^ 2 ^ 63 = n + 2 ^ 63 := by
  have hhigh : (n ^^^ 2 ^ 63) / 2 ^ 63 = 1 := by
    rw [Nat.xor_div_two_pow, Nat.div_eq_of_lt h]
    rfl
  have hlow : (n ^^^ 2 ^ 63) % 2 ^ 63 = n := by
    rw [Nat.xor_mod_two_pow, Nat.mod_eq_of_lt h, Nat.mod_self, Nat.xor_zero]
  omega

theorem neg_ofMagnitude (h : m.toWord < 2 ^ 63) : -ofMagnitude false m = ofMagnitude true m := by
  have hword : (UInt64.ofNat m.toWord).toNat = m.toWord := UInt64.toNat_ofNat_of_lt' (by unfold UInt64.size; omega)
  have hsum : (UInt64.ofNat (m.toWord + 2 ^ 63)).toNat = m.toWord + 2 ^ 63 :=
    UInt64.toNat_ofNat_of_lt' (by unfold UInt64.size; omega)
  have hbits : UInt64.ofNat m.toWord ^^^ signBit = UInt64.ofNat (m.toWord + 2 ^ 63) := by
    apply UInt64.toNat_inj.mp
    rw [UInt64.toNat_xor, hword, hsum]
    exact xor_signBit h
  exact congrArg Double.mk hbits

theorem toNat_abs (x : Double) : x.abs.bits.toNat = x.bits.toNat % 2 ^ 63 := by
  have hmask : (~~~signBit).toNat = 2 ^ 63 - 1 := rfl
  rw [abs, UInt64.toNat_and, hmask, Nat.and_two_pow_sub_one_eq_mod]

theorem isNaN_of_magnitude? (h : x.magnitude? = some m) : x.isNaN = false := by
  obtain ⟨biased, fraction, hbiased, hfraction, hword, -⟩ := magnitude?_eq_some h
  have hinfinity : infinity.bits.toNat = 2047 * 2 ^ 52 := rfl
  rw [isNaN, decide_eq_false_iff_not, UInt64.lt_iff_toNat_lt, toNat_abs, hword, hinfinity]
  omega

theorem isFinite_iff : x.isFinite = true ↔ ∃ m, x.magnitude? = some m := by
  have hpower : twoTo 52 = 2 ^ 52 := rfl
  have hinfinity : infinity.bits.toNat = 2047 * 2 ^ 52 := rfl
  rw [isFinite, decide_eq_true_iff, UInt64.lt_iff_toNat_lt, toNat_abs, hinfinity]
  simp only [magnitude?, Magnitude.fractionModulus, hpower]
  split
  · constructor
    · omega
    · rintro ⟨m, ⟨⟩⟩
  · split
    · exact ⟨fun _ => ⟨_, rfl⟩, fun _ => by omega⟩
    · exact ⟨fun _ => ⟨_, rfl⟩, fun _ => by omega⟩

-- ---------------------------------------------------------------------------
-- Comparing
-- ---------------------------------------------------------------------------

open Float.Model (UnpackedFloat Format)
open Float.Model.UnpackedFloat (unpack unpackExponent isNaNBits pack_unpack)

def word (x : Double) : BitVec Format.binary64.numBits := x.bits.toBitVec

theorem unpackExponent_ne (h : x.magnitude? = some m) :
    unpackExponent x.word ≠ -1#_ := by
  obtain ⟨biased, fraction, hbiased, hfraction, hword, -⟩ := magnitude?_eq_some h
  intro heq
  have hvalue : x.bits.toNat / 2 ^ 52 % 2 ^ 11 = 2047 := by
    rw [← Nat.shiftRight_eq_div_pow]
    exact congrArg BitVec.toNat heq
  omega

theorem unpack_ne_notANumber (h : x.magnitude? = some m) : unpack Format.binary64 x.word ≠ .notANumber := by
  have hexponent := unpackExponent_ne h
  fun_cases unpack Format.binary64 x.word <;> first | contradiction | exact nofun

theorem unpack_toFloat (h : x.magnitude? = some m) :
    x.toFloat.toModel.unpack = unpack Format.binary64 x.word := by
  have hnumber : isNaNBits x.word = false := decide_eq_false fun hnan => unpackExponent_ne h hnan.1
  have hrepack := pack_unpack x.word
  rw [hnumber] at hrepack
  exact congrArg (unpack Format.binary64) hrepack

theorem compare_self {u : UnpackedFloat} (h : u ≠ .notANumber) : u.beq u = true := by
  cases u with
  | notANumber => exact absurd rfl h
  | infinity s => cases s <;> rfl
  | zero s => rfl
  | finite s mantissa exponent hpos => cases s <;> simp [UnpackedFloat.beq, UnpackedFloat.compare]

theorem beq_self (h : x.magnitude? = some m) : (x == x) = true := by
  have hne : x.toFloat.toModel.unpack ≠ .notANumber := by
    rw [unpack_toFloat h]
    exact unpack_ne_notANumber h
  exact compare_self hne

end TradingRules.Double
