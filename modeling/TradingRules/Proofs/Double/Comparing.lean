import TradingRules.Proofs.Double.Canonical

/-!
# Comparing doubles

A NaN is neither below nor above anything, itself included. Of two doubles that are no NaNs one is at
most the other, infinities and zeros of either sign among them (`le_iff`).
-/

namespace TradingRules.Double

open Float.Model (UnpackedFloat Format)
open Float.Model.UnpackedFloat (unpack unpackExponent unpackMantissa isNaNBits pack_unpack
  unpack_packedNaN)

variable {x y : Double}

-- ---------------------------------------------------------------------------
-- Which words are NaNs
-- ---------------------------------------------------------------------------

theorem unpackExponent_eq_iff :
    unpackExponent x.word = -1#_ ↔ x.bits.toNat / 2 ^ 52 % 2 ^ 11 = 2047 := by
  have hvalue : (unpackExponent x.word).toNat = x.bits.toNat / 2 ^ 52 % 2 ^ 11 := by
    rw [← Nat.shiftRight_eq_div_pow]
    rfl
  rw [← hvalue]
  exact BitVec.toNat_inj.symm

theorem unpackMantissa_eq_iff : unpackMantissa x.word = 0#_ ↔ x.bits.toNat % 2 ^ 52 = 0 := by
  have hvalue : (unpackMantissa x.word).toNat = x.bits.toNat % 2 ^ 52 := rfl
  rw [← hvalue]
  exact BitVec.toNat_inj.symm

theorem isNaNBits_word (x : Double) : isNaNBits x.word = x.isNaN := by
  have hinfinity : infinity.bits.toNat = 2047 * 2 ^ 52 := rfl
  rw [isNaNBits, isNaN, decide_eq_decide, UInt64.lt_iff_toNat_lt, toNat_abs, hinfinity, ne_eq,
    unpackExponent_eq_iff, unpackMantissa_eq_iff]
  omega

theorem unpack_word_eq_notANumber_iff :
    unpack Format.binary64 x.word = .notANumber ↔ x.isNaN = true := by
  rw [← isNaNBits_word, isNaNBits, decide_eq_true_iff]
  fun_cases unpack Format.binary64 x.word with
  | case1 _ _ _ _ _ hmantissa => exact iff_of_false nofun fun h => h.2 hmantissa
  | case2 _ _ hexponent hmantissa => exact iff_of_true rfl ⟨hexponent, hmantissa⟩
  | case3 _ _ _ _ hexponent => exact iff_of_false nofun fun h => hexponent h.1
  | case4 _ _ _ _ _ hexponent => exact iff_of_false nofun fun h => hexponent h.1
  | case5 _ _ _ _ _ hexponent => exact iff_of_false nofun fun h => hexponent h.1

theorem unpack_toFloat_eq_notANumber_iff :
    x.toFloat.toModel.unpack = .notANumber ↔ x.isNaN = true := by
  have hrepack : x.toFloat.toModel.unpack = _ :=
    congrArg (unpack Format.binary64) (pack_unpack x.word)
  rw [hrepack, isNaNBits_word]
  split
  · exact iff_of_true unpack_packedNaN ‹_›
  · exact unpack_word_eq_notANumber_iff

-- ---------------------------------------------------------------------------
-- The order of the others
-- ---------------------------------------------------------------------------

theorem compare_eq_none_iff (u v : UnpackedFloat) :
    u.compare v = none ↔ u = .notANumber ∨ v = .notANumber := by
  fun_cases UnpackedFloat.compare u v <;> simp <;> assumption

theorem compare_swap (u v : UnpackedFloat) : u.compare v = (v.compare u).map Ordering.swap := by
  have hsign (s t : UnpackedFloat.Sign) : compare s t = (compare t s).swap := by
    cases s <;> cases t <;> rfl
  cases u with
  | notANumber => cases v <;> rfl
  | infinity s =>
    cases v with
    | infinity t => exact congrArg some (hsign s t)
    | _ => cases s <;> rfl
  | zero s =>
    cases v with
    | infinity t => cases t <;> rfl
    | finite t => cases t <;> rfl
    | _ => rfl
  | finite s m e hm =>
    cases v with
    | infinity t => cases s <;> cases t <;> rfl
    | finite t n f hn =>
      cases s <;> cases t <;>
        simp [UnpackedFloat.compare, Ordering.swap_then, Int.compare_swap, Nat.compare_swap]
    | _ => cases s <;> rfl

theorem unpacked_le_iff {u v : UnpackedFloat} : u.le v = true ↔ v.lt u = false ∧
    u ≠ .notANumber ∧ v ≠ .notANumber := by
  have hnone := compare_eq_none_iff v u
  rw [UnpackedFloat.le, UnpackedFloat.lt, compare_swap u v]
  cases heq : v.compare u with
  | none =>
    rcases hnone.mp heq with hv | hu
    · simp [hv]
    · simp [hu]
  | some o =>
    rw [heq] at hnone
    have hnumbers := not_or.mp (mt hnone.mpr nofun)
    cases o <;> simp [hnumbers.1, hnumbers.2]

theorem lt_iff_unpacked : x < y ↔ x.toFloat.toModel.unpack.lt y.toFloat.toModel.unpack = true :=
  decide_eq_true_iff

theorem isNaN_of_compare (h : x.toFloat.toModel.unpack.compare y.toFloat.toModel.unpack ≠ none) :
    x.isNaN = false ∧ y.isNaN = false := by
  rwa [ne_eq, compare_eq_none_iff, unpack_toFloat_eq_notANumber_iff,
    unpack_toFloat_eq_notANumber_iff, not_or, Bool.not_eq_true, Bool.not_eq_true] at h

theorem isNaN_of_lt (h : x < y) : x.isNaN = false ∧ y.isNaN = false := by
  have hlt := lt_iff_unpacked.mp h
  refine isNaN_of_compare fun hnone => ?_
  simp [UnpackedFloat.lt, hnone] at hlt

theorem le_iff : x ≤ y ↔ ¬y < x ∧ x.isNaN = false ∧ y.isNaN = false := by
  have hle : x ≤ y ↔ x.toFloat.toModel.unpack.le y.toFloat.toModel.unpack = true :=
    decide_eq_true_iff
  rw [hle, lt_iff_unpacked, unpacked_le_iff, Bool.not_eq_true, ne_eq, ne_eq,
    unpack_toFloat_eq_notANumber_iff, unpack_toFloat_eq_notANumber_iff, Bool.not_eq_true,
    Bool.not_eq_true]

-- ---------------------------------------------------------------------------
-- Equality
-- ---------------------------------------------------------------------------

theorem isNaN_of_beq (h : (x == y) = true) : x.isNaN = false ∧ y.isNaN = false := by
  have hbeq : x.toFloat.toModel.unpack.beq y.toFloat.toModel.unpack = true := h
  refine isNaN_of_compare fun hnone => ?_
  simp [UnpackedFloat.beq, hnone] at hbeq

theorem beq_self_iff : (x == x) = true ↔ x.isNaN = false := by
  constructor
  · exact fun h => (isNaN_of_beq h).1
  · intro h
    refine compare_self fun hnan => ?_
    rw [unpack_toFloat_eq_notANumber_iff.mp hnan] at h
    cases h

end TradingRules.Double
