import TradingRules.Proofs.Double.Comparing

/-!
# Operations and NaNs

An operation on a NaN gives a NaN, the left one of two. An operation on numbers gives a NaN only where the
machine's own model has one, so that one divided by a number is a number (`isNaN_one_div`).
-/

namespace TradingRules.Double

open Float.Model (UnpackedFloat Format)
open Float.Model.UnpackedFloat

variable {x y : Double} {u v : UnpackedFloat}

-- ---------------------------------------------------------------------------
-- Operations on NaNs
-- ---------------------------------------------------------------------------

theorem map₂_of_isNaN (f : Float → Float → Float) (hx : x.isNaN = true) (y : Double) : map₂ f x y = x :=
  if_pos hx

theorem isNaN_map₂_of_right (f : Float → Float → Float) (x : Double) (hy : y.isNaN = true) :
    (map₂ f x y).isNaN = true := by
  rw [map₂, if_pos hy]
  split <;> assumption

theorem map₂_of_numbers (f : Float → Float → Float) (hx : x.isNaN = false) (hy : y.isNaN = false) :
    map₂ f x y = ofFloat (f x.toFloat y.toFloat) := by
  rw [map₂, if_neg (by simp [hx]), if_neg (by simp [hy])]

theorem add_of_isNaN (hx : x.isNaN = true) (y : Double) : x + y = x := map₂_of_isNaN _ hx y

theorem sub_of_isNaN (hx : x.isNaN = true) (y : Double) : x - y = x := map₂_of_isNaN _ hx y

theorem div_of_isNaN (hx : x.isNaN = true) (y : Double) : x / y = x := map₂_of_isNaN _ hx y

theorem isNaN_add_of_right (x : Double) (hy : y.isNaN = true) : (x + y).isNaN = true :=
  isNaN_map₂_of_right _ x hy

-- ---------------------------------------------------------------------------
-- Results that are numbers
-- ---------------------------------------------------------------------------

theorem isNaNBits_pack (h : u ≠ .notANumber) :
    isNaNBits (UnpackedFloat.pack Format.binary64 u) = false := by
  rw [isNaNBits, decide_eq_false_iff_not]
  fun_cases UnpackedFloat.pack Format.binary64 u with
  | case1 => exact absurd rfl h
  | case2 s => simp [packedInfinity]
  | case3 s => simp [packedZero]
  | case4 s n e hn biased hoverflow => simp [packedInfinity]
  | case5 s n e hn bits biased hfits hnormal =>
    have hfield : BitVec.ofNat 11 biased ≠ -1#11 := by
      intro heq
      have hvalue : biased % 2 ^ 11 = 2047 := congrArg BitVec.toNat heq
      have hlt : biased + 1 < 2 ^ 11 := Nat.not_le.mp hfits
      omega
    rw [unpackExponent_packComponents]
    exact fun hnan => hfield hnan.1
  | case6 s n e hn biased bits hfits hsubnormal => simp

theorem isNaN_packed (h : u ≠ .notANumber) :
    (⟨(Float.Model.pack u).toBits⟩ : Double).isNaN = false := by
  rw [← isNaNBits_word]
  exact isNaNBits_pack h

theorem unpack_pack_ne (h : u ≠ .notANumber) : (Float.Model.pack u).unpack ≠ .notANumber :=
  mt (unpack_word_eq_notANumber_iff (x := ⟨(Float.Model.pack u).toBits⟩)).mp (by simp [isNaN_packed h])

theorem ofFloat_of_number {f : Float} (h : f.toModel.unpack ≠ .notANumber) : ofFloat f = ⟨f.toBits⟩ := by
  have hnumber : f.toModel.unpack.isNaN = false := by
    cases heq : f.toModel.unpack <;> first | rfl | exact absurd heq h
  have hfloat : f.isNaN = false := hnumber
  rw [ofFloat, hfloat]
  rfl

theorem isNaN_ofFloat {f : Float} (hf : f.toModel = Float.Model.pack u) (hu : u ≠ .notANumber) :
    (ofFloat f).isNaN = false := by
  rw [ofFloat_of_number (hf ▸ unpack_pack_ne hu), Float.toBits, hf]
  exact isNaN_packed hu

theorem roundWithAccuracy_ne (s : Sign) (n : Nat) (e : Int) (a : Accuracy) :
    roundWithAccuracy Format.binary64 s n e a ≠ .notANumber := by
  unfold roundWithAccuracy
  simp only
  split <;> exact nofun

theorem normalize_ne (k e : Int) (s : Sign) :
    UnpackedFloat.normalize Format.binary64 k e s ≠ .notANumber := by
  unfold UnpackedFloat.normalize
  split
  · exact roundWithAccuracy_ne _ _ _ _
  · exact nofun
  · exact roundWithAccuracy_ne _ _ _ _

theorem div_finite_ne (s : Sign) (n : Nat) (e : Int) (hn : 0 < n) (hv : v ≠ .notANumber) :
    UnpackedFloat.div Format.binary64 (.finite s n e hn) v ≠ .notANumber := by
  cases v with
  | notANumber => exact absurd rfl hv
  | finite => exact roundWithAccuracy_ne _ _ _ _
  | _ => exact nofun

theorem mul_finite_ne (s : Sign) (n : Nat) (e : Int) (hn : 0 < n) (hu : u ≠ .notANumber) :
    UnpackedFloat.mul Format.binary64 u (.finite s n e hn) ≠ .notANumber := by
  cases u with
  | notANumber => exact absurd rfl hu
  | finite => exact roundWithAccuracy_ne _ _ _ _
  | _ => exact nofun

theorem isNaN_ofNat (n : Nat) : (ofNat n).isNaN = false := by
  by_cases hsmall : n < 2 ^ 53
  · have hproduct : Float.ofNat n = n.toUInt64.toFloat * Float.exactlyRepresentablePowersOfTen[0] :=
      dif_pos ⟨hsmall, by decide⟩
    have hone : (Float.exactlyRepresentablePowersOfTen[0]).toModel.unpack =
        .finite .positive (2 ^ 52) (-52) (by decide) := rfl
    have hwhole : n.toUInt64.toFloat.toModel.unpack ≠ .notANumber :=
      unpack_pack_ne (normalize_ne (n.toUInt64.toNat : Int) 0 .positive)
    rw [ofNat, hproduct]
    refine isNaN_ofFloat rfl ?_
    rw [hone]
    exact mul_finite_ne _ _ _ _ hwhole
  · have hscientific : Float.ofNat n = .ofModel (Float.Model.ofScientific n 0) :=
      dif_neg fun h => hsmall h.1
    rw [ofNat, hscientific]
    refine isNaN_ofFloat rfl ?_
    unfold UnpackedFloat.ofScientific
    split_ifs
    · exact nofun
    · exact nofun
    · exact nofun
    · exact mul_finite_ne _ _ _ _ nofun
    · exact div_finite_ne _ _ _ _ nofun

theorem isNaN_one_div (hy : y.isNaN = false) : (1 / y).isNaN = false := by
  have hone : (1 : Double).toFloat.toModel.unpack = .finite .positive (2 ^ 52) (-52) (by decide) := rfl
  have hquotient : (map₂ (· / ·) 1 y).isNaN = false := by
    rw [map₂_of_numbers _ (by decide) hy]
    refine isNaN_ofFloat rfl ?_
    rw [hone]
    exact div_finite_ne _ _ _ _ (mt unpack_toFloat_eq_notANumber_iff.mp (by simp [hy]))
  exact hquotient

end TradingRules.Double
