import TradingRules.Eval.Operators

/-!
# Computations with a verdict

A computation that may fail has a verdict, if only an error, unless it aborts. An operation with a
domain has one inside that domain; the operators of the language stay inside.
-/

namespace TradingRules

variable {α β : Type} {xs : List α} {i start stop : Nat}

def HasVerdict (x : Except Failure α) : Prop := x ≠ .error .abort

@[simp] theorem hasVerdict_ok {a : α} : HasVerdict (.ok a) := nofun

@[simp] theorem hasVerdict_pure {a : α} : HasVerdict (pure a) := nofun

@[simp] theorem hasVerdict_error {e : Failure} :
    HasVerdict (.error e : Except Failure α) ↔ e ≠ .abort := by
  simp [HasVerdict]

@[simp] theorem hasVerdict_throw {e : Failure} :
    HasVerdict (throw e : Except Failure α) ↔ e ≠ .abort :=
  hasVerdict_error

@[simp] theorem hasVerdict_bind {x : Except Failure α} {f : α → Except Failure β} :
    HasVerdict (x >>= f) ↔ HasVerdict x ∧ ∀ a, x = .ok a → HasVerdict (f a) := by
  cases x <;> simp [HasVerdict, bind, Except.bind]

@[simp] theorem hasVerdict_map {x : Except Failure α} {f : α → β} :
    HasVerdict (x.map f) ↔ HasVerdict x := by
  cases x <;> simp [HasVerdict, Except.map]

@[simp] theorem hasVerdict_fmap {x : Except Failure α} {f : α → β} :
    HasVerdict (f <$> x) ↔ HasVerdict x :=
  hasVerdict_map

@[simp] theorem hasVerdict_ite {c : Prop} [Decidable c] {x y : Except Failure α} :
    HasVerdict (if c then x else y) ↔ (c → HasVerdict x) ∧ (¬c → HasVerdict y) := by
  split <;> simp_all

-- ---------------------------------------------------------------------------
-- Operations with a domain
-- ---------------------------------------------------------------------------

namespace Strict

@[simp] theorem hasVerdict_item : HasVerdict (item xs i) ↔ i < xs.length := by
  unfold item
  split
  · rename_i x hx
    exact iff_of_true hasVerdict_ok (List.getElem?_eq_some_iff.mp hx).1
  · rename_i hnone
    exact iff_of_false (by simp) (Nat.not_lt.mpr (List.getElem?_eq_none_iff.mp hnone))

@[simp] theorem hasVerdict_part : HasVerdict (part xs start stop) ↔ start ≤ stop ∧ stop ≤ xs.length := by
  simp [part]

@[simp] theorem hasVerdict_rest : HasVerdict (rest xs start) ↔ start ≤ xs.length := by
  simp [rest]

@[simp] theorem hasVerdict_quotient {a b : Int64} :
    HasVerdict (quotient a b) ↔ b ≠ 0 ∧ (a = Int64.minValue → b ≠ -1) := by
  simp [quotient]

@[simp] theorem hasVerdict_clamp {x low high : Double} : HasVerdict (clamp x low high) ↔ low ≤ high := by
  simp [clamp]

end Strict

-- ---------------------------------------------------------------------------
-- The operators of the language
-- ---------------------------------------------------------------------------

theorem UnaryOp.hasVerdict_apply (op : UnaryOp) (v : Value) : HasVerdict (op.apply v) := by
  fun_cases UnaryOp.apply op v with
  | case3 i =>
    unfold apply.exactly
    split <;> simp
  | _ => simp

namespace BinaryOp

variable (op : BinaryOp) (l r : Value)

@[simp] theorem hasVerdict_exactly (i : Int) : HasVerdict (op.exactly i) := by
  unfold exactly
  split <;> simp

@[simp] theorem hasVerdict_mismatch (expected : String) : HasVerdict (op.mismatch expected l r) := by
  simp [mismatch]

@[simp] theorem hasVerdict_onDoubles {f : Double → Double → Except Failure Value}
    (hf : ∀ x y, HasVerdict (f x y)) : HasVerdict (op.onDoubles l r f) := by
  unfold onDoubles
  split
  · exact hf _ _
  · simp

@[simp] theorem hasVerdict_relate (holds : Ordering → Bool) : HasVerdict (op.relate holds l r) := by
  unfold relate
  split <;> simp

@[simp] theorem hasVerdict_contained : HasVerdict (op.contained l r) := by
  unfold contained
  split <;> simp

@[simp] theorem hasVerdict_divided (whole : Int → Int → Int) (real : Double → Double → Double) :
    HasVerdict (op.divided whole real l r) := by
  unfold divided
  split
  · simp
  · simp

theorem hasVerdict_apply : HasVerdict (op.apply l r) := by
  cases op with
  | add => unfold apply; dsimp only; split <;> simp
  | sub => unfold apply; dsimp only; split <;> simp
  | mul => unfold apply; dsimp only; split <;> simp
  | and => unfold apply; dsimp only; split <;> simp
  | or => unfold apply; dsimp only; split <;> simp
  | _ => simp [apply]

end BinaryOp

namespace Value

theorem lt_of_resolveIndex? {length place : Nat} {i : Int64}
    (h : resolveIndex? length i = some place) : place < length := by
  unfold resolveIndex? at h
  generalize (if i < 0 then length + i.toInt else i.toInt) = position at h
  simp only [Option.ite_none_right_eq_some, Option.some.injEq] at h
  omega

theorem hasVerdict_index (base key : Value) : HasVerdict (base.index key) := by
  unfold index
  split
  · split
    · rename_i hplace
      exact Strict.hasVerdict_item.mpr (lt_of_resolveIndex? hplace)
    · simp [outOfRange]
  · split <;> simp
  · dsimp only
    split
    · rename_i hplace
      simp [lt_of_resolveIndex? hplace]
    · simp [outOfRange]
  · simp

end Value

end TradingRules
