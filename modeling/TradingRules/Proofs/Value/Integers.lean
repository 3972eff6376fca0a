import TradingRules.Eval.Operators

/-!
# Comparing integers

The relational operators compare two integers exactly, however large they are.
-/

namespace TradingRules.BinaryOp

variable {a b : Int64}

theorem lt_apply_int (a b : Int64) : BinaryOp.lt.apply (.int a) (.int b) = .ok (.bool (a < b)) := by
  have horder : ((compare a b == .lt) : Bool) = decide (a < b) := by
    rw [Bool.eq_iff_iff, beq_iff_eq, decide_eq_true_iff, Std.compare_eq_lt]
  simp only [apply, relate, Value.order?, horder]

theorem gt_apply_int (a b : Int64) : BinaryOp.gt.apply (.int a) (.int b) = .ok (.bool (b < a)) := by
  have horder : ((compare a b == .gt) : Bool) = decide (b < a) := by
    rw [Bool.eq_iff_iff, beq_iff_eq, decide_eq_true_iff, Std.compare_eq_gt]
  simp only [apply, relate, Value.order?, horder]

theorem ge_apply_int (a b : Int64) : BinaryOp.ge.apply (.int a) (.int b) = .ok (.bool (b ≤ a)) := by
  have horder : ((compare a b != .lt) : Bool) = decide (b ≤ a) := by
    rw [Bool.eq_iff_iff, bne_iff_ne, ne_eq, decide_eq_true_iff, ← Ordering.isGE_iff_ne_lt, Std.isGE_compare]
  simp only [apply, relate, Value.order?, horder]

theorem eq_apply_int (a b : Int64) : BinaryOp.eq.apply (.int a) (.int b) = .ok (.bool (a == b)) := by
  simp only [apply, Value.looseEq]

end TradingRules.BinaryOp
