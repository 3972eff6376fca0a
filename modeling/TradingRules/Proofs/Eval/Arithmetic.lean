import TradingRules.Builtin.Library
import TradingRules.Proofs.Eval.Runs

/-!
# Arithmetic on integers

An operator on two integers yields the mathematical result if it fits into 64 bits and is refused
otherwise; a zero divisor has a refusal of its own. One pair of operands is an exception: the remainder of
the least integer by minus one is zero, but it is refused as its quotient is (`integer_arithmetic_iff`).
-/

namespace TradingRules

-- ---------------------------------------------------------------------------
-- Mathematical results
-- ---------------------------------------------------------------------------

/-- The quotient truncated toward zero, and the remainder, which has the sign of the dividend. -/
structure Truncates (a b quotient remainder : Int) : Prop where
  parts : a = b * quotient + remainder
  small : remainder.natAbs < b.natAbs
  nonneg : 0 ≤ a → 0 ≤ remainder
  nonpos : a ≤ 0 → remainder ≤ 0

/-- The mathematical results of an operator on two integers: none for a zero divisor, else one. -/
inductive BinaryOp.Results : BinaryOp → Int → Int → Int → Prop
  | add {a b} : Results .add a b (a + b)
  | sub {a b} : Results .sub a b (a - b)
  | mul {a b} : Results .mul a b (a * b)
  | div {a b q r} (h : Truncates a b q r) : Results .div a b q
  | rem {a b q r} (h : Truncates a b q r) : Results .rem a b r

theorem truncates_tdiv_tmod {a b : Int} (hb : b ≠ 0) : Truncates a b (a.tdiv b) (a.tmod b) where
  parts := (Int.mul_tdiv_add_tmod a b).symm
  small := by
    rw [Int.natAbs_tmod]
    exact Nat.mod_lt _ (Int.natAbs_pos.mpr hb)
  nonneg := Int.tmod_nonneg b
  nonpos ha := by
    have hneg := Int.tmod_nonneg b (Int.neg_nonneg_of_nonpos ha)
    rw [Int.neg_tmod] at hneg
    omega

theorem Truncates.divisor_ne {a b q r : Int} (h : Truncates a b q r) : b ≠ 0 := by
  have hsmall := h.small
  omega

theorem Truncates.unique {a b q r : Int} (h : Truncates a b q r) : q = a.tdiv b ∧ r = a.tmod b := by
  have hparts : r + b * q = a := (Int.add_comm r (b * q)).trans h.parts.symm
  have hsmall := h.small
  rcases Int.le_total 0 a with ha | ha
  · have hr := h.nonneg ha
    obtain ⟨hq, hm⟩ := (Int.tdiv_tmod_unique ha h.divisor_ne).mpr ⟨hparts, hr, by omega⟩
    exact ⟨hq.symm, hm.symm⟩
  · have hr := h.nonpos ha
    obtain ⟨hq, hm⟩ := (Int.tdiv_tmod_unique' ha h.divisor_ne).mpr ⟨hparts, by omega, hr⟩
    exact ⟨hq.symm, hm.symm⟩

theorem results_div_iff {a b q : Int} : BinaryOp.Results .div a b q ↔ b ≠ 0 ∧ q = a.tdiv b := by
  constructor
  · intro h
    cases h with
    | div h => exact ⟨h.divisor_ne, h.unique.1⟩
  · rintro ⟨hb, rfl⟩
    exact .div (truncates_tdiv_tmod hb)

theorem results_rem_iff {a b r : Int} : BinaryOp.Results .rem a b r ↔ b ≠ 0 ∧ r = a.tmod b := by
  constructor
  · intro h
    cases h with
    | rem h => exact ⟨h.divisor_ne, h.unique.2⟩
  · rintro ⟨hb, rfl⟩
    exact .rem (truncates_tdiv_tmod hb)

-- ---------------------------------------------------------------------------
-- Integers of 64 bits
-- ---------------------------------------------------------------------------

namespace Decimal

theorem int64?_eq_some_iff {i : Int} {n : Int64} : int64? i = some n ↔ n.toInt = i := by
  have hpower : (twoTo 63 : Int) = 2 ^ 63 := rfl
  simp only [int64?, inInt64, hpower, Option.ite_none_right_eq_some, Option.some.injEq, Bool.and_eq_true,
    decide_eq_true_eq]
  constructor
  · rintro ⟨⟨hlow, hhigh⟩, rfl⟩
    exact Int64.toInt_ofInt_of_le hlow hhigh
  · rintro rfl
    exact ⟨⟨n.le_toInt, n.toInt_lt⟩, Int64.ofInt_toInt n⟩

theorem int64?_eq_none_iff {i : Int} : int64? i = none ↔ ∀ n : Int64, n.toInt ≠ i := by
  simp only [Option.eq_none_iff_forall_ne_some, ne_eq, int64?_eq_some_iff]

/-- A quotient fits, unless it is that of the least integer by minus one. -/
theorem exists_int64_tdiv {a b : Int64} (h : ¬(a = Int64.minValue ∧ b = -1)) :
    ∃ n : Int64, n.toInt = a.toInt.tdiv b.toInt := by
  have hlow := a.le_toInt
  have hhigh := a.toInt_lt
  have hle := Int.natAbs_tdiv_le_natAbs a.toInt b.toInt
  suffices hlt : a.toInt.tdiv b.toInt < 2 ^ 63 from ⟨_, Int64.toInt_ofInt_of_le (by omega) hlt⟩
  by_cases hb : b.toInt = -1
  · have hmin : a.toInt ≠ -2 ^ 63 := fun hmin => h ⟨Int64.toInt_inj.mp hmin, Int64.toInt_inj.mp hb⟩
    rw [hb, Int.tdiv_neg, Int.tdiv_one]
    omega
  -- another divisor gives less than the dividend, or the quotient is no greater than zero
  rcases Nat.lt_or_ge b.toInt.natAbs 2 with hsmall | hlarge
  · have hcases : b.toInt = 0 ∨ b.toInt = 1 := by omega
    rcases hcases with hb | hb <;> rw [hb]
    · rw [Int.tdiv_zero]
      decide
    · rwa [Int.tdiv_one]
  · have hhalf : (a.toInt.tdiv b.toInt).natAbs ≤ a.toInt.natAbs / 2 := by
      rw [Int.natAbs_tdiv]
      exact Nat.div_le_div_left hlarge (by decide)
    omega

end Decimal

-- ---------------------------------------------------------------------------
-- Operators
-- ---------------------------------------------------------------------------

def overflow (symbol : String) : Failure := .typeMismatch symbol "result within int64 range" "overflow"

/-- The answer is the integer that is a result if one of 64 bits is, and an overflow exactly if a result
is none of 64 bits. -/
structure IsExact (symbol : String) (result : Int → Prop) (answer : Except Failure Value) : Prop where
  value : ∀ n : Int64, result n.toInt → answer = .ok (.int n)
  overflow_iff : answer = .error (overflow symbol) ↔ ∃ i, result i ∧ ∀ n : Int64, n.toInt ≠ i

theorem isExact_of_int64? {symbol : String} {i : Int} {answer : Except Failure Value}
    (h : answer = match Decimal.int64? i with
      | some n => .ok (.int n)
      | none => .error (overflow symbol)) : IsExact symbol (· = i) answer := by
  subst h
  constructor
  · rintro n hn
    rw [Decimal.int64?_eq_some_iff.mpr hn]
  · rw [exists_eq_left, ← Decimal.int64?_eq_none_iff]
    cases Decimal.int64? i <;> simp

theorem negate_isExact (a : Int64) : IsExact "-" (· = -a.toInt) (UnaryOp.negate.apply (.int a)) :=
  isExact_of_int64? rfl

namespace BinaryOp

structure AnswersIntegers (op : BinaryOp) (a b : Int64) (answer : Except Failure Value) : Prop where
  divisionByZero_iff : answer = .error .divisionByZero ↔ op ∈ [.div, .rem] ∧ b = 0
  result_of_ok : ∀ v, answer = .ok v → ∃ n, v = .int n ∧ op.Results a.toInt b.toInt n.toInt
  isExact_iff : IsExact op.symbol (op.Results a.toInt b.toInt) answer ↔
    ¬(op = .rem ∧ a = Int64.minValue ∧ b = -1)

variable {op : BinaryOp} {a b : Int64} {i : Int} {answer : Except Failure Value}

theorem exactly_eq_ok_iff {v : Value} : op.exactly i = .ok v ↔ ∃ n : Int64, n.toInt = i ∧ v = .int n := by
  simp only [← Decimal.int64?_eq_some_iff, exactly]
  cases Decimal.int64? i <;> simp [eq_comm]

theorem exactly_ne_divisionByZero : op.exactly i ≠ .error .divisionByZero := by
  rw [exactly]
  cases Decimal.int64? i <;> simp

theorem answersIntegers_of_exactly (hanswer : answer = op.exactly i)
    (hresult : ∀ j, op.Results a.toInt b.toInt j ↔ j = i) (hzero : ¬(op ∈ [.div, .rem] ∧ b = 0))
    (hleast : ¬(op = .rem ∧ a = Int64.minValue ∧ b = -1)) : op.AnswersIntegers a b answer := by
  subst hanswer
  refine ⟨iff_of_false exactly_ne_divisionByZero hzero, fun v hv => ?_, iff_of_true ?_ hleast⟩
  · obtain ⟨n, hn, rfl⟩ := exactly_eq_ok_iff.mp hv
    exact ⟨n, rfl, (hresult _).mpr hn⟩
  · have hresults : op.Results a.toInt b.toInt = (· = i) := funext fun j => propext (hresult j)
    rw [hresults]
    exact isExact_of_int64? rfl

theorem answersIntegers_zero (hop : op ∈ [.div, .rem]) :
    op.AnswersIntegers a 0 (.error .divisionByZero) := by
  have hnone : ∀ i, ¬op.Results a.toInt (0 : Int64).toInt i := by
    intro i h
    cases h with
    | div h | rem h => exact h.divisor_ne rfl
    | _ => simp at hop
  refine ⟨iff_of_true rfl ⟨hop, rfl⟩, nofun, iff_of_true ⟨fun n hn => absurd hn (hnone _), ?_⟩ ?_⟩
  · exact iff_of_false nofun fun ⟨i, hi, _⟩ => hnone i hi
  · rintro ⟨-, -, hzero⟩
    cases hzero

/-- The remainder of the least integer by minus one is zero, and it is refused. -/
theorem answersIntegers_least :
    AnswersIntegers .rem Int64.minValue (-1) (.error (overflow BinaryOp.rem.symbol)) := by
  refine ⟨iff_of_false nofun (by decide), nofun, iff_of_false (fun hexact => ?_) (by decide)⟩
  have hzero : Results .rem Int64.minValue.toInt (-1 : Int64).toInt (0 : Int64).toInt :=
    results_rem_iff.mpr ⟨by decide, by decide⟩
  cases hexact.value 0 hzero

theorem divided_int {whole : Int → Int → Int} {real : Double → Double → Double} (hb : b ≠ 0) :
    divided op whole real (.int a) (.int b) =
      op.exactly (a.toInt.tdiv b.toInt) >>= fun _ => op.exactly (whole a.toInt b.toInt) := by
  rw [divided, if_neg hb]

theorem toInt_ne_zero (hb : b ≠ 0) : b.toInt ≠ 0 := fun h => hb (Int64.toInt_inj.mp h)

theorem div_apply_int (hb : b ≠ 0) :
    BinaryOp.div.apply (.int a) (.int b) = BinaryOp.div.exactly (a.toInt.tdiv b.toInt) := by
  rw [apply, divided_int hb]
  cases BinaryOp.div.exactly (a.toInt.tdiv b.toInt) <;> rfl

theorem rem_apply_int (hb : b ≠ 0) (hleast : ¬(a = Int64.minValue ∧ b = -1)) :
    BinaryOp.rem.apply (.int a) (.int b) = BinaryOp.rem.exactly (a.toInt.tmod b.toInt) := by
  obtain ⟨n, hn⟩ := Decimal.exists_int64_tdiv hleast
  have hquotient : BinaryOp.rem.exactly (a.toInt.tdiv b.toInt) = .ok (.int n) :=
    exactly_eq_ok_iff.mpr ⟨n, hn, rfl⟩
  rw [apply, divided_int hb, hquotient]
  rfl

theorem apply_answersIntegers (hop : op ∈ [.add, .sub, .mul, .div, .rem]) (a b : Int64) :
    op.AnswersIntegers a b (op.apply (.int a) (.int b)) := by
  simp only [List.mem_cons, List.not_mem_nil, or_false] at hop
  rcases hop with rfl | rfl | rfl | rfl | rfl
  · refine answersIntegers_of_exactly (i := a.toInt + b.toInt) rfl (fun j => ?_) (by simp) (by simp)
    exact ⟨fun h => by cases h; rfl, fun h => h ▸ .add⟩
  · refine answersIntegers_of_exactly (i := a.toInt - b.toInt) rfl (fun j => ?_) (by simp) (by simp)
    exact ⟨fun h => by cases h; rfl, fun h => h ▸ .sub⟩
  · refine answersIntegers_of_exactly (i := a.toInt * b.toInt) rfl (fun j => ?_) (by simp) (by simp)
    exact ⟨fun h => by cases h; rfl, fun h => h ▸ .mul⟩
  · by_cases hb : b = 0
    · subst hb
      exact answersIntegers_zero (by simp)
    · refine answersIntegers_of_exactly (div_apply_int hb) (fun j => ?_) (by simp [hb]) (by simp)
      simp [results_div_iff, toInt_ne_zero hb]
  · by_cases hb : b = 0
    · subst hb
      exact answersIntegers_zero (by simp)
    by_cases hleast : a = Int64.minValue ∧ b = -1
    · obtain ⟨rfl, rfl⟩ := hleast
      exact answersIntegers_least
    · refine answersIntegers_of_exactly (rem_apply_int hb hleast) (fun j => ?_) (by simp [hb]) (by simp [hleast])
      simp [results_rem_iff, toInt_ne_zero hb]

end BinaryOp

-- ---------------------------------------------------------------------------
-- Evaluation
-- ---------------------------------------------------------------------------

namespace Eval

variable {σ : Type} [RegimeHost σ] {registry : Registry} {context : Context} {scope : Scope} {l r : Expr}
  {v w : Value} {host next last : Option σ}

theorem outcome_unary (hl : (eval registry context scope l : Run σ Value).Yields host v next) (op : UnaryOp) :
    (eval registry context scope (.unary op l) : Run σ Value).outcome host = (op.apply v, next) := by
  have hvalue : (eval registry context scope l : Run σ Value).outcome host = (.ok v, next) := hl
  simp only [eval, Run.outcome_bind, hvalue, Run.outcome_ofExcept]

theorem outcome_binary {op : BinaryOp} (hand : op ≠ .and) (hor : op ≠ .or)
    (hl : (eval registry context scope l : Run σ Value).Yields host v next)
    (hr : (eval registry context scope r).Yields next w last) :
    (eval registry context scope (.binary op l r) : Run σ Value).outcome host = (op.apply v w, last) := by
  have hleft : (eval registry context scope l : Run σ Value).outcome host = (.ok v, next) := hl
  have hright : (eval registry context scope r : Run σ Value).outcome next = (.ok w, last) := hr
  cases op with
  | and => exact absurd rfl hand
  | or => exact absurd rfl hor
  | _ => simp only [eval, Run.outcome_bind, hleft, hright, Run.outcome_ofExcept]

/-- Operands that yield integers are negated, added, subtracted, multiplied and divided exactly or refused,
except for the remainder of the least integer by minus one. -/
theorem integer_arithmetic_iff {a b : Int64}
    (hl : (eval registry context scope l : Run σ Value).Yields host (.int a) next)
    (hr : (eval registry context scope r).Yields next (.int b) last) :
    (∃ answer, (eval registry context scope (.unary .negate l) : Run σ Value).outcome host = (answer, next) ∧
      IsExact "-" (· = -a.toInt) answer) ∧
    ∀ op ∈ [BinaryOp.add, .sub, .mul, .div, .rem], ∃ answer,
      (eval registry context scope (.binary op l r) : Run σ Value).outcome host = (answer, last) ∧
        op.AnswersIntegers a b answer := by
  refine ⟨⟨_, outcome_unary hl .negate, negate_isExact a⟩, fun op hop => ?_⟩
  refine ⟨_, outcome_binary ?_ ?_ hl hr, BinaryOp.apply_answersIntegers hop a b⟩
  · rintro rfl
    simp at hop
  · rintro rfl
    simp at hop

def extremeIntegers : Context :=
  ⟨[("least", .int Int64.minValue), ("loss", .int (-7)), ("one", .int (-1)), ("two", .int 2)], ⟨1700000000, 0⟩⟩

/-- A loss of seven shared by two. -/
theorem integer_arithmetic_iff_loss :
    let run (e : Expr) : Run FixedHost Value := eval Registry.builtins extremeIntegers [] e
    (run (.ident "loss")).Yields none (.int (-7)) none ∧ (run (.ident "two")).Yields none (.int 2) none ∧
      (run (.binary .div (.ident "loss") (.ident "two"))).outcome none = (.ok (.int (-3)), none) ∧
      (run (.binary .rem (.ident "loss") (.ident "two"))).outcome none = (.ok (.int (-1)), none) := by
  intro run
  have hloss : (run (.ident "loss")).Yields none (.int (-7)) none := rfl
  have htwo : (run (.ident "two")).Yields none (.int 2) none := rfl
  obtain ⟨-, hanswers⟩ := integer_arithmetic_iff hloss htwo
  have hparts : Truncates (-7) 2 (-3) (-1) := ⟨rfl, by decide, by decide, by decide⟩
  refine ⟨hloss, htwo, ?_, ?_⟩
  · obtain ⟨answer, hanswer, hdiv⟩ := hanswers .div (by decide)
    rw [hanswer, (hdiv.isExact_iff.mpr (by decide)).value (-3) (.div hparts)]
  · obtain ⟨answer, hanswer, hrem⟩ := hanswers .rem (by decide)
    rw [hanswer, (hrem.isExact_iff.mpr (by decide)).value (-1) (.rem hparts)]

/-- The least integer leaves no remainder by minus one, and zero has 64 bits; the answer is an overflow. -/
theorem remainder_of_least :
    BinaryOp.Results .rem Int64.minValue.toInt (-1 : Int64).toInt (0 : Int64).toInt ∧
      ((eval Registry.builtins extremeIntegers [] (.binary .rem (.ident "least") (.ident "one")) :
        Run FixedHost Value).outcome none).1 = .error (overflow "%") := by
  have hparts : Truncates Int64.minValue.toInt (-1 : Int64).toInt (2 ^ 63) (0 : Int64).toInt :=
    ⟨by decide, by decide, by decide, by decide⟩
  exact ⟨.rem hparts, rfl⟩

end Eval

end TradingRules
