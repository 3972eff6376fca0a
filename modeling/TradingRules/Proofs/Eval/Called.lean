import TradingRules.Proofs.Eval.Visits
import TradingRules.Expr.Names

/-!
# The functions an evaluation calls

Every call that an evaluation makes stands in the expression (`Makes.mem_calls`), and an evaluation asks
the registry for nothing but the functions whose calls stand there (`eval_same_functions`).
-/

namespace TradingRules

open TradingRules.Expr (calls callsAll)

theorem Expr.callsAll_append (before after : List Expr) :
    callsAll (before ++ after) = callsAll before ++ callsAll after := by
  induction before with
  | nil => rfl
  | cons e rest ih => simp [callsAll, ih]

/-- The two registries have the same functions under the names, or none. -/
def SameFunctions (r₁ r₂ : Registry) (names : List String) : Prop :=
  ∀ name ∈ names, Dict.find? name r₁ = Dict.find? name r₂

section
variable {r₁ r₂ : Registry} {names names' : List String} {name : String}

theorem SameFunctions.left (h : SameFunctions r₁ r₂ (names ++ names')) : SameFunctions r₁ r₂ names :=
  fun n hn => h n (List.mem_append_left names' hn)

theorem SameFunctions.right (h : SameFunctions r₁ r₂ (names ++ names')) :
    SameFunctions r₁ r₂ names' :=
  fun n hn => h n (List.mem_append_right names hn)

theorem SameFunctions.tail (h : SameFunctions r₁ r₂ (name :: names)) : SameFunctions r₁ r₂ names :=
  fun n hn => h n (List.mem_cons_of_mem name hn)

theorem Registry.call_same_function {σ : Type} [RegimeHost σ] (h : Dict.find? name r₁ = Dict.find? name r₂)
    (context : Context) (args : List Value) :
    (r₁.call context name args : Run σ Value) = r₂.call context name args := by
  rw [call, call, h]

end

namespace Eval

variable {σ : Type} [RegimeHost σ] {registry r₁ r₂ : Registry} {context : Context} {p q : Point σ}

theorem Starts.calls_subset (h : Starts registry context p q) : q.expr.calls ⊆ p.expr.calls := by
  intro name hname
  cases h with
  | argument => simp_all [calls, callsAll, Expr.callsAll_append]
  | item => simp_all [calls, callsAll, Expr.callsAll_append]
  | @branch _ condition yes no _ b =>
    cases b
    · exact List.mem_append_right _ hname
    · exact List.mem_append_left _ (List.mem_append_right _ hname)
  | _ => simp_all [calls]

theorem Makes.mem_calls {function : String} {values : List Value} {host : Option σ}
    (h : Makes registry context p function values host) : function ∈ p.expr.calls := by
  obtain ⟨hvisits, -⟩ := h
  induction hvisits using Relation.ReflTransGen.head_induction_on with
  | refl => exact List.mem_cons_self
  | head hstarts _ ih => exact hstarts.calls_subset ih

mutual

/-- The functions of other names do not matter to an evaluation. -/
theorem eval_same_functions : ∀ (scope : Scope) (e : Expr), SameFunctions r₁ r₂ e.calls →
    (eval r₁ context scope e : Run σ Value) = eval r₂ context scope e
  | _, .literal _, _ | _, .ident _, _ => by simp only [eval]
  | scope, .member target field, h => by simp only [eval, eval_same_functions scope target h]
  | scope, .index target key, h => by
    simp only [eval, eval_same_functions scope target h.left, eval_same_functions scope key h.right]
  | scope, .call function args, h => by
    have hcall := Registry.call_same_function (σ := σ) (h function List.mem_cons_self) context
    simp only [eval, evalAll_same_functions scope args h.tail, hcall]
  | scope, .unary op operand, h => by simp only [eval, eval_same_functions scope operand h]
  | scope, .binary op left right, h => by
    have hleft := eval_same_functions scope left h.left
    have hright := eval_same_functions scope right h.right
    cases op <;> simp only [eval, hleft, hright]
  | scope, .ternary condition yes no, h => by
    simp only [eval, eval_same_functions scope condition h.left.left,
      eval_same_functions scope yes h.left.right, eval_same_functions scope no h.right]
  | scope, .list items, h => by simp only [eval, evalAll_same_functions scope items h]
  | scope, .comprehension kind range var body, h => by
    have hbody (item : Value) : (eval r₁ context ((var, item) :: scope) body : Run σ Value) =
        eval r₂ context ((var, item) :: scope) body :=
      eval_same_functions ((var, item) :: scope) body h.tail.right
    simp only [eval, eval_same_functions scope range h.tail.left, hbody]
  | scope, .has target, h => by simp only [eval, eval_same_functions scope target h.tail]

theorem evalAll_same_functions : ∀ (scope : Scope) (items : List Expr),
    SameFunctions r₁ r₂ (callsAll items) →
      (evalAll r₁ context scope items : Run σ (List Value)) = evalAll r₂ context scope items
  | _, [], _ => by simp only [evalAll]
  | scope, e :: rest, h => by
    simp only [evalAll, eval_same_functions scope e h.left, evalAll_same_functions scope rest h.right]

end

end Eval

theorem evaluate_same_functions {σ : Type} [RegimeHost σ] {r₁ r₂ : Registry} {e : Expr}
    (h : SameFunctions r₁ r₂ e.calls) (context : Context) (limit : Limit) :
    (evaluate r₁ context limit e : Run σ Value) = evaluate r₂ context limit e := by
  simp only [evaluate, Eval.eval_same_functions [] e h]

end TradingRules
