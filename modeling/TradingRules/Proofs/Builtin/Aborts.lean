import TradingRules.Proofs.Builtin.Careful
import TradingRules.Proofs.Dict
import TradingRules.Proofs.Double.Comparing
import TradingRules.Proofs.Eval.Runs

/-!
# Which calls abort

A call of a built-in function aborts in one case only: `clamp` compares its bounds, but that test lets a
NaN through, and with a NaN for a bound there is nothing to answer (`Registry.Careful.aborts_call`).
Of a function that is not built in one asks that it is careful itself.
-/

namespace TradingRules

namespace Signature

theorem hasVerdict_checkTypes (s : Signature) (callee : String) (i : Nat) (args : List Value) :
    HasVerdict (s.checkTypes callee i args) := by
  induction args generalizing i with
  | nil => simp [checkTypes]
  | cons v rest ih => simp [checkTypes, ih]

theorem hasVerdict_check (s : Signature) (callee : String) (args : List Value) :
    HasVerdict (s.check callee args) := by
  simp [check, hasVerdict_checkTypes]

end Signature

-- ---------------------------------------------------------------------------
-- Bounds
-- ---------------------------------------------------------------------------

namespace Builtin

def NaNBound (args : List Value) : Prop :=
  ∃ x low high, args.map Value.asDouble? = [some x, some low, some high] ∧
    (low.isNaN = true ∨ high.isNaN = true)

theorem isNumber_iff {v : Value} : v.isNumber = true ↔ ∃ x, v.asDouble? = some x := by
  cases v <;> simp [Value.isNumber, Value.asDouble?]

variable {args : List Value} {x low high : Double}

theorem number_of_map {found : List (Option Double)} (h : args.map Value.asDouble? = found) (i : Nat) :
    number args i = found[i]?.join.getD Double.notANumber := by
  rw [← h, List.getElem?_map]
  cases hi : args[i]? <;> simp [number, hi]

namespace Math

theorem hasVerdict_clamp :
    HasVerdict (clamp x low high) ↔ low.isNaN = false ∧ high.isNaN = false := by
  by_cases hlt : high < low
  · simp [clamp, hlt, Double.isNaN_of_lt hlt]
  · simp [clamp, hlt, Double.le_iff]

theorem check_clampFunction {callee : String} : clampFunction.signature.check callee args = .ok () ↔
    ∃ x low high, args.map Value.asDouble? = [some x, some low, some high] := by
  rw [Signature.check_eq_ok]
  match args with
  | [a, b, c] =>
    simp [Signature.checkTypes, clampFunction, numeric, Function.of, Signature.paramAt,
      ParamType.accepts, Arity.accepts, ← isNumber_iff]
    split_ifs <;> simp_all
  | [] => simp [clampFunction, numeric, Function.of, Arity.accepts]
  | [_] => simp [clampFunction, numeric, Function.of, Arity.accepts]
  | [_, _] => simp [clampFunction, numeric, Function.of, Arity.accepts]
  | _ :: _ :: _ :: _ :: _ => simp [clampFunction, numeric, Function.of, Arity.accepts]

/-- The signature lets exactly the NaN bounds through to a body without a verdict. -/
theorem aborts_clampFunction {callee : String} :
    clampFunction.signature.check callee args = .ok () ∧
        ¬HasVerdict (clamp (number args 0) (number args 1) (number args 2)) ↔ NaNBound args := by
  rw [check_clampFunction, hasVerdict_clamp, ← Bool.not_eq_true, ← Bool.not_eq_true, ← not_or,
    not_not]
  constructor
  · rintro ⟨⟨x, low, high, hargs⟩, hnan⟩
    rw [number_of_map hargs, number_of_map hargs] at hnan
    exact ⟨x, low, high, hargs, hnan⟩
  · rintro ⟨x, low, high, hargs, hnan⟩
    rw [number_of_map hargs, number_of_map hargs]
    exact ⟨⟨x, low, high, hargs⟩, hnan⟩

end Math

end Builtin

-- ---------------------------------------------------------------------------
-- Calls
-- ---------------------------------------------------------------------------

namespace Registry

variable {σ : Type} [RegimeHost σ] {r : Registry} {f : Function} {context : Context} {name : String}
  {args : List Value} {host : Option σ}

theorem aborts_call : (r.call context name args).Aborts host ↔
    ∃ f body, Dict.find? name r = some f ∧ f.body = .reads body ∧
      f.signature.check name args = .ok () ∧
        ¬HasVerdict (body args ⟨context, host.map RegimeHost.report⟩) := by
  unfold call
  cases hfind : Dict.find? name r with
  | none => simp
  | some f =>
    dsimp only
    rw [Run.aborts_bind, Run.aborts_ofExcept,
      or_iff_right (not_not_intro (f.signature.hasVerdict_check name args))]
    constructor
    · rintro ⟨⟨⟩, next, hyields, h⟩
      obtain ⟨hcheck, rfl⟩ := Run.yields_ofExcept.mp hyields
      cases hbody : f.body with
      | recomputes =>
        simp only [hbody] at h
        rw [Run.aborts_bind_of_not fun _ _ => Run.aborts_pure] at h
        exact absurd h Run.not_aborts_recompute
      | reads body =>
        simp only [hbody] at h
        exact ⟨f, body, rfl, hbody, hcheck, Run.aborts_ofExcept.mp (Run.aborts_get_bind.mp h)⟩
    · rintro ⟨_, body, ⟨⟩, hbody, hcheck, h⟩
      refine ⟨(), host, Run.yields_ofExcept.mpr ⟨hcheck, rfl⟩, ?_⟩
      simp only [hbody]
      exact Run.aborts_get_bind.mpr (Run.aborts_ofExcept.mpr h)

theorem signature_name_of_find? (h : Dict.find? name builtins = some f) : f.signature.name = name := by
  rw [builtins, Dict.find?_ofList] at h
  obtain ⟨front, back, heq, -⟩ := List.lookup_eq_some_iff.mp h
  have hmem : (name, f) ∈ front ++ (name, f) :: back := List.mem_append_cons_self
  rw [← heq] at hmem
  obtain ⟨g, -, hg⟩ := List.mem_map.mp (List.mem_reverse.mp hmem)
  cases hg
  rfl

theorem find?_clamp : Dict.find? "clamp" builtins = some Builtin.Math.clampFunction := by
  rw [builtins, Dict.find?_ofList]
  rfl

def Careful (r : Registry) : Prop :=
  ∀ name f, Dict.find? name r = some f → Dict.find? name builtins = some f ∨ f.Careful

theorem careful_builtins : Careful builtins := fun _ _ h => .inl h

theorem Careful.insert (h : r.Careful) (hf : f.Careful) (key : String) :
    Careful (Dict.insert key f r) := by
  intro name g hfind
  by_cases hname : name = key
  · rw [hname, Dict.find?_insert_self] at hfind
    cases hfind
    exact .inr hf
  · rw [Dict.find?_insert_of_ne hname] at hfind
    exact h name g hfind

/-- A call aborts exactly if it is one of the built-in `clamp` with a NaN for a bound. -/
theorem Careful.aborts_call (h : r.Careful) : (r.call context name args).Aborts host ↔
    name = "clamp" ∧ Dict.find? name r = some Builtin.Math.clampFunction ∧
      Builtin.NaNBound args := by
  rw [Registry.aborts_call]
  constructor
  · rintro ⟨f, body, hfind, hbody, hcheck, hverdict⟩
    have hrash : ¬f.Careful := by
      intro hcareful
      simp only [Function.Careful, hbody] at hcareful
      exact hverdict (hcareful name args _ hcheck)
    have hbuiltin := (h name f hfind).resolve_right hrash
    have hclamp : f.signature.name = "clamp" := by
      by_contra hne
      exact hrash (builtins_careful f (Dict.mem_values_of_find? hbuiltin) hne)
    obtain rfl : name = "clamp" := (signature_name_of_find? hbuiltin).symm.trans hclamp
    rw [find?_clamp] at hbuiltin
    cases hbuiltin
    cases hbody
    exact ⟨rfl, hfind, Builtin.Math.aborts_clampFunction.mp ⟨hcheck, hverdict⟩⟩
  · rintro ⟨rfl, hfind, hnan⟩
    obtain ⟨hcheck, hverdict⟩ := Builtin.Math.aborts_clampFunction.mpr hnan
    exact ⟨_, _, hfind, rfl, hcheck, hverdict⟩

end Registry

end TradingRules
