import TradingRules.Proofs.Builtin.Aborts
import TradingRules.Proofs.Eval.Visits
import TradingRules.Proofs.Session.Transparency

/-!
# Which evaluations abort

Nothing that the evaluation of a rule does aborts it, but for a call of the built-in `clamp` with a NaN
for a bound (`run_aborts_iff`). Whatever else a rule asks for ends with a value or with an error.
-/

namespace TradingRules

variable {σ : Type} [RegimeHost σ]

/-- To evaluate the expression the built-in `clamp` is called with a NaN for a bound. -/
def ClampsToNaN (registry : Registry) (context : Context) (host : Option σ) (e : Expr) : Prop :=
  Dict.find? "clamp" registry = some Builtin.Math.clampFunction ∧
    ∃ values host', Eval.Makes registry context ⟨[], e, host⟩ "clamp" values host' ∧
      Builtin.NaNBound values

variable {registry : Registry} {context : Context} {host : Option σ} {e : Expr} {limit : Limit}

theorem aborts_eval_iff (h : registry.Careful) :
    (Eval.eval registry context [] e).Aborts host ↔ ClampsToNaN registry context host e := by
  have hpoint : (Eval.Point.mk [] e host).Aborts registry context ↔ _ := Eval.Point.aborts_iff
  refine hpoint.trans ⟨?_, ?_⟩
  · rintro ⟨name, values, host', hmakes, hcall⟩
    obtain ⟨rfl, hclamp, hnan⟩ := h.aborts_call.mp hcall
    exact ⟨hclamp, values, host', hmakes, hnan⟩
  · rintro ⟨hclamp, values, host', hmakes, hnan⟩
    exact ⟨"clamp", values, host', hmakes, h.aborts_call.mpr ⟨rfl, hclamp, hnan⟩⟩

theorem aborts_evaluate_iff (h : registry.Careful) :
    (evaluate registry context limit e).Aborts host ↔
      limit ≠ some 0 ∧ ClampsToNaN registry context host e := by
  match limit with
  | some 0 => exact iff_of_false nofun fun h => h.1 rfl
  | none => exact (aborts_eval_iff h).trans (and_iff_right nofun).symm
  | some (n + 1) => exact (aborts_eval_iff h).trans (and_iff_right (by simp)).symm

namespace Session

variable {s : Session}

theorem evaluateText_aborts_iff (h : s.registry.Careful) (source : String) :
    (s.evaluateText source context host).1 = .error (.evaluation .abort) ↔
      ∃ compiled, (s.compile source).1 = .ok compiled ∧ s.evalLimit ≠ some 0 ∧
        ClampsToNaN s.registry context host compiled.expr := by
  have heq := congrArg Prod.fst (s.evaluateText_eq source context host)
  dsimp only at heq
  rw [heq]
  cases (s.compile source).1 with
  | error e => simp
  | ok compiled =>
    simp only [Except.ok.injEq, exists_eq_left']
    rw [← aborts_evaluate_iff h, Run.Aborts, Run.outcome]
    rcases (evaluate s.registry context s.evalLimit compiled.expr).run.run host with ⟨_ | v, next⟩
    · simp [Except.mapError]
    · simp [Except.mapError]

def Step.Careful : Step σ → Prop
  | .register f _ => f.Careful
  | _ => True

theorem registry_ofSettings (settings : Settings) :
    (ofSettings settings).registry = Registry.builtins := by
  simp only [ofSettings]

theorem registry_after_overwrite (f : Function) :
    (s.after (.register f true : Step σ)).registry = Dict.insert f.signature.name f s.registry := rfl

theorem careful_after {step : Step σ} (h : s.registry.Careful) (hstep : step.Careful) :
    (s.after step).registry.Careful := by
  cases step with
  | evaluate source context host => rw [after_of_request rfl]; exact h
  | register f overwrite =>
    simp only [after]
    split
    · rename_i heq
      rw [register_eq_ok heq]
      exact h.insert hstep _
    · exact h
  | _ => exact h

theorem careful_run {steps : List (Step σ)} (h : s.registry.Careful)
    (hsteps : ∀ step ∈ steps, step.Careful) : (s.run steps).registry.Careful := by
  induction steps generalizing s with
  | nil => exact h
  | cons step rest ih =>
    obtain ⟨hstep, hrest⟩ := List.forall_mem_cons.mp hsteps
    exact ih (careful_after h hstep) hrest

/-- After any history in which only careful functions were registered, what a session evaluates, a text
or a compiled rule, in any context, with any host and under any limit that is not spent from the start,
aborts exactly if it calls the built-in `clamp` with a NaN for a bound; and a call of a function by name
aborts exactly if it is such a call. -/
theorem run_aborts_iff (settings : Settings) {steps : List (Step σ)}
    (hsteps : ∀ step ∈ steps, step.Careful) (context : Context) (host : Option σ) :
    let s := (ofSettings settings).run steps
    (∀ source, (s.evaluateText source context host).1 = .error (.evaluation .abort) ↔
      ∃ compiled, TradingRules.compile source = .ok compiled ∧ settings.evalLimit ≠ some 0 ∧
        ClampsToNaN s.registry context host compiled.expr) ∧
    (∀ limit compiled, (s.value limit compiled context).Aborts host ↔
      limit ≠ some 0 ∧ ClampsToNaN s.registry context host compiled.expr) ∧
    ∀ name values, (s.registry.call context name values).Aborts host ↔
      name = "clamp" ∧ Dict.find? name s.registry = some Builtin.Math.clampFunction ∧
        Builtin.NaNBound values := by
  intro s
  have hfresh : (ofSettings settings).registry.Careful :=
    registry_ofSettings settings ▸ Registry.careful_builtins
  have hcareful : s.registry.Careful := careful_run hfresh hsteps
  have hlimit : s.evalLimit = settings.evalLimit := (run_settings _ steps).evalLimit
  have hcompile : ∀ source, (s.compile source).1 = TradingRules.compile source :=
    (follows_run settings steps).compile_fst
  clear_value s
  refine ⟨fun source => ?_, fun limit compiled => aborts_evaluate_iff hcareful,
    fun name values => hcareful.aborts_call⟩
  rw [evaluateText_aborts_iff hcareful, hlimit, hcompile]

def halve : Function :=
  .of .custom "halve" [.number] "double" "Half of a number" fun args _ =>
    .ok (.float (Builtin.number args 0 / 2))

/-- Beside it `clamp` is still the built-in one, which aborts; the function itself does not. -/
theorem run_aborts_iff_halve :
    let steps : List (Step FixedHost) := [.register halve true]
    let s := (ofSettings .standard).run steps
    (∀ step ∈ steps, step.Careful) ∧
      (s.registry.call ⟨[], ⟨0, 0⟩⟩ "clamp" [.int 1, .float .notANumber, .int 2]).Aborts
        (none : Option FixedHost) ∧
      ¬(s.registry.call ⟨[], ⟨0, 0⟩⟩ "halve" [.float .notANumber]).Aborts
        (none : Option FixedHost) := by
  intro steps s
  have hsteps : ∀ step ∈ steps, step.Careful :=
    List.forall_mem_singleton.mpr fun _ _ _ _ => hasVerdict_ok
  have hcall : ∀ name values, (s.registry.call ⟨[], ⟨0, 0⟩⟩ name values).Aborts none ↔ _ :=
    (run_aborts_iff .standard hsteps ⟨[], ⟨0, 0⟩⟩ none).2.2
  have hregistry : s.registry = Dict.insert "halve" halve Registry.builtins :=
    (registry_after_overwrite (σ := FixedHost) halve).trans
      (congrArg _ (registry_ofSettings .standard))
  have hclamp : Dict.find? "clamp" s.registry = some Builtin.Math.clampFunction := by
    rw [hregistry, Dict.find?_insert_of_ne (by decide), Registry.find?_clamp]
  refine ⟨hsteps, (hcall _ _).mpr ⟨rfl, hclamp, _, _, _, rfl, .inl (by decide)⟩, fun h => ?_⟩
  exact absurd ((hcall _ _).mp h).1 (by decide)

def aborted {α : Type} : Except Trouble α → Bool
  | .error (.evaluation .abort) => true
  | _ => false

theorem aborted_iff {α : Type} {result : Except Trouble α} :
    aborted result = true ↔ result = .error (.evaluation .abort) := by
  fun_cases aborted result <;> simp_all

/-- A rule can make the NaN itself. -/
theorem evaluateText_clamp_nan :
    (standard.evaluateText "clamp(1, double('nan'), 2)" ⟨[], ⟨0, 0⟩⟩ (none : Option FixedHost)).1 =
      .error (.evaluation .abort) :=
  aborted_iff.mp (by decide +kernel)

end Session

end TradingRules
