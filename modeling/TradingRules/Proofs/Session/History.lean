import TradingRules.Session.Basic

/-!
# The history of a session

Rules are compiled and evaluated, functions registered and rules forgotten. No step touches anything
but the registry and the memory of rules (`run_settings`), and no function is ever lost
(`mem_names_run`).
-/

namespace TradingRules.Session

/-- `overwrite` lets a function take the place of one of the same name. -/
inductive Step (σ : Type) where
  | compile (source : String)
  | evaluate (source : String) (context : Context) (host : Option σ)
  | undefinedVariables (source : String) (context : Context)
  | register (f : Function) (overwrite : Bool)
  | clear

variable {σ : Type}

def Step.request? : Step σ → Option String
  | .compile source => some source
  | .evaluate source _ _ => some source
  | .undefinedVariables source _ => some source
  | .register _ _ => none
  | .clear => none

def Step.texts (before : List String) : Step σ → List String
  | .clear => []
  | step => step.request?.toList ++ before

/-- The texts asked for since the last clearing, latest first. -/
def requested (steps : List (Step σ)) : List String := steps.foldl Step.texts []

variable [RegimeHost σ]

/-- A registration that is refused changes nothing. -/
def after (s : Session) : Step σ → Session
  | .compile source => (s.compile source).2
  | .evaluate source context host => (s.evaluateText source context host).2.2
  | .undefinedVariables source context => (s.undefinedVariables source context).2
  | .register f overwrite =>
    match s.register f overwrite with
    | .ok s => s
    | .error _ => s
  | .clear => s.clearRules

def run (s : Session) (steps : List (Step σ)) : Session := steps.foldl after s

variable {s : Session} {source name : String}

theorem evaluateText_session (context : Context) (host : Option σ) :
    (s.evaluateText source context host).2.2 = (s.compile source).2 := by
  simp only [evaluateText]
  split <;> rfl

/-- A step that asks for a rule does to the session what compiling the rule does. -/
theorem after_of_request {step : Step σ} (h : step.request? = some source) :
    s.after step = (s.compile source).2 := by
  cases step with
  | compile text => cases h; rfl
  | evaluate text context host => cases h; exact evaluateText_session context host
  | undefinedVariables text context => cases h; rfl
  | register f overwrite => cases h
  | clear => cases h

theorem register_eq_ok {f : Function} {overwrite : Bool} {s' : Session}
    (h : s.register f overwrite = .ok s') :
    s' = { s with registry := Dict.insert f.signature.name f s.registry } := by
  simp only [register, Registry.register?] at h
  split at h
  · rename_i heq
    split at heq
    · cases heq
    · cases heq
      cases h
      rfl
  · cases h

structure SameSettings (s s' : Session) : Prop where
  evalLimit : s'.evalLimit = s.evalLimit
  validationLimit : s'.validationLimit = s.validationLimit
  assembly : s'.assembly = s.assembly

theorem compile_settings (s : Session) (source : String) : s.SameSettings (s.compile source).2 :=
  ⟨rfl, rfl, rfl⟩

theorem after_settings (s : Session) (step : Step σ) : s.SameSettings (s.after step) := by
  cases step with
  | compile source => exact compile_settings s source
  | evaluate source context host =>
    rw [after_of_request rfl]
    exact compile_settings s source
  | undefinedVariables source context => exact compile_settings s source
  | register f overwrite =>
    simp only [after]
    split
    · rename_i heq
      rw [register_eq_ok heq]
      exact ⟨rfl, rfl, rfl⟩
    · exact ⟨rfl, rfl, rfl⟩
  | clear => exact ⟨rfl, rfl, rfl⟩

theorem run_settings (s : Session) (steps : List (Step σ)) : s.SameSettings (s.run steps) := by
  induction steps generalizing s with
  | nil => exact ⟨rfl, rfl, rfl⟩
  | cons step rest ih =>
    have hstep := after_settings s step
    have hrest := ih (s.after step)
    exact ⟨hrest.evalLimit.trans hstep.evalLimit,
      hrest.validationLimit.trans hstep.validationLimit, hrest.assembly.trans hstep.assembly⟩

-- ---------------------------------------------------------------------------
-- Registered functions
-- ---------------------------------------------------------------------------

/-- A step leaves the registry alone or puts one function into it. -/
theorem registry_after (s : Session) (step : Step σ) :
    (s.after step).registry = s.registry ∨
      ∃ f : Function, (s.after step).registry = Dict.insert f.signature.name f s.registry := by
  cases step with
  | compile source => exact .inl rfl
  | evaluate source context host =>
    rw [after_of_request rfl]
    exact .inl rfl
  | undefinedVariables source context => exact .inl rfl
  | register f overwrite =>
    simp only [after]
    split
    · rename_i heq
      rw [register_eq_ok heq]
      exact .inr ⟨f, rfl⟩
    · exact .inl rfl
  | clear => exact .inl rfl

theorem mem_names_after (step : Step σ) (h : name ∈ s.registry.names) :
    name ∈ (s.after step).registry.names := by
  rcases registry_after s step with heq | ⟨f, heq⟩
  · rw [heq]
    exact h
  · rw [heq]
    exact Dict.mem_names_insert.mpr (.inr h)

theorem mem_names_run (steps : List (Step σ)) (h : name ∈ s.registry.names) :
    name ∈ (s.run steps).registry.names := by
  induction steps generalizing s with
  | nil => exact h
  | cons step rest ih => exact ih (mem_names_after step h)

end TradingRules.Session
