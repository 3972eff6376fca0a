import TradingRules.Proofs.Expr.Acceptance
import TradingRules.Proofs.Session.Transparency
import TradingRules.Proofs.Validation.Silence
import TradingRules.Proofs.Validation.Soundness

/-!
# A text that compiles is valid

A text that compiles has no lexical fault, so both lexers find the same tokens, and on what they derive
as the passes are silent. What remains is that the functions called are known; `any`, which the tree calls
`exists`, is a function that every session has.
-/

namespace TradingRules

namespace Token

theorem eq_of_upToFault {tokens : List Token} (h : ∀ t ∈ upToFault tokens, t.fault? = none) :
    upToFault tokens = tokens := by
  induction tokens with
  | nil => rfl
  | cons t rest ih =>
    unfold upToFault at h ⊢
    by_cases hfault : t.isFault = true
    · have hnone := h t (by simp [hfault])
      simp [isFault, hnone] at hfault
    · rw [if_neg hfault] at h ⊢
      rw [ih fun u hu => h u (List.mem_cons_of_mem t hu)]

theorem recovering_eq_strict {source : String} (h : ∀ t ∈ strict source, t.fault? = none) :
    recovering source = strict source := by
  rw [strict, lexFrom_strict] at h ⊢
  exact (eq_of_upToFault h).symm

end Token

namespace Validation

open Grammar

variable {tokens : List Token} {w : Written} {e : Expr} {known extra : List String} {source : String}
  {c : Compiled}

theorem quiet_of_derives (h : Derives .expression tokens w) (htree : w.tree? = some e)
    (hknown : ∀ name ∈ e.calls, name ∈ known) (hany : "any" ∈ known) : Quiet known tokens := by
  have hsilent := silent_of_derives h
  constructor
  · have hbrackets := hsilent.brackets [] []
    rwa [List.append_nil] at hbrackets
  · refine List.filterMap_eq_nil_iff.mpr fun t ht => ?_
    rw [Expr.faultless_of_derives h t ht]
    rfl
  · have hternaries := hsilent.ternaries [] [] []
    rwa [List.append_nil] at hternaries
  · have hcallees : ∀ t ∈ callees tokens, t.text ∈ known := by
      intro t ht
      rcases callees_of_derives h e htree t ht with hcalled | hany'
      · exact hknown t.text hcalled
      · exact hany' ▸ hany
    simpa [unknownFunctions] using hcallees

theorem compile_eq_ok (h : compile source = .ok c) :
    Expr.ofTokens (Token.strict source) = .ok c.expr ∧ c.calledNames = c.expr.calledNames := by
  obtain ⟨e, hparse, rfl⟩ := Except.map_eq_ok.mp h
  exact ⟨Except.mapError_eq_ok.mp hparse, rfl⟩

/-- Of a text that compiles to known calls no problem is an error. -/
theorem any_isError_of_compile (hcompile : compile source = .ok c)
    (hknown : ∀ name ∈ c.calledNames, name ∈ known ∨ name ∈ extra) (hany : "any" ∈ known) :
    (problems known extra source).any Problem.isError = false := by
  obtain ⟨hparse, hcalled⟩ := compile_eq_ok hcompile
  obtain ⟨w, hw, htree⟩ := Expr.derives_of_ofTokens hparse
  have htokens : Token.recovering source = Token.strict source :=
    Token.recovering_eq_strict (Expr.faultless_of_derives hw)
  have hcalls : ∀ name ∈ c.expr.calls, name ∈ known ++ extra := by
    intro name hname
    rw [List.mem_append]
    exact hknown name (hcalled ▸ Names.mem_ofList.mpr hname)
  refine (any_isError_problems known extra source).mpr (.inr ⟨?_, c, hcompile⟩)
  rw [htokens]
  exact quiet_of_derives hw htree hcalls (List.mem_append_left extra hany)

theorem any_mem_builtins : "any" ∈ Registry.builtins.names := by
  decide +kernel

variable {σ : Type} [RegimeHost σ] {name : String}

theorem mem_names_of_builtin (settings : Settings) (assembly : Assembly)
    (steps : List (Session.Step σ)) (h : name ∈ Registry.builtins.names) :
    name ∈ ({ Session.ofSettings settings with assembly }.run steps).registry.names :=
  Session.mem_names_run steps h

/-- In every session, a text that compiles has no errors if each function it calls is registered or
declared and the limit is not spent. -/
theorem validate_of_compile (settings : Settings) (assembly : Assembly) (steps : List (Session.Step σ))
    (hlimit : settings.validationLimit.spent? = none) :
    let s := { Session.ofSettings settings with assembly }.run steps
    ∀ extra source c, (s.compile source).1 = .ok c →
      (∀ name ∈ c.calledNames, name ∈ s.registry.names ∨ name ∈ extra) →
        (s.validate extra source).any Problem.isError = false := by
  intro s extra source c hcompile hknown
  have hsettings : s.validationLimit = settings.validationLimit :=
    (Session.run_settings _ steps).validationLimit
  have hany : "any" ∈ s.registry.names :=
    mem_names_of_builtin settings assembly steps any_mem_builtins
  have hfollows : s.rules.Follows (Session.requested steps) :=
    Session.follows_foldl (ExprCache.follows_empty settings.ruleCapacity) steps
  have hfresh : compile source = .ok c := (hfollows.compile_fst source).symm.trans hcompile
  have hproblems : s.validate extra source = problems s.registry.names extra source := by
    simp [Session.validate, problemsWithin, hsettings, hlimit]
  rw [hproblems]
  exact any_isError_of_compile hfresh hknown hany

def callingRule : String := "any(prices, p, p > 1) ? rsi14(2).f([3,])[0] : (x - 1)"

theorem validate_of_callingRule :
    Settings.standard.validationLimit.spent? = none ∧
      let s := { Session.ofSettings .standard with assembly := .withoutStore }.run
        ([.compile "1 +", .clear] : List (Session.Step FixedHost))
      ∃ c, (s.compile callingRule).1 = .ok c ∧
        (∀ name ∈ c.calledNames, name ∈ s.registry.names ∨ name ∈ ["rsi14", "f"]) ∧
        (s.validate ["rsi14", "f"] callingRule).any Problem.isError = false := by
  refine ⟨rfl, ?_⟩
  intro s
  have hcompiles : (s.compile callingRule).1.toOption.map Compiled.calledNames =
      some ["exists", "f", "rsi14"] := by
    decide +kernel
  obtain ⟨c, hsome, hcalled⟩ := Option.map_eq_some_iff.mp hcompiles
  have hcompile := Except.toOption_eq_some.mp hsome
  have hbuiltin : "exists" ∈ Registry.builtins.names := by decide +kernel
  have hknown : ∀ name ∈ c.calledNames, name ∈ s.registry.names ∨ name ∈ ["rsi14", "f"] := by
    intro name hname
    rw [hcalled] at hname
    rcases List.mem_cons.mp hname with rfl | hname
    · exact .inl (mem_names_of_builtin .standard .withoutStore _ hbuiltin)
    · exact .inr (by simpa [or_comm] using hname)
  exact ⟨c, hcompile, hknown,
    validate_of_compile .standard .withoutStore _ rfl ["rsi14", "f"] callingRule c hcompile hknown⟩

end Validation

end TradingRules
