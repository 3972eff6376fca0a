import TradingRules.Proofs.Session.Transparency
import TradingRules.Proofs.Source.Layers
import TradingRules.Proofs.Token.Spelling

/-!
# Variables are read by their names

A name that a project takes is one identifier of the language, so that the rule that consists of it reads
one variable. No other source gives a name without a point. So the rule has the value of the project's
variable in every context that is put together with the project and does not override the name
(`evaluateText_variable`).
-/

namespace TradingRules

-- ---------------------------------------------------------------------------
-- Plain names are identifiers
-- ---------------------------------------------------------------------------

namespace Text

variable {c : Char}

theorem toNat_of_isAsciiLetter (h : isAsciiLetter c = true) :
    97 ≤ c.toNat ∧ c.toNat ≤ 122 ∨ 65 ≤ c.toNat ∧ c.toNat ≤ 90 := by
  simpa [isAsciiLetter, Char.le_def, UInt32.le_iff_toNat_le] using h

theorem isAlphabetic_of_isAsciiLetter (h : isAsciiLetter c = true) : isAlphabetic c = true := by
  have hrange := toNat_of_isAsciiLetter h
  rw [isAlphabetic, if_pos (by omega), h]

theorem isNumeric_of_isAsciiDigit (h : isAsciiDigit c = true) : isNumeric c = true := by
  have hrange : 48 ≤ c.toNat ∧ c.toNat ≤ 57 := by
    simpa [isAsciiDigit, Char.le_def, UInt32.le_iff_toNat_le] using h
  rw [isNumeric, if_pos (by omega), h]

end Text

namespace Project

variable {name : String} {p : Project} {v : ProjectVariable} {c : Char}

open Text (isAsciiLetter isAsciiDigit isBlank)

theorem begins_word (h : (isAsciiLetter c || c == '_') = true) : isBlank c = false ∧
    isAsciiDigit c = false ∧ ¬(c = '"' ∨ c = '\'') ∧ Token.startsWord c = true := by
  rcases Bool.or_eq_true_iff.mp h with hletter | hunderscore
  · have hrange := Text.toNat_of_isAsciiLetter hletter
    refine ⟨?_, ?_, ?_, ?_⟩
    · simp [isBlank]
      omega
    · simp [isAsciiDigit, Char.le_def, UInt32.le_iff_toNat_le]
      omega
    · rintro (rfl | rfl) <;> exact absurd hrange (by decide)
    · rw [Token.startsWord, Text.isAlphabetic_of_isAsciiLetter hletter, Bool.true_or]
  · rw [beq_iff_eq.mp hunderscore]
    decide

theorem continues_word (h : (isAsciiLetter c || isAsciiDigit c || c == '_') = true) :
    Token.continuesWord c = true := by
  simp only [Bool.or_eq_true] at h
  rw [Token.continuesWord, Text.isAlphanumeric, Bool.or_eq_true, Bool.or_eq_true]
  exact h.imp_left (Or.imp Text.isAlphabetic_of_isAsciiLetter Text.isNumeric_of_isAsciiDigit)

theorem isWord_of_isWord {chars : List Char} (h : isWord chars = true) : Token.IsWord chars := by
  cases chars with
  | nil => cases h
  | cons c rest =>
    rw [isWord, Bool.and_eq_true, List.all_eq_true] at h
    obtain ⟨hfirst, hrest⟩ := h
    refine ⟨⟨c, rest, rfl, begins_word hfirst⟩,
      List.forall_mem_cons.mpr ⟨continues_word ?_, fun d hd => ?_⟩⟩
    · grind
    · exact continues_word (hrest d hd)

theorem strict_of_checkName (h : checkName name = .ok ()) :
    Token.strict name = [⟨.identifier, name, .start⟩] := by
  obtain ⟨hword, -, hkeyword, -⟩ := checkName_eq_ok_iff.mp h
  exact Token.strict_of_isWord (isWord_of_isWord hword) hkeyword

end Project

theorem compile_of_identifier {name : String} (h : Token.strict name = [⟨.identifier, name, .start⟩]) :
    compile name = .ok ⟨name, .ident name, [name], []⟩ := by
  rw [compile, Expr.parse, h]
  rfl

-- ---------------------------------------------------------------------------
-- Evaluation
-- ---------------------------------------------------------------------------

section
variable {σ : Type} [RegimeHost σ]

theorem evaluate_ident {context : Context} {name : String} {v : Value}
    (h : context.find? name = some v) (registry : Registry) (limit : Limit) (host : Option σ) :
    (evaluate registry context limit (.ident name)).run.run host =
      (match limit.spent? with
        | some failure => .error failure
        | none => .ok v, host) := by
  unfold evaluate
  cases limit.spent? with
  | some failure => rfl
  | none =>
    simp only [Eval.eval, Scope.find?, List.lookup_nil, Context.lookup?, h]
    rfl

end

namespace Session

variable {σ : Type} [RegimeHost σ]

/-- The name of a variable of a project is one identifier, and as a rule it reads that name alone. In a
context that is put together from any sources with the project, and that does not override the name, the
rule has the variable's value, unless the time limit is spent from the start. -/
theorem evaluateText_variable {p : Project} (hp : p.Reached) {name : String} {v : ProjectVariable}
    (hfind : p.find? name = some v) :
    Token.strict name = [⟨.identifier, name, .start⟩] ∧
    TradingRules.compile name = .ok ⟨name, .ident name, [name], []⟩ ∧
    ∀ (a : Assembly) (disk : Disk) (sources : Sources),
      (a.project disk sources.project).1 = .ok (some p) → Dict.find? name sources.overrides = none →
      ∃ c, (a.build disk sources).1 = .ok c ∧
        ∀ (settings : Settings) (steps : List (Step σ)) (host : Option σ),
          let answer := ((ofSettings settings).run steps).evaluateText name
            (Catalog.context c sources.clock) host
          answer.2.1 = host ∧ answer.1 = match settings.evalLimit.spent? with
            | some failure => .error (.evaluation failure)
            | none => .ok v.value := by
  have hplain := hp.sound.plainNames
  have hstrict := Project.strict_of_checkName (hplain.plain (name, v) (Dict.mem_of_find? hfind))
  have hcompile := compile_of_identifier hstrict
  refine ⟨hstrict, hcompile, fun a disk sources hproject hname => ⟨sources.catalog (some p), ?_, ?_⟩⟩
  · rw [Assembly.build_fst, hproject]
    rfl
  · intro settings steps host answer
    have hentry := Sources.find?_catalog_of_project hplain hfind hname
    have hvalue : (Catalog.context (sources.catalog (some p)) sources.clock).find? name = some v.value :=
      (Assembly.find?_context sources.clock).mpr ⟨_, hentry, rfl⟩
    have hanswer := evaluateText_eq ((ofSettings settings).run steps) name
      (Catalog.context (sources.catalog (some p)) sources.clock) host
    have hcached : (((ofSettings settings).run steps).compile name).1 = _ :=
      ((follows_run settings steps).compile_fst name).trans hcompile
    rw [hcached] at hanswer
    simp only [evaluate_ident hvalue, (run_settings (ofSettings settings) steps).evalLimit] at hanswer
    obtain ⟨hresult, hhost⟩ := Prod.mk.inj hanswer
    refine ⟨hhost, hresult.trans ?_⟩
    have hlimit : (ofSettings settings).evalLimit = settings.evalLimit := rfl
    rw [hlimit]
    cases settings.evalLimit.spent? <;> rfl

def floorProject : Project :=
  (Project.empty "demo").run
    [.add ⟨"floor", .int, .int 20, "", ProjectVariable.defaultCategory, none, [], false⟩]

/-- An indicator and a parameter of the strategy may end in the same word. -/
theorem evaluateText_variable_floor :
    let sources := { Sources.none ⟨0, 0⟩ with
      project := some (.loaded floorProject)
      indicators := some [("floor", .int 1)]
      overrides := [("cfg.floor", .int 30)] }
    floorProject.Reached ∧ (floorProject.find? "floor").isSome ∧
      ∃ c, (Assembly.withoutStore.build Project.Store.emptyFolder sources).1 = .ok c ∧
        (standard.evaluateText "floor" (Catalog.context c sources.clock)
          (none : Option FixedHost)).1 = .ok (.int 20) := by
  intro sources
  have hreached : floorProject.Reached := ⟨_, _, .inl ⟨_, rfl⟩, rfl⟩
  have hvalue : (floorProject.find? "floor").map ProjectVariable.value = some (.int 20) := by
    cbv
  obtain ⟨v, hfind, hv⟩ := Option.map_eq_some_iff.mp hvalue
  obtain ⟨-, -, hcontexts⟩ := evaluateText_variable (σ := FixedHost) hreached hfind
  obtain ⟨c, hbuild, hanswer⟩ :=
    hcontexts .withoutStore Project.Store.emptyFolder sources rfl (by decide)
  exact ⟨hreached, by rw [hfind]; rfl, c, hbuild, hv ▸ (hanswer .standard [] none).2⟩

end Session

end TradingRules
