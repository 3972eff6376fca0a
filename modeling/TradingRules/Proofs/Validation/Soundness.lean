import Mathlib.Tactic.Push
import Mathlib.Tactic.ByContra
import TradingRules.Session.Basic
import TradingRules.Proofs.Outcome
import TradingRules.Proofs.Token.Recovery

/-!
# What a valid source text is worth

A text is valid if no problem is an error. The passes over the tokens report errors only, but for the
one that looks for declared functions without a use, which warns; the grammar is asked when all of
them are silent (`any_isError_problems`). A warning alone therefore makes a text valid whose grammar
nobody looked at, and the text need not compile.
-/

namespace TradingRules.Validation

variable {known extra : List String} {source : String} {tokens : List Token} {found : List Problem}

-- ---------------------------------------------------------------------------
-- The severity of each pass
-- ---------------------------------------------------------------------------

def AllErrors (found : List Problem) : Prop := ∀ q ∈ found, q.isError = true

theorem AllErrors.nil : AllErrors [] := fun _ h => nomatch h

theorem AllErrors.cons {q : Problem} (hq : q.isError = true) (h : AllErrors found) :
    AllErrors (q :: found) := by
  intro r hr
  rcases List.mem_cons.mp hr with rfl | hr
  · exact hq
  · exact h r hr

theorem AllErrors.append {others : List Problem} (h : AllErrors found) (ho : AllErrors others) :
    AllErrors (found ++ others) := by
  intro r hr
  rcases List.mem_append.mp hr with hr | hr
  · exact h r hr
  · exact ho r hr

theorem AllErrors.any_isError (h : AllErrors found) :
    found.any Problem.isError = !found.isEmpty := by
  cases found with
  | nil => rfl
  | cons q rest => simp [h q List.mem_cons_self]

theorem bracketsFrom_errors (stack tokens : List Token) : AllErrors (bracketsFrom stack tokens) := by
  fun_induction bracketsFrom stack tokens with
  | case1 stack =>
    intro q hq
    obtain ⟨t, -, rfl⟩ := List.mem_map.mp hq
    rfl
  | case2 stack t rest hopens ih => exact ih
  | case3 t rest hopens hcloses ih => exact .cons rfl ih
  | case4 t rest hopens hcloses o stack hsame ih => exact ih
  | case5 t rest hopens hcloses o stack hsame ih => exact .cons rfl ih
  | case6 stack t rest hopens hcloses ih => exact ih

theorem lexical_errors (tokens : List Token) : AllErrors (lexical tokens) := by
  intro q hq
  obtain ⟨t, -, hq⟩ := List.mem_filterMap.mp hq
  obtain ⟨f, -, rfl⟩ := Option.map_eq_some_iff.mp hq
  rfl

theorem questions_errors (pending : List Token) : AllErrors (questions pending) := by
  intro q hq
  obtain ⟨t, -, rfl⟩ := List.mem_map.mp hq
  rfl

theorem ternariesFrom_errors (pending : List Token) (outer : List (List Token))
    (tokens : List Token) : AllErrors (ternariesFrom pending outer tokens) := by
  fun_induction ternariesFrom pending outer tokens with
  | case1 pending outer =>
    refine .append ?_ (questions_errors pending)
    intro q hq
    obtain ⟨level, -, hq⟩ := List.mem_flatMap.mp hq
    exact questions_errors level q hq
  | case2 pending outer t rest hopens ih => exact ih
  | case3 pending t rest hopens hcloses ih => exact ih
  | case4 pending t rest hopens hcloses around outer ih => exact (questions_errors pending).append ih
  | case5 pending outer t rest hopens hcloses hcomma ih => exact (questions_errors pending).append ih
  | case6 pending outer t rest hopens hcloses hcomma hquestion ih => exact ih
  | case7 outer t rest hopens hcloses hcomma hquestion hcolon ih => exact .cons rfl ih
  | case8 outer t rest hopens hcloses hcomma hquestion hcolon q pending ih => exact ih
  | case9 pending outer t rest hopens hcloses hcomma hquestion hcolon ih => exact ih

theorem unknownFunctions_errors (known : List String) (tokens : List Token) :
    AllErrors (unknownFunctions known tokens) := by
  intro q hq
  obtain ⟨t, -, rfl⟩ := List.mem_map.mp hq
  rfl

theorem unusedFunctions_warn (extra : List String) (tokens : List Token) :
    (unusedFunctions extra tokens).any Problem.isError = false := by
  simp [unusedFunctions, Problem.isError, Problem.severity, Finding.severity]

theorem grammar_errors (source : String) (tokens : List Token) :
    AllErrors (grammar source tokens) := by
  unfold grammar
  split
  · exact .nil
  · exact .cons rfl .nil

theorem floatEqualitiesFrom_inform (before : Option Token) (tokens : List Token) :
    (floatEqualitiesFrom before tokens).any Problem.isError = false := by
  induction tokens generalizing before with
  | nil => rfl
  | cons t rest ih =>
    simp only [floatEqualitiesFrom, List.any_append, ih, Bool.or_false]
    split <;> rfl

-- ---------------------------------------------------------------------------
-- When no problem is an error
-- ---------------------------------------------------------------------------

structure Quiet (known : List String) (tokens : List Token) : Prop where
  brackets : brackets tokens = []
  lexical : lexical tokens = []
  ternaries : ternaries tokens = []
  functions : unknownFunctions known tokens = []

def mentioned (tokens : List Token) : List String :=
  (tokens.filter fun t => t.kind == .identifier).map Token.text

/-- All that the passes over the tokens find is a declared function without a use, so that the grammar
is not asked. -/
structure OnlyUnused (known extra : List String) (tokens : List Token) : Prop where
  nonempty : tokens ≠ []
  quiet : Quiet (known ++ extra) tokens
  unused : ∃ name ∈ extra, name ∉ mentioned tokens

theorem any_isError_tokenProblems :
    (tokenProblems known extra tokens).any Problem.isError = false ↔ Quiet (known ++ extra) tokens := by
  simp only [tokenProblems, List.any_append, (bracketsFrom_errors [] tokens).any_isError, brackets,
    (lexical_errors tokens).any_isError, (ternariesFrom_errors [] [] tokens).any_isError, ternaries,
    (unknownFunctions_errors (known ++ extra) tokens).any_isError, unusedFunctions_warn,
    Bool.or_false, Bool.or_eq_false_iff, Bool.not_eq_false', List.isEmpty_iff]
  constructor
  · rintro ⟨⟨⟨hb, hl⟩, ht⟩, hf⟩
    exact ⟨hb, hl, ht, hf⟩
  · rintro ⟨hb, hl, ht, hf⟩
    exact ⟨⟨⟨hb, hl⟩, ht⟩, hf⟩

theorem unusedFunctions_eq_nil :
    unusedFunctions extra tokens = [] ↔ ∀ name ∈ extra, name ∈ mentioned tokens := by
  change (extra.filter (· ∉ mentioned tokens)).map _ = [] ↔ _
  simp

theorem tokenProblems_eq_nil :
    tokenProblems known extra tokens = [] ↔
      Quiet (known ++ extra) tokens ∧ ∀ name ∈ extra, name ∈ mentioned tokens := by
  rw [← unusedFunctions_eq_nil]
  simp only [tokenProblems, List.append_eq_nil_iff]
  constructor
  · rintro ⟨⟨⟨⟨hb, hl⟩, ht⟩, hf⟩, hu⟩
    exact ⟨⟨hb, hl, ht, hf⟩, hu⟩
  · rintro ⟨⟨hb, hl, ht, hf⟩, hu⟩
    exact ⟨⟨⟨⟨hb, hl⟩, ht⟩, hf⟩, hu⟩

theorem lexical_eq_nil : lexical tokens = [] ↔ ∀ t ∈ tokens, t.isFault = false := by
  simp [lexical, Token.isFault]

/-- The grammar has something to say of a text without lexical faults exactly if the text does not
compile: both lexers give the parser the same tokens. -/
theorem grammar_eq_nil (h : lexical (Token.recovering source) = []) :
    grammar source (Token.recovering source) = [] ↔ ∃ c, compile source = .ok c := by
  have hcompile : compile source = (Expr.ofTokensOf source (Token.recovering source)).map
      fun e => ⟨source, e, e.freeNames, e.calledNames⟩ := by
    rw [compile, Expr.parse, Token.strict_eq_recovering (lexical_eq_nil.mp h)]
  rw [hcompile, grammar]
  cases Expr.ofTokensOf source (Token.recovering source) with
  | ok e => exact ⟨fun _ => ⟨_, rfl⟩, fun _ => rfl⟩
  | error fault => exact ⟨fun hnil => (nomatch hnil), fun ⟨_, hc⟩ => (nomatch hc)⟩

theorem any_mergeSort (found : List Problem) (p : Problem → Bool) :
    (found.mergeSort Problem.notAfter).any p = found.any p := by
  rw [Bool.eq_iff_iff]
  simp [List.any_eq_true, List.mem_mergeSort]

theorem not_compile_of_no_tokens (h : Token.recovering source = []) :
    ¬∃ c, compile source = .ok c := by
  rw [← grammar_eq_nil (by simp [h, lexical]), h]
  simp [grammar, Expr.ofTokensOf, Expr.ofTokens, Except.mapError_error]

/-- A text whose problems are no errors either compiles or was never shown to the grammar. -/
theorem any_isError_problems (known extra : List String) (source : String) :
    (problems known extra source).any Problem.isError = false ↔
      OnlyUnused known extra (Token.recovering source) ∨
        Quiet (known ++ extra) (Token.recovering source) ∧ ∃ c, compile source = .ok c := by
  unfold problems
  by_cases hempty : Token.recovering source = []
  · simp only [hempty, List.isEmpty_nil, ↓reduceIte]
    constructor
    · intro h
      cases h
    · rintro (h | ⟨-, h⟩)
      · exact absurd rfl h.nonempty
      · exact absurd h (not_compile_of_no_tokens hempty)
  simp only [List.isEmpty_iff, hempty, ↓reduceIte, any_mergeSort]
  by_cases hsilent : tokenProblems known extra (Token.recovering source) = []
  · obtain ⟨hquiet, hused⟩ := tokenProblems_eq_nil.mp hsilent
    rw [if_pos hsilent, List.any_append, (grammar_errors _ _).any_isError, floatEqualities,
      floatEqualitiesFrom_inform, Bool.or_false, Bool.not_eq_false', List.isEmpty_iff,
      grammar_eq_nil hquiet.lexical]
    constructor
    · exact fun h => .inr ⟨hquiet, h⟩
    · rintro (h | ⟨-, h⟩)
      · obtain ⟨name, hmem, hunused⟩ := h.unused
        exact absurd (hused name hmem) hunused
      · exact h
  · rw [if_neg hsilent, any_isError_tokenProblems]
    constructor
    · intro hquiet
      refine .inl ⟨hempty, hquiet, ?_⟩
      by_contra hused
      push Not at hused
      exact hsilent (tokenProblems_eq_nil.mpr ⟨hquiet, hused⟩)
    · rintro (h | ⟨h, -⟩)
      · exact h.quiet
      · exact h

-- ---------------------------------------------------------------------------
-- Sessions
-- ---------------------------------------------------------------------------

theorem isValid_iff {s : Session} (hlimit : s.validationLimit.spent? = none) :
    s.isValid extra source = true ↔
      (problems s.registry.names extra source).any Problem.isError = false := by
  simp [Session.isValid, Session.validate, problemsWithin, hlimit]

/-- A valid text compiles, except where a declared function without a use kept the grammar from being
asked: there validity says nothing of it. -/
theorem isValid_sound_iff (s : Session) (hlimit : s.validationLimit.spent? = none)
    (extra : List String) (source : String) :
    (s.isValid extra source = true → ∃ c, compile source = .ok c) ↔
      (OnlyUnused s.registry.names extra (Token.recovering source) →
        ∃ c, compile source = .ok c) := by
  rw [isValid_iff hlimit, any_isError_problems]
  constructor
  · exact fun h hunused => h (.inl hunused)
  · rintro h (hunused | ⟨-, hcompiles⟩)
    · exact h hunused
    · exact hcompiles

theorem isValid_sound_iff_standard :
    Session.standard.validationLimit.spent? = none ∧
      ((Session.standard.isValid ["rsi14"] "rsi14(2) > 50" = true →
          ∃ c, compile "rsi14(2) > 50" = .ok c) ↔
        (OnlyUnused Session.standard.registry.names ["rsi14"] (Token.recovering "rsi14(2) > 50") →
          ∃ c, compile "rsi14(2) > 50" = .ok c)) :=
  ⟨rfl, isValid_sound_iff Session.standard rfl ["rsi14"] "rsi14(2) > 50"⟩

/-- Half a sum is valid as soon as a function is declared that it does not use. -/
theorem isValid_of_unused_function :
    Session.standard.isValid ["foo"] "1 +" = true ∧ ∀ c, compile "1 +" ≠ .ok c := by
  refine ⟨by decide +kernel, fun c hc => ?_⟩
  have hfails : (compile "1 +").isOk = false := by decide +kernel
  rw [hc] at hfails
  cases hfails

end TradingRules.Validation
