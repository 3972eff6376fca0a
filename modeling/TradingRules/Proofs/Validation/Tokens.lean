import TradingRules.Proofs.Validation.Soundness

/-!
# The tokens that validation and compiling read

Validation looks at the tokens of the recovering lexer, compiling at those of the strict one. These are
the same through the first fault, so that the grammar is asked about one list of tokens by both wherever
no lexical problem is reported (`lexers_agree`).
-/

namespace TradingRules.Validation

variable {known extra : List String} {source : String}

def Finding.isLexical : Finding → Bool
  | .lexical _ _ => true
  | _ => false

theorem isLexical_of_mem_lexical {tokens : List Token} {p : Problem} (h : p ∈ lexical tokens) :
    p.finding.isLexical = true := by
  obtain ⟨t, -, ht⟩ := List.mem_filterMap.mp h
  obtain ⟨f, -, rfl⟩ := Option.map_eq_some_iff.mp ht
  rfl

theorem lexical_subset_problems (known extra : List String) (source : String) :
    lexical (Token.recovering source) ⊆ problems known extra source := by
  intro p hp
  have hnonempty : Token.recovering source ≠ [] := by
    intro hempty
    rw [hempty] at hp
    cases hp
  have hfound : p ∈ tokenProblems known extra (Token.recovering source) := by
    simp [tokenProblems, hp]
  have hsome : tokenProblems known extra (Token.recovering source) ≠ [] := List.ne_nil_of_mem hfound
  simp only [problems, List.isEmpty_iff, hnonempty, hsome, ↓reduceIte]
  exact List.mem_mergeSort.mpr hfound

theorem lexical_of_problems (h : ∀ p ∈ problems known extra source, p.finding.isLexical = false) :
    lexical (Token.recovering source) = [] := by
  refine List.eq_nil_iff_forall_not_mem.mpr fun p hp => ?_
  have hlexical := h p (lexical_subset_problems known extra source hp)
  rw [isLexical_of_mem_lexical hp] at hlexical
  cases hlexical

/-- The strict lexer finds the tokens of the recovering one in front of the first fault, and that fault. If
there is none, or validation reports no lexical problem, both lists are the same, and the grammar is asked
the same question when a text is validated as when it is compiled. -/
theorem lexers_agree (known extra : List String) (source : String) :
    Token.strict source = (Token.recovering source).takeWhile (fun t => !t.isFault) ++
      ((Token.recovering source).find? Token.isFault).toList ∧
    ((∀ t ∈ Token.recovering source, t.isFault = false) → Token.strict source = Token.recovering source) ∧
    ((∀ p ∈ problems known extra source, p.finding.isLexical = false) →
      Token.recovering source = Token.strict source ∧
        Expr.ofTokensOf source (Token.recovering source) = Expr.parse source) := by
  refine ⟨?_, Token.strict_eq_recovering, fun h => ?_⟩
  · rw [Token.strict, Token.lexFrom_strict, Token.upToFault_eq, Token.recovering]
  · have hsame := Token.strict_eq_recovering (lexical_eq_nil.mp (lexical_of_problems h))
    exact ⟨hsame.symm, by rw [Expr.parse, hsame]⟩

def crossingRule : String := "rsi14.value >= 7.5e1 and\n  not crossed('ema \\'fast\\'', [x, -1])"

theorem lexers_agree_crossingRule :
    (∀ t ∈ Token.recovering crossingRule, t.isFault = false) ∧
      (∀ p ∈ problems [] [] crossingRule, p.finding.isLexical = false) ∧
      Token.strict crossingRule = Token.recovering crossingRule ∧
      Expr.ofTokensOf crossingRule (Token.recovering crossingRule) = Expr.parse crossingRule := by
  have hfaults : ∀ t ∈ Token.recovering crossingRule, t.isFault = false := by decide +kernel
  have hproblems : ∀ p ∈ problems [] [] crossingRule, p.finding.isLexical = false := by decide +kernel
  obtain ⟨-, hsame, hparsers⟩ := lexers_agree [] [] crossingRule
  exact ⟨hfaults, hproblems, hsame hfaults, (hparsers hproblems).2⟩

end TradingRules.Validation
