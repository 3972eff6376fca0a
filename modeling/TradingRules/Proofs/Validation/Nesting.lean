import TradingRules.Proofs.Validation.Silence

/-!
# The bracket pass decides well-nestedness

The pass goes on behind a bracket that does not match, but it has then said so. Where it says nothing,
every closing bracket has taken its own opening one off the stack and the stack is empty at the end, so that
the brackets of the tokens are a well-nested word (`brackets_eq_nil_iff`).
-/

namespace TradingRules.Validation

def isBracket (t : Token) : Bool := t.kind == .delimiter && ["(", ")", "[", "]"].contains t.text

/-- Words in which each opening bracket is closed by one of its kind, with a well-nested word between. -/
inductive WellNested : List Token → Prop
  | nil : WellNested []
  | enclosed {opening closing : Token} {ts : List Token} :
      Pair opening closing → WellNested ts → WellNested (opening :: (ts ++ [closing]))
  | append {ts us : List Token} : WellNested ts → WellNested us → WellNested (ts ++ us)

/-- Words that close the open brackets, innermost first, with well-nested words before, between and
behind. -/
inductive Completes : List Token → List Token → Prop
  | nil {ts : List Token} : WellNested ts → Completes [] ts
  | cons {opening closing : Token} {stack ts us : List Token} :
      WellNested ts → Pair opening closing → Completes stack us →
      Completes (opening :: stack) (ts ++ closing :: us)

variable {t opening closing : Token} {ts us tokens stack : List Token}

theorem isBracket_of_opens (h : opens t = true) : isBracket t = true := by
  grind [isBracket, opens, Token.isDelimiter]

theorem isBracket_of_closes (h : closes t = true) : isBracket t = true := by
  grind [isBracket, closes, Token.isDelimiter]

theorem not_isBracket (hopens : ¬opens t = true) (hcloses : ¬closes t = true) : ¬isBracket t = true := by
  grind [isBracket, opens, closes, Token.isDelimiter]

theorem pair_of_text_eq (hopens : opens opening = true) (hcloses : closes closing = true)
    (hsame : opening.text = Validation.opening closing) : Pair opening closing := by
  grind [Pair, opens, closes, Validation.opening, Token.isDelimiter]

-- ---------------------------------------------------------------------------
-- Well-nested words pass
-- ---------------------------------------------------------------------------

theorem silent_of_wellNested (h : WellNested ts) : Silent ts := by
  induction h with
  | nil => exact Silent.nil
  | enclosed hpair _ ih => exact Silent.enclosed ih.inside hpair
  | append _ _ ihfirst ihsecond => exact ihfirst.append ihsecond

/-- The pass looks at brackets alone. -/
theorem bracketsFrom_filter (stack tokens : List Token) :
    bracketsFrom stack (tokens.filter isBracket) = bracketsFrom stack tokens := by
  fun_induction bracketsFrom stack tokens with
  | case1 stack => rfl
  | case2 stack t rest hopens ih => simp [bracketsFrom, isBracket_of_opens hopens, hopens, ih]
  | case3 t rest hopens hcloses ih =>
    simp [bracketsFrom, isBracket_of_closes hcloses, hopens, hcloses, ih]
  | case4 t rest hopens hcloses o stack hsame ih =>
    simp [bracketsFrom, isBracket_of_closes hcloses, hopens, hcloses, hsame, ih]
  | case5 t rest hopens hcloses o stack hother ih =>
    simp [bracketsFrom, isBracket_of_closes hcloses, hopens, hcloses, hother, ih]
  | case6 stack t rest hopens hcloses ih => rw [List.filter_cons_of_neg (not_isBracket hopens hcloses), ih]

-- ---------------------------------------------------------------------------
-- What passes is well nested
-- ---------------------------------------------------------------------------

theorem Completes.prepend (hts : WellNested ts) (h : Completes stack us) : Completes stack (ts ++ us) := by
  cases h with
  | nil hus => exact .nil (hts.append hus)
  | cons hfirst hpair hrest =>
    rw [← List.append_assoc]
    exact .cons (hts.append hfirst) hpair hrest

/-- What completes a stack with one more bracket on it completes the stack when that bracket leads. -/
theorem Completes.pop (h : Completes (t :: stack) us) : Completes stack (t :: us) := by
  cases h with
  | @cons _ closing _ inside behind hinside hpair hbehind =>
    have henclosed : t :: (inside ++ closing :: behind) = (t :: (inside ++ [closing])) ++ behind := by simp
    rw [henclosed]
    exact hbehind.prepend (.enclosed hpair hinside)

theorem completes_of_bracketsFrom (hstack : ∀ o ∈ stack, opens o = true) :
    bracketsFrom stack tokens = [] → Completes stack (tokens.filter isBracket) := by
  fun_induction bracketsFrom stack tokens with
  | case1 stack =>
    intro h
    obtain rfl : stack = [] := by simpa using h
    exact .nil .nil
  | case2 stack t rest hopens ih =>
    intro h
    rw [List.filter_cons_of_pos (isBracket_of_opens hopens)]
    exact (ih (List.forall_mem_cons.mpr ⟨hopens, hstack⟩) h).pop
  | case3 => exact nofun
  | case4 t rest hopens hcloses o stack hsame ih =>
    intro h
    obtain ⟨ho, hstack⟩ := List.forall_mem_cons.mp hstack
    rw [List.filter_cons_of_pos (isBracket_of_closes hcloses)]
    exact .cons .nil (pair_of_text_eq ho hcloses hsame) (ih hstack h)
  | case5 => exact nofun
  | case6 stack t rest hopens hcloses ih =>
    rw [List.filter_cons_of_neg (not_isBracket hopens hcloses)]
    exact ih hstack

/-- The pass is silent exactly if the brackets of the tokens, in their order, are well nested. -/
theorem brackets_eq_nil_iff (tokens : List Token) :
    brackets tokens = [] ↔ WellNested (tokens.filter isBracket) := by
  constructor
  · intro h
    have hcompletes : Completes [] (tokens.filter isBracket) := completes_of_bracketsFrom nofun h
    cases hcompletes with
    | nil hnested => exact hnested
  · intro h
    have hsilent := (silent_of_wellNested h).brackets [] []
    rwa [List.append_nil, bracketsFrom_filter] at hsilent

end TradingRules.Validation
