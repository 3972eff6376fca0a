import TradingRules.Proofs.Expr.Completeness
import TradingRules.Proofs.Expr.Unambiguous
import TradingRules.Token.Lexer

/-!
# The parser accepts its grammar

A list of tokens has the trees of the written expressions it derives as (`ofTokens_eq_ok_iff`), of which
there is one at most, and is refused for its nesting exactly if that expression opens too many levels.
-/

namespace TradingRules.Expr

open Parse Grammar

variable {tokens : List Token} {w : Written} {e : Expr}

theorem mem_of_separated {trailing : Bool} {parts : List (List Token)} {us : List Token} {t : Token}
    (h : Separated trailing parts us) (ht : t ∈ us) :
    t.isDelimiter "," = true ∨ ∃ ts ∈ parts, t ∈ ts := by
  induction h with
  | one => exact .inr ⟨_, List.mem_singleton_self _, ht⟩
  | last hcomma =>
    rcases List.mem_append.mp ht with ht | ht
    · exact .inr ⟨_, List.mem_singleton_self _, ht⟩
    · exact .inl (List.mem_singleton.mp ht ▸ hcomma)
  | more hcomma _ ih =>
    rcases List.mem_append.mp ht with ht | ht
    · exact .inr ⟨_, List.mem_cons_self, ht⟩
    rcases List.mem_cons.mp ht with rfl | ht
    · exact .inl hcomma
    · exact (ih ht).imp_right fun ⟨ts, hts, ht⟩ => ⟨ts, List.mem_cons_of_mem _ hts, ht⟩

def Faultless (ts : List Token) : Prop := ∀ t ∈ ts, t.fault? = none

theorem Faultless.append {ts us : List Token} (h : Faultless ts) (h' : Faultless us) :
    Faultless (ts ++ us) := by
  intro t ht
  exact (List.mem_append.mp ht).elim (h t) (h' t)

theorem Faultless.cons {t : Token} {ts : List Token} (h : t.fault? = none) (h' : Faultless ts) :
    Faultless (t :: ts) := by
  intro t' ht'
  rcases List.mem_cons.mp ht' with rfl | ht'
  · exact h
  · exact h' t' ht'

theorem Faultless.nil : Faultless [] := nofun

theorem fault?_of_operator {t : Token} {text : String} (h : t.isOperator text = true) :
    t.fault? = none := by
  grind [Token.isOperator, Token.fault?]

theorem fault?_of_delimiter {t : Token} {text : String} (h : t.isDelimiter text = true) :
    t.fault? = none := by
  grind [Token.isDelimiter, Token.fault?]

theorem fault?_of_identifier {t : Token} (h : t.kind = .identifier) : t.fault? = none := by
  simp [Token.fault?, h]

theorem fault?_of_spelling {t : Token} {op : BinaryOp} (h : t.key ∈ op.spellings) :
    t.fault? = none := by
  cases op <;> grind [BinaryOp.spellings, Token.key, Token.fault?]

theorem fault?_of_sign {t : Token} {op : UnaryOp} (h : t.key ∈ op.spellings) : t.fault? = none := by
  cases op <;> grind [UnaryOp.spellings, Token.key, Token.fault?]

theorem fault?_of_literal {t : Token} (h : t.isLiteral = true) : t.fault? = none := by
  grind [Token.isLiteral, Token.fault?]

theorem faultless_of_listed {trailing : Bool} {parts : List Part} {us : List Token}
    (h : Listed trailing (parts.map Prod.fst) us) (hparts : ∀ a ∈ parts, Faultless a.1) :
    Faultless us := by
  intro t ht
  rcases h with ⟨-, rfl⟩ | hseparated
  · cases ht
  rcases mem_of_separated hseparated ht with hcomma | ⟨ts, hts, ht⟩
  · exact fault?_of_delimiter hcomma
  · obtain ⟨a, ha, rfl⟩ := List.mem_map.mp hts
    exact hparts a ha t ht

theorem faultless_of_derives {s : Nonterminal} (h : Derives s tokens w) : Faultless tokens := by
  induction h with
  | plain _ ih | operand _ ih | postfixed _ ih | primary _ ih => exact ih
  | ternary _ hquestion _ hcolon _ ihc ihy ihn =>
    refine ihc.append (.cons (fault?_of_operator hquestion) ?_)
    exact ihy.append (.cons (fault?_of_operator hcolon) ihn)
  | binary _ hop _ _ ihleft ihright =>
    exact ihleft.append (.cons (fault?_of_spelling hop) ihright)
  | unary hop _ ih => exact .cons (fault?_of_sign hop) ih
  | member _ hpoint hfield ih =>
    refine ih.append (.cons (fault?_of_operator hpoint) ?_)
    exact .cons (fault?_of_identifier hfield) .nil
  | method _ hpoint hname hopen hlisted _ hclose ih ihargs =>
    refine ih.append (.cons (fault?_of_operator hpoint) ?_)
    refine .cons (fault?_of_identifier hname) (.cons (fault?_of_delimiter hopen) ?_)
    exact (faultless_of_listed hlisted ihargs).append (.cons (fault?_of_delimiter hclose) .nil)
  | index _ hopen _ hclose ih ihkey =>
    refine ih.append (.cons (fault?_of_delimiter hopen) ?_)
    exact ihkey.append (.cons (fault?_of_delimiter hclose) .nil)
  | literal ht => exact .cons (fault?_of_literal ht) .nil
  | ident ht => exact .cons (fault?_of_identifier ht) .nil
  | call hname hopen hlisted _ hclose ihargs =>
    refine .cons (fault?_of_identifier hname) (.cons (fault?_of_delimiter hopen) ?_)
    exact (faultless_of_listed hlisted ihargs).append (.cons (fault?_of_delimiter hclose) .nil)
  | bracketed hopen _ hclose ih =>
    refine .cons (fault?_of_delimiter hopen) ?_
    exact ih.append (.cons (fault?_of_delimiter hclose) .nil)
  | list hopen hlisted _ hclose ihitems =>
    refine .cons (fault?_of_delimiter hopen) ?_
    exact (faultless_of_listed hlisted ihitems).append (.cons (fault?_of_delimiter hclose) .nil)

/-- The tokens of a written expression with a tree are accepted if its levels are within the limit, and
refused for their nesting otherwise. -/
theorem ofTokens_of_derives (h : Derives .expression tokens w) (htree : w.tree? = some e) :
    (w.levels none 1 ≤ maxDepth → ofTokens tokens = .ok e) ∧
      (maxDepth < w.levels none 1 → ∃ place, ofTokens tokens = .error ⟨.nestedTooDeeply, place⟩) := by
  have hfaults : tokens.findSome? (fun t => t.fault?.map fun f => (t, f)) = none := by
    rw [List.findSome?_eq_none_iff]
    intro t ht
    rw [faultless_of_derives h t ht]
    rfl
  have hsome : tokens.isEmpty = false := by
    obtain ⟨t, ts, rfl, -⟩ := h.begins
    rfl
  have hread := accepted_of_derives h 0 (32 * (tokens.length + 1)) [] 0 e
    (Nat.add_le_add_left (by decide) _) htree Stops.nil (Nat.le_refl 0) (Nat.zero_le _)
  rw [List.append_nil, Nat.zero_max] at hread
  have hwhole : Proceeds (Phrase.whole (32 * (tokens.length + 1))) ⟨tokens, 0, 0⟩ (pure e)
      ⟨[], 0, w.levels none 1⟩ :=
    hread.then (Nat.le_refl _) fun hwithin => Proceeds.after rfl (Proceeds.refl hwithin rfl)
  unfold ofTokens
  rw [hfaults]
  simp only [hsome, Bool.false_eq_true, ↓reduceIte]
  constructor
  · intro hwithin
    rw [hwhole.within hwithin]
    rfl
  · intro hbeyond
    obtain ⟨place, hrun⟩ := hwhole.beyond hbeyond
    exact ⟨place, by rw [hrun]; rfl⟩

theorem ofTokens_eq_ok_iff : ofTokens tokens = .ok e ↔
    ∃ w, Derives .expression tokens w ∧ w.tree? = some e ∧ w.levels none 1 ≤ maxDepth := by
  constructor
  · intro hok
    obtain ⟨w, hw, htree⟩ := derives_of_ofTokens hok
    refine ⟨w, hw, htree, Nat.le_of_not_lt fun hbeyond => ?_⟩
    obtain ⟨place, herror⟩ := (ofTokens_of_derives hw htree).2 hbeyond
    rw [hok] at herror
    cases herror
  · rintro ⟨w, hw, htree, hwithin⟩
    exact (ofTokens_of_derives hw htree).1 hwithin

end TradingRules.Expr
