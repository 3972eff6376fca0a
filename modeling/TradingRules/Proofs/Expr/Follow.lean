import TradingRules.Proofs.Expr.Grammar

/-!
# How a phrase begins and where it ends

The phrases are ranked, the loosest first. A token that goes on with a phrase goes on with every looser
one that ends there too, so the tokens that end a phrase end every tighter one (`Stops.tighter`).
-/

namespace TradingRules

def Expr.Level.rank : Expr.Level → Nat
  | .or => 1
  | .and => 2
  | .equality => 3
  | .relation => 4
  | .sum => 5
  | .product => 6

namespace Grammar

def Nonterminal.rank : Nonterminal → Nat
  | .expression => 0
  | .level l => l.rank
  | .unary => 7
  | .postfixed => 8
  | .primary => 9

theorem rank_operand (level : Expr.Level) :
    (operand level).rank = (Nonterminal.level level).rank + 1 := by
  cases level <;> rfl

theorem rank_level_pos (level : Expr.Level) : 0 < (Nonterminal.level level).rank := by
  cases level <;> decide

theorem rank_level_lt (level : Expr.Level) :
    (Nonterminal.level level).rank < Nonterminal.unary.rank := by
  cases level <;> decide

-- ---------------------------------------------------------------------------
-- Where a phrase ends
-- ---------------------------------------------------------------------------

/-- The tightest phrase the token goes on with. -/
def goesOn? (t : Token) : Option Nonterminal :=
  match t.kind, t.text with
  | .operator, "?" => some .expression
  | .operator, "||" | .keyword, "or" => some (.level .or)
  | .operator, "&&" | .keyword, "and" => some (.level .and)
  | .operator, "==" | .operator, "!=" => some (.level .equality)
  | .operator, "<" | .operator, "<=" | .operator, ">" | .operator, ">=" | .keyword, "in" =>
    some (.level .relation)
  | .operator, "+" | .operator, "-" => some (.level .sum)
  | .operator, "*" | .operator, "/" | .operator, "%" => some (.level .product)
  | .operator, "." | .delimiter, "[" => some .postfixed
  | .delimiter, "(" => some .primary
  | _, _ => none

/-- A phrase that ends in front of `rest` could not go on there. -/
def Stops (s : Nonterminal) (rest : List Token) : Prop :=
  ∀ t ∈ rest.head?, ∀ r, goesOn? t = some r → r.rank < s.rank

variable {s : Nonterminal} {t : Token} {rest ts : List Token} {w : Written} {op : BinaryOp}
  {level : Expr.Level}

theorem Stops.nil : Stops s [] :=
  fun _ ht => nomatch ht

theorem Stops.of_goesOn_none (h : goesOn? t = none) : Stops s (t :: rest) := by
  intro t' ht' r hr
  rw [Option.mem_some_iff.mp ht'] at h
  rw [h] at hr
  cases hr

theorem Stops.of_goesOn_some {r : Nonterminal} (h : goesOn? t = some r) (hr : r.rank < s.rank) :
    Stops s (t :: rest) := by
  rintro t' ht' r' hr'
  rw [Option.mem_some_iff.mp ht'] at h
  cases h.symm.trans hr'
  exact hr

theorem Stops.tighter {s' : Nonterminal} (h : Stops s rest) (hrank : s.rank ≤ s'.rank) :
    Stops s' rest :=
  fun t ht r hr => Nat.lt_of_lt_of_le (h t ht r hr) hrank

theorem Stops.refuses {r : Nonterminal} {test : Token → Bool} (h : Stops s rest)
    (hgoesOn : ∀ t, test t = true → goesOn? t = some r) (hrank : s.rank ≤ r.rank) :
    ∀ t ∈ rest.head?, test t = false := by
  intro t ht
  rw [← Bool.not_eq_true]
  intro htest
  exact Nat.not_lt.mpr hrank (h t ht r (hgoesOn t htest))

theorem Stops.head_ne {r : Nonterminal} (h : Stops s (t :: rest)) (hr : goesOn? t = some r)
    (hrank : s.rank ≤ r.rank) : False :=
  Nat.not_lt.mpr hrank (h t rfl r hr)

theorem goesOn_of_key {kind : Token.Kind} {text : String} (h : t.key = (kind, text)) :
    goesOn? t = goesOn? ⟨kind, text, .start⟩ := by
  obtain ⟨kind', text', place⟩ := t
  cases h
  rfl

theorem goesOn_question (h : t.isOperator "?" = true) : goesOn? t = some .expression :=
  (goesOn_of_key (Token.key_of_operator h)).trans rfl

theorem goesOn_operator (h : t.key ∈ op.spellings) : goesOn? t = some (.level op.level) := by
  cases op with
  | or | and =>
    simp only [BinaryOp.spellings, List.mem_cons, List.not_mem_nil, or_false] at h
    rcases h with h | h <;> exact (goesOn_of_key h).trans rfl
  | _ => exact (goesOn_of_key (List.mem_singleton.mp h)).trans rfl

theorem goesOn_point (h : t.isOperator "." = true) : goesOn? t = some .postfixed :=
  (goesOn_of_key (Token.key_of_operator h)).trans rfl

theorem goesOn_square (h : t.isDelimiter "[" = true) : goesOn? t = some .postfixed :=
  (goesOn_of_key (Token.key_of_delimiter h)).trans rfl

theorem goesOn_round (h : t.isDelimiter "(" = true) : goesOn? t = some .primary :=
  (goesOn_of_key (Token.key_of_delimiter h)).trans rfl

theorem goesOn_colon (h : t.isOperator ":" = true) : goesOn? t = none :=
  (goesOn_of_key (Token.key_of_operator h)).trans rfl

theorem goesOn_delimiter (h : t.isDelimiter ")" = true ∨ t.isDelimiter "]" = true ∨
    t.isDelimiter "," = true) : goesOn? t = none := by
  rcases h with h | h | h <;> exact (goesOn_of_key (Token.key_of_delimiter h)).trans rfl

-- ---------------------------------------------------------------------------
-- How a phrase begins
-- ---------------------------------------------------------------------------

def Begins (s : Nonterminal) (t : Token) : Prop :=
  (t.isLiteral = true ∨ t.kind = .identifier ∨ t.isDelimiter "(" = true ∨ t.isDelimiter "[" = true) ∨
    s.rank ≤ Nonterminal.unary.rank ∧ ∃ op : UnaryOp, t.key ∈ op.spellings

theorem Begins.looser {s' : Nonterminal} (h : Begins s t) (hrank : s'.rank ≤ s.rank) : Begins s' t :=
  h.imp_right fun ⟨hs, hop⟩ => ⟨Nat.le_trans hrank hs, hop⟩

def BeginsWell (s : Nonterminal) (ts : List Token) : Prop :=
  ∃ t us, ts = t :: us ∧ Begins s t

theorem BeginsWell.looser {s' : Nonterminal} (h : BeginsWell s ts) (hrank : s'.rank ≤ s.rank) :
    BeginsWell s' ts := by
  obtain ⟨t, us, hts, ht⟩ := h
  exact ⟨t, us, hts, ht.looser hrank⟩

theorem BeginsWell.append (h : BeginsWell s ts) (us : List Token) : BeginsWell s (ts ++ us) := by
  obtain ⟨t, vs, rfl, ht⟩ := h
  exact ⟨t, vs ++ us, rfl, ht⟩

theorem Derives.begins (h : Derives s ts w) : BeginsWell s ts := by
  induction h with
  | plain _ ih => exact ih.looser (Nat.zero_le _)
  | ternary _ _ _ _ _ ihc => exact (ihc.looser (Nat.zero_le _)).append _
  | operand _ ih => exact ih.looser (by rw [rank_operand]; omega)
  | binary _ _ _ _ ihleft => exact ihleft.append _
  | unary hop _ _ => exact ⟨_, _, rfl, .inr ⟨Nat.le_refl _, _, hop⟩⟩
  | postfixed _ ih => exact ih.looser (by decide)
  | primary _ ih => exact ih.looser (by decide)
  | member _ _ _ ih => exact ih.append _
  | method _ _ _ _ _ _ _ ih => exact ih.append _
  | index _ _ _ _ ih => exact ih.append _
  | literal ht => exact ⟨_, _, rfl, .inl (.inl ht)⟩
  | ident ht => exact ⟨_, _, rfl, .inl (.inr (.inl ht))⟩
  | call ht => exact ⟨_, _, rfl, .inl (.inr (.inl ht))⟩
  | bracketed ht => exact ⟨_, _, rfl, .inl (.inr (.inr (.inl ht)))⟩
  | list ht => exact ⟨_, _, rfl, .inl (.inr (.inr (.inr ht)))⟩

theorem BeginsWell.head (h : BeginsWell s ts) (rest : List Token) :
    ∀ t ∈ (ts ++ rest).head?, Begins s t := by
  obtain ⟨t, us, rfl, ht⟩ := h
  rintro _ ⟨⟩
  exact ht

theorem Separated.begins {trailing : Bool} {parts : List Part}
    (h : Separated trailing (parts.map Prod.fst) ts)
    (hparts : ∀ a ∈ parts, Derives .expression a.1 a.2) : BeginsWell .expression ts := by
  have hfirst : ∀ us firsts, parts.map Prod.fst = us :: firsts → BeginsWell .expression us := by
    intro us firsts heq
    obtain ⟨a, later, rfl, rfl, -⟩ := List.map_eq_cons_iff.mp heq
    exact (hparts a List.mem_cons_self).begins
  generalize parts.map Prod.fst = firsts at h hfirst
  cases h with
  | one => exact hfirst _ _ rfl
  | last => exact (hfirst _ _ rfl).append _
  | more => exact (hfirst _ _ rfl).append _

theorem Begins.not_closing (h : Begins s t) :
    t.isDelimiter ")" = false ∧ t.isDelimiter "]" = false := by
  rcases h with h | ⟨-, op, hop⟩
  · grind [Token.isLiteral, Token.isDelimiter]
  · cases op <;> grind [UnaryOp.spellings, Token.key, Token.isDelimiter]

theorem Begins.not_sign (h : Begins .postfixed t) (op : UnaryOp) : t.key ∉ op.spellings := by
  rcases h with h | ⟨hrank, -⟩
  · cases op <;> grind [Token.isLiteral, Token.isDelimiter, UnaryOp.spellings, Token.key]
  · exact absurd hrank (by decide)

end Grammar

end TradingRules
