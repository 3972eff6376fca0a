import TradingRules.Validation.Checks
import TradingRules.Proofs.Expr.Follow
import TradingRules.Proofs.Outcome

/-!
# The passes are silent on a written expression

The tokens of a phrase leave the open brackets and the pending question marks as they were
(`silent_of_derives`): what a phrase opens it closes, and every `?` of it meets its `:` before the bracket
closes or a comma comes. The names in call position are the calls of the tree (`callees_of_derives`).
-/

namespace TradingRules.Validation

open Grammar

variable {t opening closing : Token} {ts us : List Token} {w : Written} {e : Expr} {name : String}
  {s : Nonterminal} {parts : List Part}

-- ---------------------------------------------------------------------------
-- Brackets and question marks
-- ---------------------------------------------------------------------------

/-- Both passes go on behind the tokens as they came. -/
structure Silent (ts : List Token) : Prop where
  brackets (stack rest : List Token) : bracketsFrom stack (ts ++ rest) = bracketsFrom stack rest
  ternaries (pending : List Token) (outer : List (List Token)) (rest : List Token) :
    ternariesFrom pending outer (ts ++ rest) = ternariesFrom pending outer rest

structure SilentInside (ts : List Token) : Prop where
  brackets (stack rest : List Token) : bracketsFrom stack (ts ++ rest) = bracketsFrom stack rest
  ternaries (outer : List (List Token)) (rest : List Token) :
    ternariesFrom [] outer (ts ++ rest) = ternariesFrom [] outer rest

theorem Silent.inside (h : Silent ts) : SilentInside ts :=
  ⟨h.brackets, h.ternaries []⟩

theorem Silent.nil : Silent [] := ⟨fun _ _ => rfl, fun _ _ _ => rfl⟩

theorem Silent.append (h : Silent ts) (h' : Silent us) : Silent (ts ++ us) := by
  constructor
  · intro stack rest
    rw [List.append_assoc, h.brackets, h'.brackets]
  · intro pending outer rest
    rw [List.append_assoc, h.ternaries, h'.ternaries]

theorem SilentInside.append (h : SilentInside ts) (h' : SilentInside us) :
    SilentInside (ts ++ us) := by
  constructor
  · intro stack rest
    rw [List.append_assoc, h.brackets, h'.brackets]
  · intro outer rest
    rw [List.append_assoc, h.ternaries, h'.ternaries]

def Plain (t : Token) : Prop :=
  t.kind ≠ .delimiter ∧ t.isOperator "?" = false ∧ t.isOperator ":" = false

theorem Silent.plain (h : Plain t) : Silent [t] := by
  obtain ⟨hkind, hquestion, hcolon⟩ := h
  have hdelimiter : ∀ text, t.isDelimiter text = false := by
    intro text
    simp [Token.isDelimiter, hkind]
  constructor
  · intro stack rest
    simp [bracketsFrom, opens, closes, hdelimiter]
  · intro pending outer rest
    simp [ternariesFrom, opens, closes, hdelimiter, hquestion, hcolon]

theorem SilentInside.comma (h : t.isDelimiter "," = true) : SilentInside [t] := by
  have hopens : opens t = false := by grind [opens, Token.isDelimiter]
  have hcloses : closes t = false := by grind [closes, Token.isDelimiter]
  constructor
  · intro stack rest
    simp [bracketsFrom, hopens, hcloses]
  · intro outer rest
    simp [ternariesFrom, hopens, hcloses, h, questions]

def Pair (opening closing : Token) : Prop :=
  opening.isDelimiter "(" = true ∧ closing.isDelimiter ")" = true ∨
    opening.isDelimiter "[" = true ∧ closing.isDelimiter "]" = true

theorem Silent.enclosed (h : SilentInside us) (hpair : Pair opening closing) :
    Silent (opening :: (us ++ [closing])) := by
  have hopens : opens opening = true := by grind [Pair, opens]
  have hcloses : opens closing = false ∧ closes closing = true := by
    grind [Pair, opens, closes, Token.isDelimiter]
  have hsame : opening.text = Validation.opening closing := by
    grind [Pair, Validation.opening, Token.isDelimiter]
  constructor
  · intro stack rest
    simp [bracketsFrom, hopens, hcloses, h.brackets, hsame]
  · intro pending outer rest
    simp [ternariesFrom, hopens, hcloses, h.ternaries, questions]

theorem Silent.choice {question colon : Token} (hquestion : question.isOperator "?" = true)
    (h : Silent us) (hcolon : colon.isOperator ":" = true) :
    Silent (question :: (us ++ [colon])) := by
  have hplain : ∀ {t : Token}, t.kind = .operator → opens t = false ∧ closes t = false ∧
      t.isDelimiter "," = false := by
    intro t hkind
    simp [opens, closes, Token.isDelimiter, hkind]
  obtain ⟨hopens, hcloses, hcomma⟩ := @hplain question (by grind [Token.isOperator])
  obtain ⟨hopens', hcloses', hcomma'⟩ := @hplain colon (by grind [Token.isOperator])
  have hother : colon.isOperator "?" = false := by grind [Token.isOperator]
  constructor
  · intro stack rest
    simp [bracketsFrom, hopens, hcloses, hopens', hcloses', h.brackets]
  · intro pending outer rest
    simp [ternariesFrom, hopens, hcloses, hcomma, hquestion, hopens', hcloses', hcomma', hcolon,
      hother, h.ternaries]

theorem Silent.listed {trailing : Bool} (h : Listed trailing (parts.map Prod.fst) us)
    (hparts : ∀ a ∈ parts, Silent a.1) : SilentInside us := by
  rcases h with ⟨-, rfl⟩ | hseparated
  · exact Silent.nil.inside
  have hall : ∀ ts ∈ parts.map Prod.fst, Silent ts := by
    intro ts hts
    obtain ⟨a, ha, rfl⟩ := List.mem_map.mp hts
    exact hparts a ha
  generalize parts.map Prod.fst = firsts at hseparated hall
  induction hseparated with
  | one => exact (hall _ List.mem_cons_self).inside
  | last hcomma => exact (hall _ List.mem_cons_self).inside.append (.comma hcomma)
  | more hcomma _ ih =>
    have hlater := ih fun ts hts => hall ts (List.mem_cons_of_mem _ hts)
    exact (hall _ List.mem_cons_self).inside.append ((SilentInside.comma hcomma).append hlater)

theorem plain_of_literal (h : t.isLiteral = true) : Plain t := by
  grind [Plain, Token.isLiteral, Token.isOperator]

theorem plain_of_identifier (h : t.kind = .identifier) : Plain t := by
  grind [Plain, Token.isOperator]

theorem plain_of_point (h : t.isOperator "." = true) : Plain t := by
  grind [Plain, Token.isOperator]

theorem plain_of_operator {op : BinaryOp} (h : t.key ∈ op.spellings) : Plain t := by
  cases op <;> grind [Plain, BinaryOp.spellings, BinaryOp.symbol, Token.key, Token.isOperator]

theorem plain_of_sign {op : UnaryOp} (h : t.key ∈ op.spellings) : Plain t := by
  cases op <;> grind [Plain, UnaryOp.spellings, Token.key, Token.isOperator]

theorem silent_of_derives (h : Derives s ts w) : Silent ts := by
  induction h with
  | plain _ ih | operand _ ih | postfixed _ ih | primary _ ih => exact ih
  | ternary _ hquestion _ hcolon _ ihc ihy ihn =>
    have hchoice := (Silent.choice hquestion ihy hcolon).append ihn
    rw [List.cons_append, List.append_assoc] at hchoice
    exact ihc.append hchoice
  | binary _ hop _ _ ihleft ihright =>
    exact ihleft.append ((Silent.plain (plain_of_operator hop)).append ihright)
  | unary hop _ ih => exact (Silent.plain (plain_of_sign hop)).append ih
  | member _ hpoint hfield ih =>
    have hstep := (Silent.plain (plain_of_point hpoint)).append
      (Silent.plain (plain_of_identifier hfield))
    exact ih.append hstep
  | method _ hpoint hname hopen hlisted _ hclose ih ihargs =>
    have hargs := Silent.enclosed (Silent.listed hlisted ihargs) (.inl ⟨hopen, hclose⟩)
    have hname := (Silent.plain (plain_of_identifier hname)).append hargs
    exact ih.append ((Silent.plain (plain_of_point hpoint)).append hname)
  | index _ hopen _ hclose ih ihkey =>
    exact ih.append (Silent.enclosed ihkey.inside (.inr ⟨hopen, hclose⟩))
  | literal ht => exact Silent.plain (plain_of_literal ht)
  | ident ht => exact Silent.plain (plain_of_identifier ht)
  | call hname hopen hlisted _ hclose ihargs =>
    have hargs := Silent.enclosed (Silent.listed hlisted ihargs) (.inl ⟨hopen, hclose⟩)
    exact (Silent.plain (plain_of_identifier hname)).append hargs
  | bracketed hopen _ hclose ih => exact Silent.enclosed ih.inside (.inl ⟨hopen, hclose⟩)
  | list hopen hlisted _ hclose ihitems =>
    exact Silent.enclosed (Silent.listed hlisted ihitems) (.inr ⟨hopen, hclose⟩)

-- ---------------------------------------------------------------------------
-- Calls
-- ---------------------------------------------------------------------------

theorem callees_cons (h : t.kind ≠ .identifier) : callees (t :: ts) = callees ts := by
  cases ts with
  | nil => rfl
  | cons next rest => simp [callees, h]

theorem callees_call (hkind : t.kind = .identifier) (hopen : opening.isDelimiter "(" = true) :
    callees (t :: opening :: ts) = t :: callees ts := by
  have hopening : opening.kind ≠ .identifier := by grind [Token.isDelimiter]
  rw [callees, if_pos ⟨hkind, hopen⟩, callees_cons hopening]

theorem callees_append (h : ∀ t ∈ us.head?, t.isDelimiter "(" = false) :
    callees (ts ++ us) = callees ts ++ callees us := by
  induction ts with
  | nil => rfl
  | cons t ts ih =>
    cases ts with
    | nil =>
      cases us with
      | nil => rfl
      | cons next rest =>
        have hnext := h next rfl
        simp [callees, hnext]
    | cons next rest =>
      simp only [List.cons_append] at ih ⊢
      simp only [callees]
      split <;> simp [ih]

def Separates (t : Token) : Prop := t.isDelimiter "(" = false ∧ t.kind ≠ .identifier

theorem callees_append_cons (h : Separates t) :
    callees (ts ++ t :: us) = callees ts ++ callees us := by
  rw [callees_append (by rintro _ ⟨⟩; exact h.1), callees_cons h.2]

theorem callees_append_singleton (h : Separates t) : callees (ts ++ [t]) = callees ts := by
  rw [callees_append_cons h]
  exact List.append_nil _

theorem separates_of_operator {text : String} (h : t.isOperator text = true) : Separates t := by
  grind [Separates, Token.isOperator, Token.isDelimiter]

theorem separates_of_spelling {op : BinaryOp} (h : t.key ∈ op.spellings) : Separates t := by
  cases op <;> grind [Separates, BinaryOp.spellings, BinaryOp.symbol, Token.key, Token.isDelimiter]

theorem separates_of_sign {op : UnaryOp} (h : t.key ∈ op.spellings) : Separates t := by
  cases op <;> grind [Separates, UnaryOp.spellings, Token.key, Token.isDelimiter]

theorem separates_of_delimiter {text : String} (h : t.isDelimiter text = true) (hne : text ≠ "(") :
    Separates t := by
  grind [Separates, Token.isDelimiter]

theorem callees_listed {trailing : Bool} (h : Listed trailing (parts.map Prod.fst) us)
    (ht : t ∈ callees us) : ∃ a ∈ parts, t ∈ callees a.1 := by
  rcases h with ⟨-, rfl⟩ | hseparated
  · cases ht
  suffices hfirst : ∃ ts ∈ parts.map Prod.fst, t ∈ callees ts by
    obtain ⟨_, hts, ht⟩ := hfirst
    obtain ⟨a, ha, rfl⟩ := List.mem_map.mp hts
    exact ⟨a, ha, ht⟩
  generalize parts.map Prod.fst = firsts at hseparated ⊢
  induction hseparated with
  | one => exact ⟨_, List.mem_cons_self, ht⟩
  | last hcomma =>
    rw [callees_append_singleton (separates_of_delimiter hcomma (by decide))] at ht
    exact ⟨_, List.mem_cons_self, ht⟩
  | more hcomma _ ih =>
    rw [callees_append_cons (separates_of_delimiter hcomma (by decide))] at ht
    rcases List.mem_append.mp ht with ht | ht
    · exact ⟨_, List.mem_cons_self, ht⟩
    · obtain ⟨ts, hts, ht⟩ := ih ht
      exact ⟨ts, List.mem_cons_of_mem _ hts, ht⟩

theorem mem_callsAll {items : List Expr} : name ∈ Expr.callsAll items ↔ ∃ e ∈ items, name ∈ e.calls := by
  induction items with
  | nil => simp [Expr.callsAll]
  | cons e rest ih => simp [Expr.callsAll, ih]

theorem mem_trees? {ws : List Written} {items : List Expr} (h : Written.trees? ws = some items) :
    ∀ w ∈ ws, ∃ e ∈ items, w.tree? = some e := by
  induction ws generalizing items with
  | nil => exact nofun
  | cons w rest ih =>
    simp only [Written.trees?, Option.bind_eq_some_iff, Option.map_eq_some_iff] at h
    obtain ⟨e, htree, later, hlater, rfl⟩ := h
    intro v hv
    rcases List.mem_cons.mp hv with rfl | hv
    · exact ⟨e, List.mem_cons_self, htree⟩
    · obtain ⟨e', he', htree'⟩ := ih hlater v hv
      exact ⟨e', List.mem_cons_of_mem e he', htree'⟩

/-- The name in call position is a call of the tree, or it is `any`, which the tree calls `exists`. -/
def CalledAs (calls : List String) (name : String) : Prop := name ∈ calls ∨ name = "any"

theorem CalledAs.mono {calls calls' : List String} (h : CalledAs calls name)
    (hsub : ∀ n ∈ calls, n ∈ calls') : CalledAs calls' name :=
  h.imp_left (hsub name)

theorem name_of_ofName? {kind : Comprehension} (h : Comprehension.ofName? name = some kind) :
    name = kind.name ∨ name = "any" := by
  unfold Comprehension.ofName? at h
  split at h <;> cases h <;> simp [Comprehension.name]

theorem calls_ofUnary (op : UnaryOp) (e : Expr) : (Written.ofUnary op e).calls = e.calls := by
  cases op with
  | not => rfl
  | negate =>
    simp only [Written.ofUnary, Expr.negated]
    split
    · rfl
    · split <;> rfl
    · rfl

theorem calls_ofFunctionForm {args : List Expr} (h : Expr.ofFunctionForm name args = .ok e) :
    CalledAs e.calls name ∧ ∀ n ∈ Expr.callsAll args, n ∈ e.calls := by
  unfold Expr.ofFunctionForm at h
  split at h
  · rename_i hhas
    split at h
    · split at h
      · cases h
        rw [hhas]
        simp only [Expr.callsAll, Expr.calls, List.append_nil]
        exact ⟨.inl List.mem_cons_self, fun n hn => List.mem_cons_of_mem _ hn⟩
      · cases h
    · cases h
  · split at h
    · rename_i kind range var body hkind
      cases h
      refine ⟨(name_of_ofName? hkind).imp_left fun heq => ?_, ?_⟩
      · rw [Expr.calls, heq]
        exact List.mem_cons_self
      · simp only [Expr.callsAll, Expr.calls, List.nil_append, List.append_nil]
        exact fun n hn => List.mem_cons_of_mem _ hn
    · cases h
      exact ⟨.inl List.mem_cons_self, fun n hn => List.mem_cons_of_mem _ hn⟩

theorem calls_ofMethodForm (target : Expr) (args : List Expr) :
    CalledAs (Expr.ofMethodForm target name args).calls name ∧
      ∀ n, n ∈ target.calls ∨ n ∈ Expr.callsAll args → n ∈ (Expr.ofMethodForm target name args).calls := by
  unfold Expr.ofMethodForm
  split
  · rename_i kind var body hkind
    refine ⟨(name_of_ofName? hkind).imp_left fun heq => ?_, ?_⟩
    · rw [Expr.calls, heq]
      exact List.mem_cons_self
    · simp only [Expr.callsAll, Expr.calls, List.nil_append, List.append_nil]
      exact fun n hn => List.mem_cons_of_mem _ (List.mem_append.mpr hn)
  · refine ⟨.inl List.mem_cons_self, fun n hn => ?_⟩
    simpa [Expr.callsAll, Expr.calls] using .inr hn

def CallsNamed (ts : List Token) (w : Written) : Prop :=
  ∀ e, w.tree? = some e → ∀ t ∈ callees ts, CalledAs e.calls t.text

theorem CallsNamed.listed {trailing : Bool} {items : List Expr}
    (hlisted : Listed trailing (parts.map Prod.fst) us) (hparts : ∀ a ∈ parts, CallsNamed a.1 a.2)
    (htrees : Written.trees? (parts.map Prod.snd) = some items) (ht : t ∈ callees us) :
    CalledAs (Expr.callsAll items) t.text := by
  obtain ⟨a, ha, ht⟩ := callees_listed hlisted ht
  obtain ⟨e, he, htree⟩ := mem_trees? htrees a.2 (List.mem_map_of_mem ha)
  exact (hparts a ha e htree t ht).mono fun n hn => mem_callsAll.mpr ⟨e, he, hn⟩

theorem callees_of_derives (h : Derives s ts w) : CallsNamed ts w := by
  induction h with
  | plain _ ih | operand _ ih | postfixed _ ih | primary _ ih => exact ih
  | ternary _ hquestion _ hcolon _ ihc ihy ihn =>
    intro e htree t ht
    simp only [Written.tree?, Option.bind_eq_some_iff, Option.map_eq_some_iff] at htree
    obtain ⟨c, hc, y, hy, n, hn, rfl⟩ := htree
    rw [callees_append_cons (separates_of_operator hquestion),
      callees_append_cons (separates_of_operator hcolon)] at ht
    simp only [List.mem_append] at ht
    rcases ht with ht | ht | ht
    · exact (ihc c hc t ht).mono fun n hn => by simp [Expr.calls, hn]
    · exact (ihy y hy t ht).mono fun n hn => by simp [Expr.calls, hn]
    · exact (ihn n hn t ht).mono fun n hn => by simp [Expr.calls, hn]
  | binary _ hop _ _ ihleft ihright =>
    intro e htree t ht
    simp only [Written.tree?, Option.bind_eq_some_iff, Option.map_eq_some_iff] at htree
    obtain ⟨l, hl, r, hr, rfl⟩ := htree
    rw [callees_append_cons (separates_of_spelling hop)] at ht
    rcases List.mem_append.mp ht with ht | ht
    · exact (ihleft l hl t ht).mono fun n hn => by simp [Expr.calls, hn]
    · exact (ihright r hr t ht).mono fun n hn => by simp [Expr.calls, hn]
  | unary hop _ ih =>
    intro e htree t ht
    simp only [Written.tree?, Option.map_eq_some_iff] at htree
    obtain ⟨x, hx, rfl⟩ := htree
    rw [callees_cons (separates_of_sign hop).2] at ht
    rw [calls_ofUnary]
    exact ih x hx t ht
  | member _ hpoint hfield ih =>
    intro e htree t ht
    simp only [Written.tree?, Option.map_eq_some_iff] at htree
    obtain ⟨x, hx, rfl⟩ := htree
    rw [callees_append_cons (separates_of_operator hpoint)] at ht
    exact ih x hx t (by simpa [callees] using ht)
  | method _ hpoint hname hopen hlisted _ hclose ih ihargs =>
    intro e htree t ht
    simp only [Written.tree?, Option.bind_eq_some_iff, Option.map_eq_some_iff] at htree
    obtain ⟨x, hx, items, hitems, rfl⟩ := htree
    obtain ⟨hcalled, hsub⟩ := calls_ofMethodForm x items
    rw [callees_append_cons (separates_of_operator hpoint), callees_call hname hopen,
      callees_append_singleton (separates_of_delimiter hclose (by decide))] at ht
    simp only [List.mem_append, List.mem_cons] at ht
    rcases ht with ht | rfl | ht
    · exact (ih x hx t ht).mono fun n hn => hsub n (.inl hn)
    · exact hcalled
    · exact (CallsNamed.listed hlisted ihargs hitems ht).mono fun n hn => hsub n (.inr hn)
  | index _ hopen _ hclose ih ihkey =>
    intro e htree t ht
    simp only [Written.tree?, Option.bind_eq_some_iff, Option.map_eq_some_iff] at htree
    obtain ⟨x, hx, k, hk, rfl⟩ := htree
    rw [callees_append_cons (separates_of_delimiter hopen (by decide)),
      callees_append_singleton (separates_of_delimiter hclose (by decide))] at ht
    rcases List.mem_append.mp ht with ht | ht
    · exact (ih x hx t ht).mono fun n hn => by simp [Expr.calls, hn]
    · exact (ihkey k hk t ht).mono fun n hn => by simp [Expr.calls, hn]
  | literal | ident =>
    intro e _ t ht
    cases ht
  | call hname hopen hlisted _ hclose ihargs =>
    intro e htree t ht
    simp only [Written.tree?, Option.bind_eq_some_iff, Except.toOption_eq_some] at htree
    obtain ⟨items, hitems, hform⟩ := htree
    obtain ⟨hcalled, hsub⟩ := calls_ofFunctionForm hform
    rw [callees_call hname hopen,
      callees_append_singleton (separates_of_delimiter hclose (by decide))] at ht
    rcases List.mem_cons.mp ht with rfl | ht
    · exact hcalled
    · exact (CallsNamed.listed hlisted ihargs hitems ht).mono hsub
  | bracketed hopen _ hclose ih =>
    intro e htree t ht
    have hkind : ∀ {t : Token}, t.isDelimiter "(" = true → t.kind ≠ .identifier := by
      grind [Token.isDelimiter]
    rw [callees_cons (hkind hopen),
      callees_append_singleton (separates_of_delimiter hclose (by decide))] at ht
    exact ih e htree t ht
  | list hopen hlisted _ hclose ihitems =>
    intro e htree t ht
    simp only [Written.tree?, Option.map_eq_some_iff] at htree
    obtain ⟨items, hitems, rfl⟩ := htree
    rw [callees_cons (separates_of_delimiter hopen (by decide)).2,
      callees_append_singleton (separates_of_delimiter hclose (by decide))] at ht
    exact CallsNamed.listed hlisted ihitems hitems ht

end TradingRules.Validation
