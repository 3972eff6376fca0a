import TradingRules.Proofs.Expr.Follow

/-!
# At most one derivation

The tokens a phrase begins with decide which phrase it is and where it ends, if no reading of them could
go on where it stops (`forced`). So a list of tokens spells one written expression at most.

The chains of the grammar are recursive on the left; they are compared as a first operand and the steps
in their order (`Run`).
-/

namespace TradingRules.Grammar

abbrev Step := List Token → Written → Written → Prop

inductive Run (step : Step) : Written → List Token → Written → Prop
  | done : Run step w [] w
  | more (hstep : step us w w₁) (hrest : Run step w₁ vs w₂) : Run step w (us ++ vs) w₂

inductive OperatorStep (level : Expr.Level) : Step
  | mk (hop : sign.key ∈ op.spellings) (hlevel : op.level = level)
      (hright : Derives (operand level) us right) :
      OperatorStep level (sign :: us) left (.binary op left right)

inductive PostfixStep : Step
  | member (hpoint : point.isOperator ".") (hfield : field.kind = .identifier) :
      PostfixStep [point, field] w (.member w field.text)
  | method {args : List Part} (hpoint : point.isOperator ".") (hname : name.kind = .identifier)
      (hopen : opening.isDelimiter "(") (hlisted : Listed false (args.map Prod.fst) us)
      (hargs : ∀ a ∈ args, Derives .expression a.1 a.2) (hclose : closing.isDelimiter ")") :
      PostfixStep (point :: name :: opening :: (us ++ [closing])) w
        (.method w name.text (args.map Prod.snd))
  | index (hopen : opening.isDelimiter "[") (hkey : Derives .expression us key)
      (hclose : closing.isDelimiter "]") :
      PostfixStep (opening :: (us ++ [closing])) w (.index w key)

inductive Later (trailing : Bool) : List Part → List Token → Prop
  | none : Later trailing [] []
  | last (hcomma : comma.isDelimiter ",") (hallowed : trailing = true) : Later trailing [] [comma]
  | more (hcomma : comma.isDelimiter ",") (hrest : Separated trailing (parts.map Prod.fst) us) :
      Later trailing parts (comma :: us)

variable {s : Nonterminal} {ts ts' us us' vs vs' rest rest' : List Token} {w w' w₁ w₁' w₂ : Written}
  {level : Expr.Level} {n : Nat} {step : Step} {whole first : Nonterminal}

-- ---------------------------------------------------------------------------
-- Chains
-- ---------------------------------------------------------------------------

/-- No other phrase of the kind begins with the same tokens. -/
def Forced (s : Nonterminal) (ts : List Token) (w : Written) : Prop :=
  ∀ ⦃ts' w' rest rest'⦄, Derives s ts' w' → ts ++ rest = ts' ++ rest' → Stops s rest → Stops s rest' →
    ts = ts' ∧ w = w'

theorem Forced.split (h : Forced s ts w) (h' : Derives s ts' w') (heq : ts ++ rest = ts' ++ rest')
    (hstops : Stops s rest) (hstops' : Stops s rest') : ts = ts' ∧ w = w' ∧ rest = rest' := by
  obtain ⟨rfl, rfl⟩ := h h' heq hstops hstops'
  exact ⟨rfl, rfl, List.append_cancel_left heq⟩

theorem Run.snoc (h : Run step w vs w₁) (hstep : step us w₁ w₂) : Run step w (vs ++ us) w₂ := by
  induction h with
  | done =>
    have hone := Run.more hstep .done
    rwa [List.append_nil] at hone
  | more hfirst _ ih =>
    rw [List.append_assoc]
    exact .more hfirst (ih hstep)

def Continues (step : Step) (whole first : Nonterminal) : Prop :=
  ∀ ⦃us w w₁⦄ rest, step us w w₁ → Stops first (us ++ rest) ∧ ¬Stops whole (us ++ rest)

def ForcesStep (step : Step) (first : Nonterminal) (n : Nat) : Prop :=
  ∀ ⦃us us' w w₁ w₁' rest rest'⦄, us.length ≤ n → step us w w₁ → step us' w w₁' →
    us ++ rest = us' ++ rest' → Stops first rest → Stops first rest' → us = us' ∧ w₁ = w₁'

theorem Run.stops (h : Run step w vs w₁) (hgo : Continues step whole first)
    (hrank : whole.rank ≤ first.rank) (hstops : Stops whole rest) : Stops first (vs ++ rest) := by
  cases h with
  | done => exact hstops.tighter hrank
  | more hstep _ =>
    rw [List.append_assoc]
    exact (hgo _ hstep).1

theorem Run.forced (h : Run step w vs w₁) (hgo : Continues step whole first)
    (hrank : whole.rank ≤ first.rank) (hforced : ForcesStep step first n) (hn : vs.length ≤ n)
    (h' : Run step w vs' w₁') (heq : vs ++ rest = vs' ++ rest') (hstops : Stops whole rest)
    (hstops' : Stops whole rest') : vs = vs' ∧ w₁ = w₁' := by
  induction h generalizing vs' w₁' with
  | done =>
    cases h' with
    | done => exact ⟨rfl, rfl⟩
    | more hstep' _ =>
      rw [List.nil_append, List.append_assoc] at heq
      subst heq
      exact absurd hstops (hgo _ hstep').2
  | more hstep hlater ih =>
    cases h' with
    | done =>
      rw [List.nil_append, List.append_assoc] at heq
      subst heq
      exact absurd hstops' (hgo _ hstep).2
    | more hstep' hlater' =>
      rw [List.append_assoc, List.append_assoc] at heq
      rw [List.length_append] at hn
      have hends := hlater.stops hgo hrank hstops
      have hends' := hlater'.stops hgo hrank hstops'
      obtain ⟨rfl, rfl⟩ := hforced (by omega) hstep hstep' heq hends hends'
      obtain ⟨rfl, rfl⟩ := ih (by omega) hlater' (List.append_cancel_left heq)
      exact ⟨rfl, rfl⟩

/-- A chain is forced if its first operand and its steps are. -/
theorem Run.forced_chain (hfirst : Forced first us w) (hrun : Run step w vs w₁)
    (hgo : Continues step whole first) (hrank : whole.rank ≤ first.rank)
    (hforced : ForcesStep step first n) (hn : vs.length ≤ n)
    (hchain : ∀ {ts w}, Derives whole ts w →
      ∃ us vs w₀, ts = us ++ vs ∧ Derives first us w₀ ∧ Run step w₀ vs w) :
    Forced whole (us ++ vs) w₁ := by
  intro ts' w' rest rest' h' heq hstops hstops'
  obtain ⟨us', vs', w₀', rfl, hfirst', hrun'⟩ := hchain h'
  rw [List.append_assoc, List.append_assoc] at heq
  have hends := hrun.stops hgo hrank hstops
  have hends' := hrun'.stops hgo hrank hstops'
  obtain ⟨rfl, rfl, heq⟩ := hfirst.split hfirst' heq hends hends'
  obtain ⟨rfl, rfl⟩ := hrun.forced hgo hrank hforced hn hrun' heq hstops hstops'
  exact ⟨rfl, rfl⟩

-- ---------------------------------------------------------------------------
-- Operators
-- ---------------------------------------------------------------------------

theorem Derives.operators (h : Derives (.level level) ts w) :
    ∃ us vs w₀, ts = us ++ vs ∧ Derives (Grammar.operand level) us w₀ ∧
      Run (OperatorStep level) w₀ vs w := by
  generalize hs : Nonterminal.level level = s at h
  induction h with
  | operand h =>
    cases hs
    exact ⟨_, [], _, (List.append_nil _).symm, h, .done⟩
  | binary _ hop hlevel hright ih =>
    cases hs
    obtain ⟨us, vs, w₀, rfl, hfirst, hrun⟩ := ih rfl
    exact ⟨us, _, w₀, List.append_assoc _ _ _, hfirst, hrun.snoc (.mk hop hlevel hright)⟩
  | _ => cases hs

theorem OperatorStep.continues : Continues (OperatorStep level) (.level level) (operand level) := by
  rintro _ _ _ rest ⟨hop, rfl, _⟩
  refine ⟨Stops.of_goesOn_some (goesOn_operator hop) ?_, fun hstops => ?_⟩
  · rw [rank_operand]
    exact Nat.lt_succ_self _
  · exact hstops.head_ne (goesOn_operator hop) (Nat.le_refl _)

theorem operator_unique {t : Token} {op op' : BinaryOp} (h : t.key ∈ op.spellings)
    (h' : t.key ∈ op'.spellings) : op = op' := by
  cases op <;> cases op' <;> grind [BinaryOp.spellings, BinaryOp.symbol]

theorem sign_unique {t : Token} {op op' : UnaryOp} (h : t.key ∈ op.spellings)
    (h' : t.key ∈ op'.spellings) : op = op' := by
  cases op <;> cases op' <;> grind [UnaryOp.spellings]

/-- All phrases that are smaller are forced: those of fewer tokens, and the tighter of as many. -/
def Below (n rank : Nat) : Prop :=
  ∀ ⦃s ts w⦄, ts.length < n ∨ ts.length = n ∧ rank < s.rank → Derives s ts w → Forced s ts w

variable {rank : Nat}

theorem Below.of_lt (h : Below n rank) (hlt : ts.length < n) (hw : Derives s ts w) :
    Forced s ts w :=
  h (.inl hlt) hw

theorem Below.of_le (h : Below n rank) (hle : ts.length ≤ n) (hrank : rank < s.rank)
    (hw : Derives s ts w) : Forced s ts w :=
  h (by omega) hw

theorem OperatorStep.forced (ih : Below n rank) :
    ForcesStep (OperatorStep level) (operand level) n := by
  rintro _ _ _ _ _ rest rest' hn ⟨hop, hlevel, hright⟩ ⟨hop', -, hright'⟩ heq hstops hstops'
  simp only [List.cons_append, List.cons.injEq] at heq
  obtain ⟨rfl, heq⟩ := heq
  obtain rfl := operator_unique hop hop'
  obtain ⟨rfl, rfl⟩ := ih.of_lt hn hright hright' heq hstops hstops'
  exact ⟨rfl, rfl⟩

theorem level_forced (ih : Below ts.length (Nonterminal.level level).rank)
    (h : Derives (.level level) ts w) : Forced (.level level) ts w := by
  obtain ⟨us, vs, w₀, rfl, hfirst, hrun⟩ := h.operators
  have hrank := rank_operand level
  rw [List.length_append] at ih
  have hforced : Forced (operand level) us w₀ :=
    ih.of_le (Nat.le_add_right _ _) (by omega) hfirst
  exact hrun.forced_chain hforced OperatorStep.continues (by omega) (OperatorStep.forced ih)
    (Nat.le_add_left _ _) Derives.operators

-- ---------------------------------------------------------------------------
-- Arguments and items
-- ---------------------------------------------------------------------------

variable {trailing : Bool} {close : String} {closing closing' : Token} {parts parts' : List Part}

theorem stops_of_delimiter {t : Token} (h : t.isDelimiter close = true)
    (hclose : close = ")" ∨ close = "]" ∨ close = ",") : Stops s (t :: rest) := by
  refine Stops.of_goesOn_none (goesOn_delimiter ?_)
  rcases hclose with rfl | rfl | rfl
  · exact .inl h
  · exact .inr (.inl h)
  · exact .inr (.inr h)

theorem Separated.cons (h : Separated trailing (parts.map Prod.fst) us) :
    ∃ a later vs, parts = a :: later ∧ us = a.1 ++ vs ∧ Later trailing later vs := by
  generalize hfirsts : parts.map Prod.fst = firsts at h
  cases h with
  | one =>
    obtain ⟨a, rfl, rfl⟩ := List.map_eq_singleton_iff.mp hfirsts
    exact ⟨a, [], [], rfl, (List.append_nil _).symm, .none⟩
  | last hcomma hallowed =>
    obtain ⟨a, rfl, rfl⟩ := List.map_eq_singleton_iff.mp hfirsts
    exact ⟨a, [], _, rfl, rfl, .last hcomma hallowed⟩
  | more hcomma hrest =>
    obtain ⟨a, later, rfl, rfl, rfl⟩ := List.map_eq_cons_iff.mp hfirsts
    exact ⟨a, later, _, rfl, rfl, .more hcomma hrest⟩

theorem Later.stops (h : Later trailing parts vs) (hclosing : closing.isDelimiter close = true)
    (hclose : close = ")" ∨ close = "]") : Stops s (vs ++ closing :: rest) := by
  cases h with
  | none => exact stops_of_delimiter hclosing (hclose.imp_right .inl)
  | last hcomma => exact stops_of_delimiter hcomma (.inr (.inr rfl))
  | more hcomma => exact stops_of_delimiter hcomma (.inr (.inr rfl))

theorem not_comma_of_close {t : Token} (h : t.isDelimiter close = true)
    (hclose : close = ")" ∨ close = "]") : t.isDelimiter "," = false := by
  rcases hclose with rfl | rfl <;> grind [Token.isDelimiter]

theorem not_begins_of_close {t : Token} (h : t.isDelimiter close = true)
    (hclose : close = ")" ∨ close = "]") : ¬Begins s t := by
  intro hbegins
  obtain ⟨hround, hsquare⟩ := hbegins.not_closing
  rcases hclose with rfl | rfl
  · rw [h] at hround
    cases hround
  · rw [h] at hsquare
    cases hsquare

theorem Separated.not_close (h : Separated trailing (parts.map Prod.fst) us)
    (hparts : ∀ a ∈ parts, Derives .expression a.1 a.2) (hclosing : closing.isDelimiter close = true)
    (hclose : close = ")" ∨ close = "]") (heq : us ++ vs = closing :: rest) : False := by
  obtain ⟨t, ts, rfl, hbegins⟩ := h.begins hparts
  cases heq
  exact not_begins_of_close hclosing hclose hbegins

def Settled (a : Part) : Prop := Derives .expression a.1 a.2 ∧ Forced .expression a.1 a.2

theorem separated_forced (h : Separated trailing (parts.map Prod.fst) us)
    (h' : Separated trailing (parts'.map Prod.fst) us') (hparts : ∀ a ∈ parts, Settled a)
    (hparts' : ∀ a ∈ parts', Derives .expression a.1 a.2) (hclose : close = ")" ∨ close = "]")
    (hclosing : closing.isDelimiter close = true) (hclosing' : closing'.isDelimiter close = true)
    (heq : us ++ closing :: rest = us' ++ closing' :: rest') : us = us' ∧ parts = parts' := by
  induction parts generalizing parts' us us' with
  | nil =>
    obtain ⟨a, later, vs, hcons, -⟩ := h.cons
    cases hcons
  | cons b parts ih =>
    obtain ⟨_, _, vs, ⟨⟩, rfl, hlater⟩ := h.cons
    obtain ⟨b', later', vs', rfl, rfl, hlater'⟩ := h'.cons
    have hrest : ∀ a ∈ parts, Settled a := fun a ha => hparts a (List.mem_cons_of_mem b ha)
    have hrest' : ∀ a ∈ later', Derives .expression a.1 a.2 :=
      fun a ha => hparts' a (List.mem_cons_of_mem b' ha)
    rw [List.append_assoc, List.append_assoc] at heq
    obtain ⟨hfst, hsnd, hafter⟩ := (hparts b List.mem_cons_self).2.split
      (hparts' b' List.mem_cons_self) heq (hlater.stops hclosing hclose)
      (hlater'.stops hclosing' hclose)
    obtain rfl : b = b' := Prod.ext hfst hsnd
    cases hlater with
    | none =>
      cases hlater' with
      | none => exact ⟨rfl, rfl⟩
      | last hcomma' | more hcomma' =>
        cases hafter
        rw [not_comma_of_close hclosing hclose] at hcomma'
        cases hcomma'
    | last hcomma =>
      cases hlater' with
      | none =>
        cases hafter
        rw [not_comma_of_close hclosing' hclose] at hcomma
        cases hcomma
      | last =>
        cases hafter
        exact ⟨rfl, rfl⟩
      | more _ hseparated' =>
        simp only [List.cons_append, List.nil_append, List.cons.injEq] at hafter
        exact (hseparated'.not_close hrest' hclosing hclose hafter.2.symm).elim
    | more hcomma hseparated =>
      cases hlater' with
      | none =>
        cases hafter
        rw [not_comma_of_close hclosing' hclose] at hcomma
        cases hcomma
      | last =>
        simp only [List.cons_append, List.nil_append, List.cons.injEq] at hafter
        exact (hseparated.not_close (fun a ha => (hrest a ha).1) hclosing' hclose hafter.2).elim
      | more _ hseparated' =>
        simp only [List.cons_append, List.cons.injEq] at hafter
        obtain ⟨rfl, hlater⟩ := hafter
        obtain ⟨rfl, rfl⟩ := ih hseparated hseparated' hrest hrest' hlater
        exact ⟨rfl, rfl⟩

theorem listed_forced (h : Listed trailing (parts.map Prod.fst) us)
    (h' : Listed trailing (parts'.map Prod.fst) us') (hparts : ∀ a ∈ parts, Settled a)
    (hparts' : ∀ a ∈ parts', Derives .expression a.1 a.2) (hclose : close = ")" ∨ close = "]")
    (hclosing : closing.isDelimiter close = true) (hclosing' : closing'.isDelimiter close = true)
    (heq : us ++ closing :: rest = us' ++ closing' :: rest') : us = us' ∧ parts = parts' := by
  rcases h with ⟨hnone, rfl⟩ | hseparated <;> rcases h' with ⟨hnone', rfl⟩ | hseparated'
  · obtain rfl := List.map_eq_nil_iff.mp hnone
    obtain rfl := List.map_eq_nil_iff.mp hnone'
    exact ⟨rfl, rfl⟩
  · exact (hseparated'.not_close hparts' hclosing hclose heq.symm).elim
  · exact (hseparated.not_close (fun a ha => (hparts a ha).1) hclosing' hclose heq).elim
  · exact separated_forced hseparated hseparated' hparts hparts' hclose hclosing hclosing' heq

theorem Separated.length_le (h : Separated trailing (parts.map Prod.fst) us) :
    ∀ a ∈ parts, a.1.length ≤ us.length := by
  generalize hfirsts : parts.map Prod.fst = firsts at h
  have hall : ∀ ts ∈ firsts, ts.length ≤ us.length := by
    clear hfirsts
    induction h with
    | one => simp
    | last => simp
    | more _ _ ih =>
      intro ts hts
      rw [List.length_append, List.length_cons]
      rcases List.mem_cons.mp hts with rfl | hts
      · omega
      · have := ih ts hts
        omega
  subst hfirsts
  exact fun a ha => hall a.1 (List.mem_map_of_mem ha)

theorem Below.settled (ih : Below n rank) (hlisted : Listed trailing (parts.map Prod.fst) us)
    (hparts : ∀ a ∈ parts, Derives .expression a.1 a.2) (hlt : us.length < n) :
    ∀ a ∈ parts, Settled a := by
  intro a ha
  refine ⟨hparts a ha, ih.of_lt ?_ (hparts a ha)⟩
  rcases hlisted with ⟨hnone, -⟩ | hseparated
  · rw [List.map_eq_nil_iff.mp hnone] at ha
    cases ha
  · exact Nat.lt_of_le_of_lt (hseparated.length_le a ha) hlt

-- ---------------------------------------------------------------------------
-- Postfix steps
-- ---------------------------------------------------------------------------

theorem Derives.steps (h : Derives .postfixed ts w) :
    ∃ us vs w₀, ts = us ++ vs ∧ Derives .primary us w₀ ∧ Run PostfixStep w₀ vs w := by
  generalize hs : Nonterminal.postfixed = s at h
  induction h with
  | primary h => exact ⟨_, [], _, (List.append_nil _).symm, h, .done⟩
  | member _ hpoint hfield ih =>
    obtain ⟨us, vs, w₀, rfl, hfirst, hrun⟩ := ih rfl
    exact ⟨us, _, w₀, List.append_assoc _ _ _, hfirst, hrun.snoc (.member hpoint hfield)⟩
  | method _ hpoint hname hopen hlisted hargs hclose ih =>
    obtain ⟨us, vs, w₀, rfl, hfirst, hrun⟩ := ih rfl
    exact ⟨us, _, w₀, List.append_assoc _ _ _, hfirst,
      hrun.snoc (.method hpoint hname hopen hlisted hargs hclose)⟩
  | index _ hopen hkey hclose ih =>
    obtain ⟨us, vs, w₀, rfl, hfirst, hrun⟩ := ih rfl
    exact ⟨us, _, w₀, List.append_assoc _ _ _, hfirst, hrun.snoc (.index hopen hkey hclose)⟩
  | _ => cases hs

theorem PostfixStep.continues : Continues PostfixStep .postfixed .primary := by
  intro us w w₁ rest h
  have hhead : ∃ t vs, us = t :: vs ∧ goesOn? t = some .postfixed := by
    cases h with
    | member hpoint => exact ⟨_, _, rfl, goesOn_point hpoint⟩
    | method hpoint => exact ⟨_, _, rfl, goesOn_point hpoint⟩
    | index hopen => exact ⟨_, _, rfl, goesOn_square hopen⟩
  obtain ⟨t, vs, rfl, hgo⟩ := hhead
  exact ⟨Stops.of_goesOn_some hgo (by decide), fun hstops => hstops.head_ne hgo (Nat.le_refl _)⟩

theorem not_point_of_square {t : Token} (h : t.isDelimiter "[" = true) : t.isOperator "." = false := by
  grind [Token.isDelimiter, Token.isOperator]

theorem PostfixStep.forced (ih : Below n rank) : ForcesStep PostfixStep .primary n := by
  intro us us' w w₁ w₁' rest rest' hn h h' heq hstops hstops'
  cases h with
  | member hpoint hfield =>
    cases h' with
    | member =>
      cases heq
      exact ⟨rfl, rfl⟩
    | method _ _ hopen' =>
      cases heq
      exact (hstops.head_ne (goesOn_round hopen') (Nat.le_refl _)).elim
    | index hopen' =>
      injection heq with hhead
      rw [hhead, not_point_of_square hopen'] at hpoint
      cases hpoint
  | method hpoint hname hopen hlisted hargs hclose =>
    cases h' with
    | member =>
      cases heq
      exact (hstops'.head_ne (goesOn_round hopen) (Nat.le_refl _)).elim
    | method _ _ _ hlisted' hargs' hclose' =>
      simp only [List.cons_append, List.append_assoc, List.cons.injEq] at heq
      obtain ⟨rfl, rfl, rfl, heq⟩ := heq
      simp only [List.length_cons, List.length_append] at hn
      have hsettled := ih.settled hlisted hargs (by omega)
      obtain ⟨rfl, rfl⟩ :=
        listed_forced hlisted hlisted' hsettled hargs' (.inl rfl) hclose hclose' heq
      cases List.append_cancel_left heq
      exact ⟨rfl, rfl⟩
    | index hopen' =>
      injection heq with hhead
      rw [hhead, not_point_of_square hopen'] at hpoint
      cases hpoint
  | index hopen hkey hclose =>
    cases h' with
    | member hpoint' | method hpoint' =>
      injection heq with hhead
      rw [← hhead, not_point_of_square hopen] at hpoint'
      cases hpoint'
    | index _ hkey' hclose' =>
      simp only [List.cons_append, List.append_assoc, List.cons.injEq] at heq
      obtain ⟨rfl, heq⟩ := heq
      simp only [List.length_cons, List.length_append] at hn
      have hforced : Forced .expression _ _ := ih.of_lt (by omega) hkey
      obtain ⟨rfl, rfl, heq⟩ := hforced.split hkey' heq
        (stops_of_delimiter hclose (.inr (.inl rfl))) (stops_of_delimiter hclose' (.inr (.inl rfl)))
      cases heq
      exact ⟨rfl, rfl⟩

theorem postfixed_forced (ih : Below ts.length Nonterminal.postfixed.rank)
    (h : Derives .postfixed ts w) : Forced .postfixed ts w := by
  obtain ⟨us, vs, w₀, rfl, hfirst, hrun⟩ := h.steps
  rw [List.length_append] at ih
  have hforced : Forced .primary us w₀ := ih.of_le (Nat.le_add_right _ _) (by decide) hfirst
  exact hrun.forced_chain hforced PostfixStep.continues (by decide) (PostfixStep.forced ih)
    (Nat.le_add_left _ _) Derives.steps

-- ---------------------------------------------------------------------------
-- The other phrases
-- ---------------------------------------------------------------------------

theorem expression_forced (ih : Below ts.length Nonterminal.expression.rank)
    (h : Derives .expression ts w) : Forced .expression ts w := by
  intro ts' w' rest rest' h' heq hstops hstops'
  have htighter : Nonterminal.expression.rank ≤ (Nonterminal.level .or).rank := Nat.zero_le _
  have hlevel : ∀ {us v}, us.length ≤ ts.length → Derives (.level .or) us v →
      Forced (.level .or) us v := fun hle hus => ih.of_le hle (by decide) hus
  have hquestion : ∀ {t vs}, t.isOperator "?" = true → Stops (.level .or) (t :: vs) :=
    fun ht => Stops.of_goesOn_some (goesOn_question ht) (by decide)
  cases h with
  | plain h =>
    cases h' with
    | plain h' =>
      exact hlevel (Nat.le_refl _) h h' heq (hstops.tighter htighter) (hstops'.tighter htighter)
    | ternary hc' hquestion' =>
      rw [List.append_assoc] at heq
      obtain ⟨-, -, rfl⟩ :=
        (hlevel (Nat.le_refl _) h).split hc' heq (hstops.tighter htighter) (hquestion hquestion')
      exact (hstops.head_ne (goesOn_question hquestion') (Nat.le_refl _)).elim
  | ternary hc hq hy hcolon hn =>
    simp only [List.length_append, List.length_cons] at ih hlevel
    cases h' with
    | plain h' =>
      rw [List.append_assoc] at heq
      obtain ⟨-, -, rfl⟩ :=
        (hlevel (by omega) hc).split h' heq (hquestion hq) (hstops'.tighter htighter)
      exact (hstops'.head_ne (goesOn_question hq) (Nat.le_refl _)).elim
    | ternary hc' hq' hy' hcolon' hn' =>
      simp only [List.append_assoc, List.cons_append] at heq
      obtain ⟨rfl, rfl, hafter⟩ :=
        (hlevel (by omega) hc).split hc' heq (hquestion hq) (hquestion hq')
      obtain ⟨rfl, hyes⟩ := List.cons.inj hafter
      have hforced : Forced .expression _ _ := ih.of_lt (by omega) hy
      obtain ⟨rfl, rfl, hafter⟩ := hforced.split hy' hyes
        (Stops.of_goesOn_none (goesOn_colon hcolon)) (Stops.of_goesOn_none (goesOn_colon hcolon'))
      obtain ⟨rfl, hno⟩ := List.cons.inj hafter
      have hforced : Forced .expression _ _ := ih.of_lt (by omega) hn
      obtain ⟨rfl, rfl⟩ := hforced hn' hno hstops hstops'
      exact ⟨rfl, rfl⟩

theorem unary_forced (ih : Below ts.length Nonterminal.unary.rank) (h : Derives .unary ts w) :
    Forced .unary ts w := by
  intro ts' w' rest rest' h' heq hstops hstops'
  cases h with
  | unary hop h =>
    cases h' with
    | unary hop' h' =>
      obtain ⟨rfl, hoperand⟩ := List.cons.inj heq
      obtain rfl := sign_unique hop hop'
      have hforced : Forced .unary _ _ := ih.of_lt (Nat.lt_succ_self _) h
      obtain ⟨rfl, rfl⟩ := hforced h' hoperand hstops hstops'
      exact ⟨rfl, rfl⟩
    | postfixed h' =>
      have hbegins := h'.begins.head rest'
      rw [← heq] at hbegins
      exact absurd hop ((hbegins _ rfl).not_sign _)
  | postfixed h =>
    cases h' with
    | unary hop' h' =>
      have hbegins := h.begins.head rest
      rw [heq] at hbegins
      exact absurd hop' ((hbegins _ rfl).not_sign _)
    | postfixed h' =>
      have hforced : Forced .postfixed _ _ := ih.of_le (Nat.le_refl _) (by decide) h
      exact hforced h' heq (hstops.tighter (by decide)) (hstops'.tighter (by decide))

theorem primary_forced (ih : Below ts.length Nonterminal.primary.rank) (h : Derives .primary ts w) :
    Forced .primary ts w := by
  intro ts' w' rest rest' h' heq hstops hstops'
  cases h with
  | literal ht =>
    cases h' with
    | literal =>
      obtain ⟨rfl, -⟩ := List.cons.inj heq
      exact ⟨rfl, rfl⟩
    | ident ht' | call ht' => grind [Token.isLiteral]
    | bracketed ht' | list ht' => grind [Token.isLiteral, Token.isDelimiter]
  | ident ht =>
    cases h' with
    | literal ht' => grind [Token.isLiteral]
    | ident =>
      obtain ⟨rfl, -⟩ := List.cons.inj heq
      exact ⟨rfl, rfl⟩
    | call _ hopen' =>
      obtain ⟨rfl, rfl⟩ := List.cons.inj heq
      exact (hstops.head_ne (goesOn_round hopen') (Nat.le_refl _)).elim
    | bracketed ht' | list ht' => grind [Token.isDelimiter]
  | call hname hopen hlisted hargs hclose =>
    cases h' with
    | literal ht' => grind [Token.isLiteral]
    | ident =>
      obtain ⟨rfl, rfl⟩ := List.cons.inj heq
      exact (hstops'.head_ne (goesOn_round hopen) (Nat.le_refl _)).elim
    | call _ _ hlisted' hargs' hclose' =>
      simp only [List.cons_append, List.append_assoc, List.cons.injEq] at heq
      obtain ⟨rfl, rfl, heq⟩ := heq
      simp only [List.length_cons, List.length_append] at ih
      have hsettled := ih.settled hlisted hargs (by omega)
      obtain ⟨rfl, rfl⟩ :=
        listed_forced hlisted hlisted' hsettled hargs' (.inl rfl) hclose hclose' heq
      cases List.append_cancel_left heq
      exact ⟨rfl, rfl⟩
    | bracketed ht' | list ht' => grind [Token.isDelimiter]
  | bracketed hopen hw hclose =>
    cases h' with
    | literal ht' => grind [Token.isLiteral, Token.isDelimiter]
    | ident ht' | call ht' => grind [Token.isDelimiter]
    | bracketed _ hw' hclose' =>
      simp only [List.cons_append, List.append_assoc, List.cons.injEq] at heq
      obtain ⟨rfl, hinner⟩ := heq
      simp only [List.length_cons, List.length_append] at ih
      have hforced : Forced .expression _ _ := ih.of_lt (by omega) hw
      obtain ⟨rfl, rfl, hafter⟩ := hforced.split hw' hinner
        (stops_of_delimiter hclose (.inl rfl)) (stops_of_delimiter hclose' (.inl rfl))
      cases hafter
      exact ⟨rfl, rfl⟩
    | list ht' => grind [Token.isDelimiter]
  | list hopen hlisted hitems hclose =>
    cases h' with
    | literal ht' => grind [Token.isLiteral, Token.isDelimiter]
    | ident ht' | call ht' => grind [Token.isDelimiter]
    | bracketed ht' => grind [Token.isDelimiter]
    | list _ hlisted' hitems' hclose' =>
      simp only [List.cons_append, List.append_assoc, List.cons.injEq] at heq
      obtain ⟨rfl, heq⟩ := heq
      simp only [List.length_cons, List.length_append] at ih
      have hsettled := ih.settled hlisted hitems (by omega)
      obtain ⟨rfl, rfl⟩ :=
        listed_forced hlisted hlisted' hsettled hitems' (.inr rfl) hclose hclose' heq
      cases List.append_cancel_left heq
      exact ⟨rfl, rfl⟩

/-- The tokens a phrase begins with decide what it is. -/
theorem forced (h : Derives s ts w) : Forced s ts w := by
  have hall : ∀ n, ∀ {s ts w}, 10 * ts.length + (9 - s.rank) = n → Derives s ts w →
      Forced s ts w := by
    intro n
    induction n using Nat.strongRecOn with
    | ind n ih =>
      intro s ts w hn h
      have hbelow : Below ts.length s.rank := by
        intro s' ts' w' hlt h'
        have hrank : s'.rank ≤ 9 := by
          cases s' with
          | level level => exact Nat.le_trans (Nat.le_of_lt (rank_level_lt level)) (by decide)
          | _ => decide
        exact ih _ (by omega) rfl h'
      cases s with
      | expression => exact expression_forced hbelow h
      | level level => exact level_forced hbelow h
      | unary => exact unary_forced hbelow h
      | postfixed => exact postfixed_forced hbelow h
      | primary => exact primary_forced hbelow h
  exact hall _ rfl h

theorem Derives.unique (h : Derives s ts w) (h' : Derives s ts w') : w = w' :=
  (forced h h' rfl Stops.nil Stops.nil).2

end TradingRules.Grammar
