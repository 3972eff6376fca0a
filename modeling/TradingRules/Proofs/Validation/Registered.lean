import TradingRules.Proofs.Dict
import TradingRules.Proofs.Eval.Called
import TradingRules.Proofs.Session.Aborts
import TradingRules.Proofs.Validation.Completeness

/-!
# A valid rule calls registered functions only

The check of the functions looks at names in call position, the evaluation at the calls of the tree.
Every call of the tree has its name in call position (`calls_of_derives`), also one that a method call or a
comprehension stands for; only `exists` may be written `any` there. So a text without an error is a rule all
of whose calls are known (`calls_known_of_validate`), and an evaluation makes no others.
-/

namespace TradingRules

namespace Validation

open Grammar

variable {t : Token} {ts us : List Token} {w : Written} {e : Expr} {name n : String} {s : Nonterminal}
  {parts : List Part}

-- ---------------------------------------------------------------------------
-- Each call of the tree has its name in call position
-- ---------------------------------------------------------------------------

/-- What stands in call position as `name` is called `n` in the tree. -/
def Calls (name n : String) : Prop := n = name ∨ name = "any" ∧ n = "exists"

def NamedIn (tokens : List Token) (n : String) : Prop := ∃ t ∈ tokens, Calls t.text n

theorem NamedIn.mono (h : NamedIn ts n) (hsub : ts ⊆ us) : NamedIn us n :=
  let ⟨t, ht, hcalls⟩ := h
  ⟨t, hsub ht, hcalls⟩

theorem calls_of_ofName? {kind : Comprehension} (h : Comprehension.ofName? name = some kind) :
    Calls name kind.name := by
  unfold Comprehension.ofName? at h
  split at h <;> cases h <;> simp [Calls, Comprehension.name]

theorem named_of_ofFunctionForm {args : List Expr} (h : Expr.ofFunctionForm name args = .ok e)
    (hn : n ∈ e.calls) : Calls name n ∨ n ∈ Expr.callsAll args := by
  unfold Expr.ofFunctionForm at h
  split at h
  · rename_i hhas
    split at h
    · split at h
      · cases h
        rw [hhas]
        rcases List.mem_cons.mp hn with rfl | hn
        · exact .inl (.inl rfl)
        · exact .inr (List.mem_append_left _ hn)
      · cases h
    · cases h
  · split at h
    · rename_i kind range var body hkind
      cases h
      rcases List.mem_cons.mp hn with rfl | hn
      · exact .inl (calls_of_ofName? hkind)
      · exact .inr (by simpa [Expr.callsAll, Expr.calls] using hn)
    · cases h
      exact (List.mem_cons.mp hn).imp_left .inl

theorem named_of_ofMethodForm {target : Expr} {args : List Expr}
    (hn : n ∈ (Expr.ofMethodForm target name args).calls) :
    Calls name n ∨ n ∈ target.calls ∨ n ∈ Expr.callsAll args := by
  unfold Expr.ofMethodForm at hn
  split at hn
  · rename_i kind var body hkind
    rcases List.mem_cons.mp hn with rfl | hn
    · exact .inl (calls_of_ofName? hkind)
    · exact .inr (by simpa [Expr.callsAll, Expr.calls] using hn)
  · rcases List.mem_cons.mp hn with rfl | hn
    · exact .inl (.inl rfl)
    · exact .inr (List.mem_append.mp hn)

theorem callees_subset_listed {trailing : Bool} (h : Listed trailing (parts.map Prod.fst) us) :
    ∀ a ∈ parts, callees a.1 ⊆ callees us := by
  rcases h with ⟨hnil, -⟩ | hseparated
  · simp [List.map_eq_nil_iff.mp hnil]
  suffices hall : ∀ ts ∈ parts.map Prod.fst, callees ts ⊆ callees us from
    fun a ha => hall a.1 (List.mem_map_of_mem ha)
  generalize parts.map Prod.fst = firsts at hseparated ⊢
  induction hseparated with
  | one => simp
  | last hcomma =>
    rw [callees_append_singleton (separates_of_delimiter hcomma (by decide))]
    simp
  | more hcomma _ ih =>
    rw [callees_append_cons (separates_of_delimiter hcomma (by decide))]
    refine List.forall_mem_cons.mpr ⟨List.subset_append_left _ _, fun ts hts => ?_⟩
    exact List.Subset.trans (ih ts hts) (List.subset_append_right _ _)

theorem written_of_mem_trees? {ws : List Written} {items : List Expr}
    (h : Written.trees? ws = some items) : ∀ e ∈ items, ∃ w ∈ ws, w.tree? = some e := by
  induction ws generalizing items with
  | nil =>
    cases h
    exact nofun
  | cons w rest ih =>
    simp only [Written.trees?, Option.bind_eq_some_iff, Option.map_eq_some_iff] at h
    obtain ⟨e, htree, later, hlater, rfl⟩ := h
    refine List.forall_mem_cons.mpr ⟨⟨w, List.mem_cons_self, htree⟩, fun e' he' => ?_⟩
    obtain ⟨w', hw', htree'⟩ := ih hlater e' he'
    exact ⟨w', List.mem_cons_of_mem w hw', htree'⟩

def NamesCalls (ts : List Token) (w : Written) : Prop :=
  ∀ e, w.tree? = some e → ∀ n ∈ e.calls, NamedIn (callees ts) n

theorem NamesCalls.listed {trailing : Bool} {items : List Expr}
    (hlisted : Listed trailing (parts.map Prod.fst) us) (hparts : ∀ a ∈ parts, NamesCalls a.1 a.2)
    (htrees : Written.trees? (parts.map Prod.snd) = some items) (hn : n ∈ Expr.callsAll items) :
    NamedIn (callees us) n := by
  obtain ⟨e, he, hn⟩ := mem_callsAll.mp hn
  obtain ⟨w, hw, htree⟩ := written_of_mem_trees? htrees e he
  obtain ⟨a, ha, rfl⟩ := List.mem_map.mp hw
  exact (hparts a ha e htree n hn).mono (callees_subset_listed hlisted a ha)

theorem calls_of_derives (h : Derives s ts w) : NamesCalls ts w := by
  induction h with
  | plain _ ih | operand _ ih | postfixed _ ih | primary _ ih => exact ih
  | ternary _ hquestion _ hcolon _ ihc ihy ihn =>
    intro e htree n hn
    simp only [Written.tree?, Option.bind_eq_some_iff, Option.map_eq_some_iff] at htree
    obtain ⟨c, hc, y, hy, x, hx, rfl⟩ := htree
    rw [callees_append_cons (separates_of_operator hquestion),
      callees_append_cons (separates_of_operator hcolon)]
    simp only [Expr.calls, List.mem_append] at hn
    rcases hn with (hn | hn) | hn
    · exact (ihc c hc n hn).mono (by simp)
    · exact (ihy y hy n hn).mono (by simp)
    · exact (ihn x hx n hn).mono (by simp)
  | binary _ hop _ _ ihleft ihright =>
    intro e htree n hn
    simp only [Written.tree?, Option.bind_eq_some_iff, Option.map_eq_some_iff] at htree
    obtain ⟨l, hl, r, hr, rfl⟩ := htree
    rw [callees_append_cons (separates_of_spelling hop)]
    rcases List.mem_append.mp hn with hn | hn
    · exact (ihleft l hl n hn).mono (by simp)
    · exact (ihright r hr n hn).mono (by simp)
  | unary hop _ ih =>
    intro e htree n hn
    simp only [Written.tree?, Option.map_eq_some_iff] at htree
    obtain ⟨x, hx, rfl⟩ := htree
    rw [callees_cons (separates_of_sign hop).2]
    exact ih x hx n (calls_ofUnary _ _ ▸ hn)
  | member _ hpoint hfield ih =>
    intro e htree n hn
    simp only [Written.tree?, Option.map_eq_some_iff] at htree
    obtain ⟨x, hx, rfl⟩ := htree
    rw [callees_append_cons (separates_of_operator hpoint)]
    exact (ih x hx n hn).mono (by simp)
  | method _ hpoint hname hopen hlisted _ hclose ih ihargs =>
    intro e htree n hn
    simp only [Written.tree?, Option.bind_eq_some_iff, Option.map_eq_some_iff] at htree
    obtain ⟨x, hx, items, hitems, rfl⟩ := htree
    rw [callees_append_cons (separates_of_operator hpoint), callees_call hname hopen,
      callees_append_singleton (separates_of_delimiter hclose (by decide))]
    rcases named_of_ofMethodForm hn with hcalls | hn | hn
    · exact ⟨_, by simp, hcalls⟩
    · exact (ih x hx n hn).mono (by simp)
    · exact (NamesCalls.listed hlisted ihargs hitems hn).mono (by simp)
  | index _ hopen _ hclose ih ihkey =>
    intro e htree n hn
    simp only [Written.tree?, Option.bind_eq_some_iff, Option.map_eq_some_iff] at htree
    obtain ⟨x, hx, k, hk, rfl⟩ := htree
    rw [callees_append_cons (separates_of_delimiter hopen (by decide)),
      callees_append_singleton (separates_of_delimiter hclose (by decide))]
    rcases List.mem_append.mp hn with hn | hn
    · exact (ih x hx n hn).mono (by simp)
    · exact (ihkey k hk n hn).mono (by simp)
  | literal =>
    intro e htree n hn
    obtain ⟨v, -, rfl⟩ := Option.map_eq_some_iff.mp htree
    cases hn
  | ident =>
    intro e htree n hn
    cases htree
    cases hn
  | call hname hopen hlisted _ hclose ihargs =>
    intro e htree n hn
    simp only [Written.tree?, Option.bind_eq_some_iff, Except.toOption_eq_some] at htree
    obtain ⟨items, hitems, hform⟩ := htree
    rw [callees_call hname hopen,
      callees_append_singleton (separates_of_delimiter hclose (by decide))]
    rcases named_of_ofFunctionForm hform hn with hcalls | hn
    · exact ⟨_, List.mem_cons_self, hcalls⟩
    · exact (NamesCalls.listed hlisted ihargs hitems hn).mono (List.subset_cons_self _ _)
  | bracketed hopen _ hclose ih =>
    intro e htree n hn
    have hkind : ∀ {t : Token}, t.isDelimiter "(" = true → t.kind ≠ .identifier := by
      grind [Token.isDelimiter]
    rw [callees_cons (hkind hopen),
      callees_append_singleton (separates_of_delimiter hclose (by decide))]
    exact ih e htree n hn
  | list hopen hlisted _ hclose ihitems =>
    intro e htree n hn
    simp only [Written.tree?, Option.map_eq_some_iff] at htree
    obtain ⟨items, hitems, rfl⟩ := htree
    rw [callees_cons (separates_of_delimiter hopen (by decide)).2,
      callees_append_singleton (separates_of_delimiter hclose (by decide))]
    exact NamesCalls.listed hlisted ihitems hitems hn

-- ---------------------------------------------------------------------------
-- A text without an error
-- ---------------------------------------------------------------------------

variable {known : List String} {source : String}

/-- Without declared functions the grammar is always asked. -/
theorem not_onlyUnused_nil {tokens : List Token} : ¬OnlyUnused known [] tokens := by
  rintro ⟨-, -, name, hname, -⟩
  cases hname

theorem calls_known {c : Compiled} (hcompile : compile source = .ok c)
    (hquiet : Quiet known (Token.recovering source)) (hexists : "exists" ∈ known) :
    ∀ n ∈ c.expr.calls, n ∈ known := by
  intro n hn
  obtain ⟨w, hw, htree⟩ := Expr.derives_of_ofTokens (compile_eq_ok hcompile).1
  obtain ⟨t, ht, hcalls⟩ := calls_of_derives hw c.expr htree n hn
  have hfound : t.text ∈ known := by
    have hnone := hquiet.functions
    rw [Token.recovering_eq_strict (Expr.faultless_of_derives hw)] at hnone
    have hall : ∀ t ∈ callees (Token.strict source), t.text ∈ known := by
      simpa [unknownFunctions] using hnone
    exact hall t ht
  rcases hcalls with rfl | ⟨-, rfl⟩
  · exact hfound
  · exact hexists

/-- A text without an error compiles, and the functions it calls are known. -/
theorem compile_of_no_error (h : (problems known [] source).any Problem.isError = false)
    (hexists : "exists" ∈ known) :
    ∃ c, compile source = .ok c ∧ ∀ n ∈ c.expr.calls, n ∈ known := by
  rcases (any_isError_problems known [] source).mp h with hunused | ⟨hquiet, c, hcompile⟩
  · exact absurd hunused not_onlyUnused_nil
  · rw [List.append_nil] at hquiet
    exact ⟨c, hcompile, calls_known hcompile hquiet hexists⟩

theorem exists_mem_builtins : "exists" ∈ Registry.builtins.names := by
  decide +kernel

end Validation

def Registry.Extends (r r' : Registry) : Prop :=
  ∀ name f, Dict.find? name r = some f → Dict.find? name r' = some f

namespace Session

open Validation

variable {σ : Type} [RegimeHost σ] {s : Session} {extra : List String} {source : String}

/-- A limit that is spent is an error itself, unless there is nothing to look at, which is one too. -/
theorem problems_of_validate (h : (s.validate extra source).any Problem.isError = false) :
    (problems s.registry.names extra source).any Problem.isError = false := by
  unfold validate at h
  split at h
  · rename_i found hfound
    unfold problemsWithin at hfound
    split at hfound
    · split at hfound <;> cases hfound
      exact h
    · cases hfound
      exact h
  · cases h

/-- In every session, a text without an error compiles, and whatever the context and the host, no
evaluation of it on that session meets a name without a function: each call it makes is of a registered
function, and it does not matter what the other names stand for. -/
theorem calls_registered_of_validate (settings : Settings) (assembly : Assembly)
    (steps : List (Step σ)) :
    let s := { ofSettings settings with assembly }.run steps
    ∀ source, (s.validate [] source).any Problem.isError = false →
      ∃ c, (s.compile source).1 = .ok c ∧ ∀ context : Context,
        (∀ (host host' : Option σ) name values,
          Eval.Makes s.registry context ⟨[], c.expr, host⟩ name values host' →
            ∃ f, Dict.find? name s.registry = some f) ∧
        ∀ registry : Registry, s.registry.Extends registry → ∀ limit,
          (evaluate registry context limit c.expr : Run σ Value) =
            evaluate s.registry context limit c.expr := by
  intro s source hvalid
  have hexists : "exists" ∈ s.registry.names :=
    mem_names_of_builtin settings assembly steps exists_mem_builtins
  have hfollows : s.rules.Follows (requested steps) :=
    follows_foldl (ExprCache.follows_empty settings.ruleCapacity) steps
  obtain ⟨c, hcompile, hcalls⟩ := compile_of_no_error (problems_of_validate hvalid) hexists
  have hfound : ∀ n ∈ c.expr.calls, ∃ f, Dict.find? n s.registry = some f :=
    fun n hn => Dict.find?_of_mem_names (hcalls n hn)
  refine ⟨c, (hfollows.compile_fst source).trans hcompile, fun context => ⟨?_, ?_⟩⟩
  · intro host host' name values hmakes
    exact hfound name hmakes.mem_calls
  · intro registry hextends limit
    refine evaluate_same_functions (fun n hn => ?_) context limit
    obtain ⟨f, hf⟩ := hfound n hn
    rw [hf, hextends n f hf]

/-- A method call that is a comprehension, a function that was registered and a built-in one. -/
theorem calls_registered_of_validate_halve :
    let rule := "prices.any(p, halve(p) > 1.5) ? max(halve(3), 1) : 0"
    let s := { ofSettings .standard with assembly := .withoutStore }.run
      ([.register halve true] : List (Step FixedHost))
    (s.validate [] rule).any Problem.isError = false ∧
      ∃ c, (s.compile rule).1 = .ok c ∧ ∀ (context : Context) (host host' : Option FixedHost) name values,
        Eval.Makes s.registry context ⟨[], c.expr, host⟩ name values host' →
          ∃ f, Dict.find? name s.registry = some f := by
  intro rule s
  have hvalid : (s.validate [] rule).any Problem.isError = false := by decide +kernel
  obtain ⟨c, hcompile, hcalls⟩ :=
    calls_registered_of_validate .standard .withoutStore [.register halve true] rule hvalid
  exact ⟨hvalid, c, hcompile, fun context => (hcalls context).1⟩

end Session

end TradingRules
