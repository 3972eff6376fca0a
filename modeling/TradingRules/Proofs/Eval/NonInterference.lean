import TradingRules.Eval.Evaluator
import TradingRules.Expr.Compiled
import TradingRules.Proofs.Outcome
import TradingRules.Proofs.Builtin.Reads

/-!
# What an evaluation depends on

A path is looked up whole and then at every shorter path that it goes on from, a name only if no
comprehension around binds it. So all that an evaluation looks up is below a free path of its
expression, and what it calls is among the called names. Where two contexts and two registries do not
differ there, the evaluation is the same run.
-/

namespace TradingRules

open Builtin (SameReads)

-- ---------------------------------------------------------------------------
-- Paths
-- ---------------------------------------------------------------------------

namespace Expr

/-- `q` is the path `p` or a shorter one that it goes on from. -/
def Leads (q p : String) : Prop := p = q ∨ ∃ rest, p = q ++ "." ++ rest

theorem Leads.refl (p : String) : Leads p p := .inl rfl

theorem Leads.trans {q p p' : String} (h : Leads q p) (h' : Leads p p') : Leads q p' := by
  rcases h with rfl | ⟨rest, rfl⟩
  · exact h'
  rcases h' with rfl | ⟨more, rfl⟩
  · exact .inr ⟨rest, rfl⟩
  · exact .inr ⟨rest ++ "." ++ more, by simp only [String.append_assoc]⟩

variable {e target : Expr} {field p q : String} {bound : List String}

theorem root?_of_path? (h : e.path? = some p) : ∃ root, e.root? = some root := by
  fun_induction path? e generalizing p with
  | case1 name => exact ⟨name, rfl⟩
  | case2 target field ih =>
    obtain ⟨base, hbase, -⟩ := Option.map_eq_some_iff.mp h
    exact ih hbase
  | case3 => cases h

theorem paths_of_path? (bound : List String) {root : String} (hpath : e.path? = some p) (hroot : e.root? = some root) :
    e.paths bound = if root ∈ bound then [] else [p] := by
  cases e with
  | ident name =>
    cases hpath
    cases hroot
    rfl
  | member target field =>
    rw [root?] at hroot
    simp only [paths, hpath, hroot]
  | _ => cases hpath

/-- What the target of a member mentions, the member goes on from. -/
theorem leads_of_mem_paths_target (h : q ∈ target.paths bound) :
    ∃ p ∈ (member target field).paths bound, Leads q p := by
  cases hpath : target.path? with
  | none =>
    have hnone : (member target field).path? = none := by simp [path?, hpath]
    refine ⟨q, ?_, Leads.refl q⟩
    simpa only [paths, hnone] using h
  | some base =>
    obtain ⟨root, hroot⟩ := root?_of_path? hpath
    have hmember : (member target field).path? = some (base ++ "." ++ field) := by
      simp [path?, hpath]
    rw [paths_of_path? bound hpath hroot] at h
    rw [paths_of_path? bound hmember hroot]
    split at h
    · cases h
    · rename_i hfree
      rw [if_neg hfree]
      cases List.mem_singleton.mp h
      exact ⟨_, List.mem_singleton_self _, .inr ⟨field, rfl⟩⟩

end Expr

open TradingRules.Expr (Leads)

-- ---------------------------------------------------------------------------
-- Surroundings
-- ---------------------------------------------------------------------------

/-- Two registries and two contexts are the same for an expression with the free paths `paths` and the
called names `calls`: the functions called are the same built-in ones, or missing in both; the contexts
have the same clock, the same values of what built-in functions read, and the same value of every free
path and of every path it goes on from. -/
structure Alike (r₁ r₂ : Registry) (c₁ c₂ : Context) (paths calls : List String) : Prop where
  reads : SameReads c₁ c₂
  lookups : ∀ p ∈ paths, ∀ q, Leads q p → c₁.lookup? q = c₂.lookup? q
  entries : ∀ name ∈ calls, Dict.find? name r₁ = Dict.find? name r₂
  builtin : ∀ name ∈ calls, ∀ f, Dict.find? name r₁ = some f → f ∈ Dict.values Registry.builtins

variable {r₁ r₂ : Registry} {c₁ c₂ : Context} {paths calls paths' calls' : List String}

theorem Alike.mono (h : Alike r₁ r₂ c₁ c₂ paths calls)
    (hpaths : ∀ q ∈ paths', ∃ p ∈ paths, Leads q p) (hcalls : ∀ name ∈ calls', name ∈ calls) :
    Alike r₁ r₂ c₁ c₂ paths' calls' where
  reads := h.reads
  lookups q hq q' hlead := by
    obtain ⟨p, hp, hqp⟩ := hpaths q hq
    exact h.lookups p hp q' (hlead.trans hqp)
  entries name hname := h.entries name (hcalls name hname)
  builtin name hname := h.builtin name (hcalls name hname)

theorem Alike.subset (h : Alike r₁ r₂ c₁ c₂ paths calls) (hpaths : paths' ⊆ paths)
    (hcalls : calls' ⊆ calls) : Alike r₁ r₂ c₁ c₂ paths' calls' :=
  h.mono (fun q hq => ⟨q, hpaths hq, Leads.refl q⟩) hcalls

theorem Alike.left (h : Alike r₁ r₂ c₁ c₂ (paths ++ paths') (calls ++ calls')) :
    Alike r₁ r₂ c₁ c₂ paths calls :=
  h.subset (List.subset_append_left _ _) (List.subset_append_left _ _)

theorem Alike.right (h : Alike r₁ r₂ c₁ c₂ (paths ++ paths') (calls ++ calls')) :
    Alike r₁ r₂ c₁ c₂ paths' calls' :=
  h.subset (List.subset_append_right _ _) (List.subset_append_right _ _)

/-- A macro's name is no call. -/
theorem Alike.tail {name : String} (h : Alike r₁ r₂ c₁ c₂ paths (name :: calls)) :
    Alike r₁ r₂ c₁ c₂ paths calls :=
  h.subset (List.Subset.refl _) (List.subset_cons_self _ _)

namespace Eval

variable {σ : Type} [RegimeHost σ] {scope : Scope} {target : Expr} {field : String}

theorem find?_isSome_iff (scope : Scope) (name : String) :
    (scope.find? name).isSome = true ↔ name ∈ scope.map Prod.fst := by
  induction scope with
  | nil => simp [Scope.find?]
  | cons entry rest ih =>
    obtain ⟨key, v⟩ := entry
    by_cases hkey : name = key
    · simp [Scope.find?, hkey]
    · have hne : (name == key) = false := beq_false_of_ne hkey
      rw [List.map_cons, List.mem_cons, or_iff_right hkey, ← ih, Scope.find?, List.lookup_cons, hne]
      rfl

theorem eval_ident_alike {name : String}
    (h : Alike r₁ r₂ c₁ c₂ ((Expr.ident name).paths (scope.map Prod.fst)) calls) :
    (eval r₁ c₁ scope (.ident name) : Run σ Value) = eval r₂ c₂ scope (.ident name) := by
  simp only [eval]
  cases hfind : scope.find? name with
  | some v => rfl
  | none =>
    have hfree : name ∉ scope.map Prod.fst := by
      rw [← find?_isSome_iff, hfind]
      exact Bool.false_ne_true
    have hmem : name ∈ (Expr.ident name).paths (scope.map Prod.fst) := by
      simp only [Expr.paths, if_neg hfree, List.mem_singleton]
    rw [h.lookups name hmem name (Leads.refl name)]

theorem whole_alike (h : Alike r₁ r₂ c₁ c₂
      ((Expr.member target field).paths (scope.map Prod.fst)) calls) :
    (if (target.root?.map scope.binds).getD false then none
      else (Expr.member target field).path?.bind c₁.lookup?) =
    (if (target.root?.map scope.binds).getD false then none
      else (Expr.member target field).path?.bind c₂.lookup?) := by
  cases hpath : (Expr.member target field).path? with
  | none => rfl
  | some path =>
    obtain ⟨root, hroot⟩ := Expr.root?_of_path? hpath
    have hmember := Expr.paths_of_path? (scope.map Prod.fst) hpath hroot
    rw [Expr.root?] at hroot
    rw [hroot]
    by_cases hbound : scope.binds root = true
    · simp only [Option.map_some, Option.getD_some, hbound, ↓reduceIte]
    · have hfree : root ∉ scope.map Prod.fst := by
        rw [← find?_isSome_iff]
        exact hbound
      rw [if_neg hfree] at hmember
      have hmem : path ∈ (Expr.member target field).paths (scope.map Prod.fst) := by
        rw [hmember]
        exact List.mem_singleton_self path
      simp only [Option.map_some, Option.getD_some, hbound, Bool.false_eq_true, ↓reduceIte,
        Option.bind_some, h.lookups path hmem path (Leads.refl path)]

theorem eval_member_alike
    (h : Alike r₁ r₂ c₁ c₂ ((Expr.member target field).paths (scope.map Prod.fst)) calls)
    (htarget : (eval r₁ c₁ scope target : Run σ Value) = eval r₂ c₂ scope target) :
    (eval r₁ c₁ scope (.member target field) : Run σ Value) =
      eval r₂ c₂ scope (.member target field) := by
  simp only [eval, whole_alike h, htarget]

mutual

/-- Evaluation depends on what the free paths and the called names of the expression reach. -/
theorem eval_alike : ∀ (scope : Scope) (e : Expr),
    Alike r₁ r₂ c₁ c₂ (e.paths (scope.map Prod.fst)) e.calls →
      (eval r₁ c₁ scope e : Run σ Value) = eval r₂ c₂ scope e
  | scope, .literal v, h => by simp only [eval]
  | scope, .ident name, h => eval_ident_alike h
  | scope, .member target field, h => by
    refine eval_member_alike h (eval_alike scope target ?_)
    exact h.mono (fun q hq => Expr.leads_of_mem_paths_target hq) (fun _ hname => hname)
  | scope, .index target key, h => by
    simp only [eval, eval_alike scope target h.left, eval_alike scope key h.right]
  | scope, .call function args, h => by
    simp only [eval, evalAll_alike scope args h.tail]
    have hcall := Registry.call_same (σ := σ) (h.entries function List.mem_cons_self)
      (h.builtin function List.mem_cons_self) h.reads
    simp only [hcall]
  | scope, .unary op operand, h => by
    simp only [eval, eval_alike scope operand h]
  | scope, .binary op left right, h => by
    have hleft := eval_alike scope left h.left
    have hright := eval_alike scope right h.right
    cases op <;> simp only [eval, hleft, hright]
  | scope, .ternary condition yes no, h => by
    simp only [eval, eval_alike scope condition h.left.left, eval_alike scope yes h.left.right,
      eval_alike scope no h.right]
  | scope, .list items, h => by
    simp only [eval, evalAll_alike scope items h]
  | scope, .comprehension kind range var body, h => by
    have hbody (item : Value) : (eval r₁ c₁ ((var, item) :: scope) body : Run σ Value) =
        eval r₂ c₂ ((var, item) :: scope) body :=
      eval_alike ((var, item) :: scope) body h.tail.right
    simp only [eval, eval_alike scope range h.tail.left, hbody]
  | scope, .has target, h => by
    simp only [eval, eval_alike scope target h.tail]

theorem evalAll_alike : ∀ (scope : Scope) (items : List Expr),
    Alike r₁ r₂ c₁ c₂ (Expr.pathsAll (scope.map Prod.fst) items) (Expr.callsAll items) →
      (evalAll r₁ c₁ scope items : Run σ (List Value)) = evalAll r₂ c₂ scope items
  | scope, [], h => by simp only [evalAll]
  | scope, e :: rest, h => by
    simp only [evalAll, eval_alike scope e h.left, evalAll_alike scope rest h.right]

end

end Eval

-- ---------------------------------------------------------------------------
-- Variables that nothing asks for
-- ---------------------------------------------------------------------------

namespace Context

variable {name root : String}

theorem below?_of_plain (hplain : '.' ∉ name.toList) : below? root name = none := by
  unfold below?
  refine if_neg fun hprefix => hplain ?_
  obtain ⟨rest, hrest⟩ := List.isPrefixOf_iff_prefix.mp hprefix
  rw [← hrest]
  simp

/-- A name that is not below a root is not folded into it. -/
theorem fold_insert (hbelow : below? root name = none) (v : Value) (entries : Dict Value) :
    fold root (Dict.insert name v entries) = fold root entries := by
  unfold fold
  generalize ([] : Dict Value) = fields
  induction entries generalizing fields with
  | nil => simp [Dict.insert, hbelow]
  | cons entry rest ih =>
    obtain ⟨key, w⟩ := entry
    by_cases hsame : name = key
    · subst hsame
      simp [Dict.insert, hbelow]
    · by_cases hbefore : name < key
      · simp [Dict.insert, hsame, hbefore, hbelow]
      · simp [Dict.insert, hsame, hbefore, ih]

theorem find?_insert_of_ne (hne : root ≠ name) (c : Context) (v : Value) :
    (c.insert name v).find? root = c.find? root :=
  Dict.find?_insert_of_ne hne v c.values

theorem lookup?_insert_of_plain (hplain : '.' ∉ name.toList) (hne : root ≠ name) (c : Context)
    (v : Value) : (c.insert name v).lookup? root = c.lookup? root := by
  have hspace : (c.insert name v).namespace? root = c.namespace? root := by
    simp only [namespace?, insert, fold_insert (below?_of_plain hplain) v c.values]
  simp only [lookup?, find?_insert_of_ne hne c v, hspace]

end Context

-- ---------------------------------------------------------------------------
-- Compiled rules
-- ---------------------------------------------------------------------------

/-- A compiled rule has the same run wherever its free paths, its functions and the built-in reads are
the same. -/
theorem evaluate_noninterference {σ : Type} [RegimeHost σ] {source : String} {compiled : Compiled}
    (hcompile : compile source = .ok compiled)
    (h : Alike r₁ r₂ c₁ c₂ compiled.freeNames compiled.calledNames) :
    (evaluate r₁ c₁ none compiled.expr : Run σ Value) = evaluate r₂ c₂ none compiled.expr := by
  obtain ⟨e, -, rfl⟩ := Except.map_eq_ok.mp hcompile
  refine Eval.eval_alike [] e (h.subset ?_ ?_)
  · exact fun q hq => Names.mem_ofList.mpr hq
  · exact fun name hname => Names.mem_ofList.mpr hname

def openLong : Context :=
  ⟨Dict.ofList [("rsi", .int 61), ("trade.side", .str "long"), ("trade.is_open", .bool true)],
    ⟨1700000000, 0⟩⟩

def withSpread : Registry :=
  Dict.insert "spread" (.of .custom "spread" [] "int" "Points" fun _ _ => .ok (.int 2))
    Registry.builtins

theorem openLong_lookups {p q : String} (hp : p ∈ ["rsi", "trade.side"]) (hlead : Leads q p) :
    openLong.lookup? q = (openLong.insert "volume" (.int 9)).lookup? q := by
  refine (Context.lookup?_insert_of_plain (by decide) ?_ openLong _).symm
  rintro rfl
  have hhead : p.toList.head? = some 'v' := by
    rcases hlead with rfl | ⟨rest, rfl⟩
    · decide
    · simp
  simp only [List.mem_cons, List.not_mem_nil, or_false] at hp
  rcases hp with rfl | rfl <;> revert hhead <;> decide

/-- A variable and a function that the rule does not mention are of no matter to it. -/
theorem evaluate_noninterference_openLong :
    ∃ compiled, compile "is_long() && trade.side == 'long' && [40, 50].all(x, x < rsi)" =
        .ok compiled ∧
      Alike Registry.builtins withSpread openLong (openLong.insert "volume" (.int 9))
        compiled.freeNames compiled.calledNames ∧
      (evaluate Registry.builtins openLong none compiled.expr : Run FixedHost Value) =
        evaluate withSpread (openLong.insert "volume" (.int 9)) none compiled.expr := by
  have hnames : (compile "is_long() && trade.side == 'long' && [40, 50].all(x, x < rsi)").toOption.map
      (fun c => (c.freeNames, c.calledNames)) =
        some (["rsi", "trade.side"], ["all", "is_long"]) := by decide +kernel
  obtain ⟨compiled, hsome, hpair⟩ := Option.map_eq_some_iff.mp hnames
  have hcompile := Except.toOption_eq_some.mp hsome
  obtain ⟨hfree, hcalled⟩ := Prod.mk.inj hpair
  have h : Alike Registry.builtins withSpread openLong (openLong.insert "volume" (.int 9))
      compiled.freeNames compiled.calledNames := by
    rw [hfree, hcalled]
    refine ⟨⟨rfl, fun name hname => ?_⟩, fun p hp q hlead => openLong_lookups hp hlead,
      fun name hname => ?_, fun name _ f hf => Dict.mem_values_of_find? hf⟩
    · refine (Context.find?_insert_of_ne ?_ openLong _).symm
      rintro rfl
      revert hname
      decide
    · refine (Dict.find?_insert_of_ne ?_ _ Registry.builtins).symm
      rintro rfl
      revert hname
      decide
  exact ⟨compiled, hcompile, h, evaluate_noninterference hcompile h⟩

end TradingRules
