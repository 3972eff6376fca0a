import TradingRules.Proofs.Eval.Folding
import TradingRules.Proofs.Session.Transparency

/-!
# Undefined variables

Every variable of a rule that cannot be evaluated is listed as undefined. What is listed is looked for among
the names of the context alone; a path that leads into a map which the context holds under a shorter name
is listed too, though it has a value (`undefinedVariables_fail_iff`).
-/

namespace TradingRules

open TradingRules.Expr (ofPath)

namespace Context

variable {c : Context} {root field : String} {front rest fields : List String} {u v : Value}

/-- The path leads to a value inside of what the context holds under a shorter name, and the context has
nothing for a longer part of the path. -/
def HoldsInside (c : Context) (root : String) (fields : List String) : Prop :=
  ∃ front field rest u v, fields = front ++ field :: rest ∧ c.find? (dotted root front) = some u ∧
    c.LongestPrefix root front (field :: rest) u ∧ u.descend (field :: rest) = .reached v

/-- A namespace has no more inside of it than the context has for longer paths. -/
theorem LongestPrefix.find?_of_reached (h : c.LongestPrefix root front (field :: rest) u)
    (hv : u.descend (field :: rest) = .reached v) : c.find? (dotted root front) = some u := by
  have hfound := h.found
  rw [lookup?_eq] at hfound
  rcases Option.or_eq_some_iff.mp hfound with hfind | ⟨-, hspace⟩
  · exact hfind
  · rw [namespace?_eq_some hspace] at hv
    obtain ⟨_, w, ⟨⟩, hfield, -⟩ := Value.descend_eq_reached hv
    obtain ⟨e, he, more, hbelow⟩ := below_of_find?_fold hfield
    have hnone : c.lookup? (dotted root (front ++ [field])) = none :=
      h.none_longer [field] (List.cons_ne_nil _ _) (List.cons_prefix_cons.mpr ⟨rfl, List.nil_prefix⟩)
    rw [dotted_append] at hnone
    exact absurd hnone (lookup?_ne_none_of_below he hbelow)

theorem HoldsInside.lookup?_eq_none (h : c.HoldsInside root fields) :
    c.lookup? (dotted root fields) = none := by
  obtain ⟨front, field, rest, u, v, rfl, -, hlongest, -⟩ := h
  exact hlongest.none_longer _ (List.cons_ne_nil _ _) List.prefix_rfl

/-- A path has a value if the context has it, or holds it inside. -/
theorem exists_yields_ofPath_iff {σ : Type} [RegimeHost σ] (registry : Registry) (c : Context) (root : String)
    (fields : List String) (host : Option σ) :
    (∃ v host', (Eval.eval registry c [] (ofPath root fields)).Yields host v host') ↔
      c.lookup? (dotted root fields) ≠ none ∨ c.HoldsInside root fields := by
  have hfree : Scope.binds [] root = false := rfl
  simp only [Eval.yields_ofPath hfree]
  constructor
  · rintro ⟨v, host', -, front, rest, u, rfl, hlongest, hv⟩
    cases rest with
    | nil =>
      rw [List.append_nil, hlongest.found]
      exact .inl (Option.some_ne_none u)
    | cons field rest =>
      exact .inr ⟨front, field, rest, u, v, rfl, hlongest.find?_of_reached hv, hlongest, hv⟩
  · rintro (hfound | ⟨front, field, rest, u, v, rfl, -, hlongest, hv⟩)
    · obtain ⟨v, hv⟩ := Option.ne_none_iff_exists'.mp hfound
      exact ⟨v, host, rfl, fields, [], v, (List.append_nil _).symm, .whole hv, Value.descend_nil v⟩
    · exact ⟨v, host, rfl, front, field :: rest, u, rfl, hlongest, hv⟩

end Context

namespace Session

variable {σ : Type} [RegimeHost σ] {s : Session} {source : String} {compiled : Compiled}

theorem evaluateText_eq_ok_iff (hlimit : s.evalLimit.spent? = none)
    (hcompile : (s.compile source).1 = .ok compiled) {context : Context} {host : Option σ} {v : Value} :
    (s.evaluateText source context host).1 = .ok v ↔
      ∃ host', (Eval.eval s.registry context [] compiled.expr).Yields host v host' := by
  have heq := congrArg Prod.fst (s.evaluateText_eq source context host)
  dsimp only at heq
  rw [heq, hcompile]
  simp only [evaluate, hlimit, Run.Yields, Run.outcome]
  rcases (Eval.eval s.registry context [] compiled.expr).run.run host with ⟨result, next⟩
  simp [Except.mapError_eq_ok]

/-- A rule that is a path fails unless the context has the path, or holds it inside. -/
theorem evaluateText_path_fails_iff {root : String} {fields : List String} (hlimit : s.evalLimit.spent? = none)
    (hcompile : (s.compile source).1 = .ok compiled) (hpath : compiled.expr = ofPath root fields)
    (context : Context) (host : Option σ) : (∃ e, (s.evaluateText source context host).1 = .error e) ↔
      context.lookup? (dotted root fields) = none ∧ ¬context.HoldsInside root fields := by
  rw [Except.exists_eq_error_iff, ← not_iff_not]
  simp only [evaluateText_eq_ok_iff hlimit hcompile, hpath]
  rw [not_not, context.exists_yields_ofPath_iff]
  tauto

/-- Each variable of a rule that compiles is a path, and a rule by itself. After any history of a session,
and unless its time limit is spent from the start, the variable is listed as undefined if the evaluation of
that rule fails. It is listed exactly then, unless the context holds the path inside of what a shorter
name has. -/
theorem undefinedVariables_fail_iff (settings : Settings) (steps : List (Step σ))
    (hlimit : settings.evalLimit.spent? = none) (hcompile : TradingRules.compile source = .ok compiled)
    (context : Context) :
    let s := (ofSettings settings).run steps
    ∃ listed, (s.undefinedVariables source context).1 = .ok listed ∧ ∀ p ∈ compiled.freeNames,
      ∃ root fields, p = dotted root fields ∧ TradingRules.compile p = .ok ⟨p, ofPath root fields, [p], []⟩ ∧
        ∀ host : Option σ,
          ((∃ e, (s.evaluateText p context host).1 = .error e) → p ∈ listed) ∧
          ((p ∈ listed ↔ ∃ e, (s.evaluateText p context host).1 = .error e) ↔
            ¬context.HoldsInside root fields) := by
  intro s
  have hcompiled : ∀ source, (s.compile source).1 = TradingRules.compile source :=
    (follows_run settings steps).compile_fst
  have hkept : s.evalLimit = settings.evalLimit := (run_settings _ steps).evalLimit
  have hopen : s.evalLimit.spent? = none := hkept ▸ hlimit
  clear_value s
  refine ⟨compiled.freeNames.filter fun name => (context.lookup? name).isNone, ?_, fun p hp => ?_⟩
  · have hlisted : (s.undefinedVariables source context).1 = (s.compile source).1.map _ := rfl
    rw [hlisted, hcompiled, hcompile]
    rfl
  · obtain ⟨root, fields, rfl, -, hpath⟩ := Expr.compile_of_mem_freeNames hcompile hp
    refine ⟨root, fields, rfl, hpath, fun host => ?_⟩
    rw [evaluateText_path_fails_iff hopen ((hcompiled _).trans hpath) rfl, List.mem_filter, and_iff_right hp,
      Option.isNone_iff_eq_none]
    have hinside : context.HoldsInside root fields → _ := Context.HoldsInside.lookup?_eq_none
    tauto

/-- In a context without maps the list says what fails. -/
theorem undefinedVariables_fail_iff_price :
    let context : Context := ⟨[("chart.price", .int 90000)], ⟨1700000000, 0⟩⟩
    let s := (ofSettings .standard).run ([] : List (Step FixedHost))
    Settings.standard.evalLimit.spent? = none ∧
      ∃ compiled, TradingRules.compile "chart.price > entry_level && bot.paper_mode" = .ok compiled ∧
        compiled.freeNames = ["bot.paper_mode", "chart.price", "entry_level"] ∧
        ∃ listed, (s.undefinedVariables "chart.price > entry_level && bot.paper_mode" context).1 = .ok listed ∧
          ∀ p ∈ compiled.freeNames, ∀ host : Option FixedHost,
            (p ∈ listed ↔ ∃ e, (s.evaluateText p context host).1 = .error e) := by
  intro context s
  have hnames : (TradingRules.compile "chart.price > entry_level && bot.paper_mode").toOption.map
      Compiled.freeNames = some ["bot.paper_mode", "chart.price", "entry_level"] := by decide +kernel
  obtain ⟨compiled, hsome, hfree⟩ := Option.map_eq_some_iff.mp hnames
  have hcompile := Except.toOption_eq_some.mp hsome
  obtain ⟨listed, hlisted, hvariables⟩ :=
    undefinedVariables_fail_iff (σ := FixedHost) .standard [] rfl hcompile context
  refine ⟨rfl, compiled, hcompile, hfree, listed, hlisted, fun p hp host => ?_⟩
  obtain ⟨root, fields, rfl, -, hfails⟩ := hvariables p hp
  refine (hfails host).2.mpr ?_
  rintro ⟨front, field, rest, u, v, -, hfind, -, hv⟩
  obtain ⟨_, w, rfl, -, -⟩ := Value.descend_eq_reached hv
  have hmem := Dict.mem_of_find? hfind
  simp [context] at hmem

/-- The path into the map is listed, and it has a value. -/
theorem undefinedVariables_of_inside :
    let context : Context := ⟨[("rsi14", .map [("value", .int 55)])], ⟨1700000000, 0⟩⟩
    (standard.undefinedVariables "rsi14.value > 50" context).1 = .ok ["rsi14.value"] ∧
      (standard.evaluateText "rsi14.value" context (none : Option FixedHost)).1 = .ok (.int 55) := by
  intro context
  have hroot : Expr.IsName "rsi14" := ⟨Expr.isWord_of_isPlainWord (by decide), by decide⟩
  have hfield : Expr.IsName "value" := ⟨Expr.isWord_of_isPlainWord (by decide), by decide⟩
  have hcompile : TradingRules.compile "rsi14.value" =
      .ok ⟨"rsi14.value", ofPath "rsi14" ["value"], _, _⟩ :=
    Expr.compile_of_path? (.member (.ident hroot) hfield) rfl (by decide)
  have hrule : (standard.compile "rsi14.value").1 = _ :=
    ((ExprCache.follows_empty ExprCache.defaultCapacity).compile_fst "rsi14.value").trans hcompile
  refine ⟨by decide +kernel, (evaluateText_eq_ok_iff rfl hrule).mpr ⟨none, ?_⟩⟩
  exact (Eval.yields_ofPath rfl).mpr ⟨rfl, [], ["value"], _, rfl, .concat (.whole rfl) rfl, rfl⟩

end Session

end TradingRules
