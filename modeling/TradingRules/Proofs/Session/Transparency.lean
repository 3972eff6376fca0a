import TradingRules.Proofs.Cache.Latest
import TradingRules.Proofs.Outcome
import TradingRules.Proofs.Session.History

/-!
# The memory of rules does not show

A rule that is remembered is the one its text compiles to, so that a session with a history answers
as a fresh one with the same functions does. What the history does show is the counts: which request
is a hit follows from the texts requested since the last clearing alone (`ExprCache.Follows`).
-/

namespace TradingRules

def compiles (source : String) : Bool := (compile source).isOk

theorem compiles_iff {source : String} :
    compiles source = true ↔ ∃ compiled, compile source = .ok compiled :=
  Except.isOk_iff

def IsRuleOf (source : String) (compiled : Compiled) : Prop := compile source = .ok compiled

namespace ExprCache

variable {c : ExprCache} {texts : List String} {source : String}

/-- What a memory is after the requests for `texts`, latest first: it remembers the texts among them
that compile, each with the rule it compiles to, and has counted every request. -/
structure Follows (c : ExprCache) (texts : List String) : Prop where
  remembers : c.store.Remembers (texts.filter compiles)
  faithful : ∀ e ∈ c.store.entries, IsRuleOf e.1 e.2.1
  counted : c.hits + c.misses = texts.length

theorem follows_empty (capacity : Nat) : Follows (Counted.empty capacity) [] where
  remembers := .empty capacity
  faithful _ he := nomatch he
  counted := rfl

theorem Follows.clear (h : c.Follows texts) : Follows c.clear [] where
  remembers := h.remembers.clear
  faithful _ he := nomatch he
  counted := rfl

theorem Follows.compile_eq_ok (h : c.Follows texts) {compiled : Compiled}
    (hpeek : c.store.peek? source = some compiled) : TradingRules.compile source = .ok compiled := by
  obtain ⟨n, hmem⟩ := Recency.mem_of_peek? hpeek
  exact h.faithful (source, compiled, n) hmem

theorem compile_of_some {compiled : Compiled} (hpeek : c.store.peek? source = some compiled) :
    c.compile source = (.ok compiled, ⟨(c.store.get source).2, c.hits + 1, c.misses⟩) := by
  have hget := (Recency.get_fst c.store source).trans hpeek
  simp [ExprCache.compile, Counted.request, Option.filter, hget]

theorem compile_of_none {compiled : Compiled} (hpeek : c.store.peek? source = none)
    (hcompile : TradingRules.compile source = .ok compiled) :
    c.compile source = (.ok compiled,
      ⟨((c.store.get source).2.insert source compiled).2, c.hits, c.misses + 1⟩) := by
  have hget := (Recency.get_fst c.store source).trans hpeek
  have hagain := (Recency.peek?_get_self c.store source).trans hpeek
  simp [ExprCache.compile, Counted.request, Counted.insert, hget, hagain, hcompile]

theorem compile_of_error {e : CompileError} (hpeek : c.store.peek? source = none)
    (hcompile : TradingRules.compile source = .error e) :
    c.compile source = (.error e, ⟨(c.store.get source).2, c.hits, c.misses + 1⟩) := by
  have hget := (Recency.get_fst c.store source).trans hpeek
  simp [ExprCache.compile, Counted.request, hget, hcompile]

theorem Follows.compile_fst (h : c.Follows texts) (source : String) :
    (c.compile source).1 = TradingRules.compile source := by
  cases hpeek : c.store.peek? source with
  | some compiled => rw [compile_of_some hpeek, h.compile_eq_ok hpeek]
  | none =>
    cases hcompile : TradingRules.compile source with
    | ok compiled => rw [compile_of_none hpeek hcompile]
    | error e => rw [compile_of_error hpeek hcompile]

/-- A request that is no hit puts the text in exactly if it compiles. -/
theorem Follows.compile (h : c.Follows texts) (source : String) :
    Follows (c.compile source).2 (source :: texts) := by
  have hcount := h.counted
  have hfaithful := Recency.forall_entries_get h.faithful source
  cases hpeek : c.store.peek? source with
  | some compiled =>
    have hgood := compiles_iff.mpr ⟨compiled, h.compile_eq_ok hpeek⟩
    rw [compile_of_some hpeek]
    refine ⟨?_, hfaithful, ?_⟩
    · rw [List.filter_cons_of_pos hgood]
      exact h.remembers.get_of_mem (h.remembers.mem_recent.mpr ⟨compiled, hpeek⟩)
    · simp only [List.length_cons]
      omega
  | none =>
    have hgot := h.remembers.get_of_not_mem (h.remembers.not_mem_recent.mpr hpeek)
    cases hcompile : TradingRules.compile source with
    | ok compiled =>
      rw [compile_of_none hpeek hcompile]
      refine ⟨?_, Recency.forall_entries_insert hfaithful hcompile, ?_⟩
      · rw [List.filter_cons_of_pos (compiles_iff.mpr ⟨compiled, hcompile⟩)]
        exact hgot.insert source compiled
      · simp only [List.length_cons]
        omega
    | error e =>
      rw [compile_of_error hpeek hcompile]
      refine ⟨?_, hfaithful, ?_⟩
      · rw [List.filter_cons_of_neg (by simp [compiles_iff, hcompile])]
        exact hgot
      · simp only [List.length_cons]
        omega

theorem Follows.hits_compile (h : c.Follows texts) (source : String) :
    (c.compile source).2.hits = c.hits + 1 ↔ source ∈ c.store.recent := by
  cases hpeek : c.store.peek? source with
  | some compiled =>
    rw [compile_of_some hpeek]
    exact iff_of_true rfl (h.remembers.mem_recent.mpr ⟨compiled, hpeek⟩)
  | none =>
    refine iff_of_false ?_ (h.remembers.not_mem_recent.mpr hpeek)
    cases hcompile : TradingRules.compile source with
    | ok compiled => simp [compile_of_none hpeek hcompile]
    | error e => simp [compile_of_error hpeek hcompile]

theorem capacity_compile (c : ExprCache) (source : String) :
    (c.compile source).2.store.capacity = c.store.capacity := by
  cases hpeek : c.store.peek? source with
  | some compiled => simp [compile_of_some hpeek]
  | none =>
    cases hcompile : TradingRules.compile source with
    | ok compiled => simp [compile_of_none hpeek hcompile]
    | error e => simp [compile_of_error hpeek hcompile]

/-- A request is a hit exactly if the text compiles, was requested before, and fewer other texts that
compile were requested since than there is room for. -/
theorem Follows.hit_iff (h : c.Follows texts) (source : String) :
    (c.compile source).2.hits = c.hits + 1 ↔
      compiles source = true ∧ source ∈ texts ∧
        ((texts.takeWhile (· ≠ source)).filter compiles).eraseDups.length < c.store.capacity := by
  rw [h.hits_compile, h.remembers.mem_recent_iff, List.mem_filter]
  by_cases hgood : compiles source = true
  · have hsame : (texts.filter compiles).takeWhile (· ≠ source) =
        (texts.takeWhile (· ≠ source)).filter compiles := by
      rw [List.takeWhile_filter]
      congr 2
      funext text
      by_cases htext : text = source <;> simp [htext, hgood]
    rw [hsame]
    simp [hgood]
  · simp [hgood]

end ExprCache

namespace Session

variable {σ : Type} [RegimeHost σ] {s : Session} {texts : List String}

theorem follows_after (h : s.rules.Follows texts) (step : Step σ) :
    (s.after step).rules.Follows (step.texts texts) := by
  cases step with
  | compile source => exact h.compile source
  | evaluate source context host =>
    have hafter : s.after (.evaluate source context host) = (s.compile source).2 :=
      after_of_request rfl
    rw [hafter]
    exact h.compile source
  | undefinedVariables source context => exact h.compile source
  | register f overwrite =>
    simp only [after]
    split
    · rename_i heq
      rw [register_eq_ok heq]
      exact h
    · exact h
  | clear => exact h.clear

theorem follows_foldl (h : s.rules.Follows texts) (steps : List (Step σ)) :
    (s.run steps).rules.Follows (steps.foldl Step.texts texts) := by
  induction steps generalizing s texts with
  | nil => exact h
  | cons step rest ih => exact ih (follows_after h step)

theorem follows_run (settings : Settings) (steps : List (Step σ)) :
    ((ofSettings settings).run steps).rules.Follows (requested steps) :=
  follows_foldl (ExprCache.follows_empty settings.ruleCapacity) steps

theorem capacity_after (s : Session) (step : Step σ) :
    (s.after step).rules.store.capacity = s.rules.store.capacity := by
  cases hrequest : step.request? with
  | some source =>
    rw [after_of_request hrequest]
    exact ExprCache.capacity_compile s.rules source
  | none =>
    cases step with
    | register f overwrite =>
      simp only [after]
      split
      · rename_i heq
        rw [register_eq_ok heq]
      · rfl
    | clear => rfl
    | _ => cases hrequest

theorem capacity_run (s : Session) (steps : List (Step σ)) :
    (s.run steps).rules.store.capacity = s.rules.store.capacity := by
  induction steps generalizing s with
  | nil => rfl
  | cons step rest ih => exact (ih (s.after step)).trans (capacity_after s step)

/-- What a rule evaluates to depends on the memory of rules only by what the text compiles to. -/
theorem evaluateText_eq (s : Session) (source : String) (context : Context) (host : Option σ) :
    ((s.evaluateText source context host).1, (s.evaluateText source context host).2.1) =
      match (s.compile source).1 with
      | .error e => (.error (.compile e), host)
      | .ok compiled =>
        let (result, host) :=
          (evaluate s.registry context s.evalLimit compiled.expr : Run σ Value).run.run host
        (result.mapError .evaluation, host) := by
  simp only [evaluateText]
  cases heq : (s.compile source).1 with
  | error e => rfl
  | ok compiled => rfl

/-- After any history a session answers as a fresh one with the same functions does. No text that
fails to compile is remembered, every request since the last clearing is counted, the memory keeps to
its capacity, and a request is a hit exactly if its text compiles, was requested since the last
clearing, and fewer other texts that compile were requested after that than there is room for. -/
theorem run_transparent (settings : Settings) (steps : List (Step σ)) :
    let s := (ofSettings settings).run steps
    let fresh := { ofSettings settings with registry := s.registry }
    let stats := s.rules.stats
    (∀ source, (s.compile source).1 = (fresh.compile source).1) ∧
    (∀ source context (host : Option σ),
      (s.evaluateText source context host).1 = (fresh.evaluateText source context host).1 ∧
      (s.evaluateText source context host).2.1 = (fresh.evaluateText source context host).2.1) ∧
    (∀ source, s.rules.store.contains source = true → compiles source = true) ∧
    stats.hits + stats.misses = (requested steps).length ∧
    stats.capacity = max settings.ruleCapacity 1 ∧ stats.size ≤ stats.capacity ∧
    ∀ (step : Step σ) source, step.request? = some source →
      ((s.after step).rules.stats.hits = stats.hits + 1 ↔
        compiles source = true ∧ source ∈ requested steps ∧
          (((requested steps).takeWhile (· ≠ source)).filter compiles).eraseDups.length <
            stats.capacity) := by
  intro s fresh stats
  have hfollows : s.rules.Follows (requested steps) := follows_run settings steps
  have hfresh : fresh.rules.Follows [] := ExprCache.follows_empty settings.ruleCapacity
  have hcompile : ∀ source, (s.compile source).1 = (fresh.compile source).1 := fun source =>
    (hfollows.compile_fst source).trans (hfresh.compile_fst source).symm
  refine ⟨hcompile, fun source context host => Prod.mk.inj ?_, fun source hmem => ?_,
    hfollows.counted, capacity_run _ steps, hfollows.remembers.fits, fun step source hrequest => ?_⟩
  · have hlimit : s.evalLimit = fresh.evalLimit := (run_settings _ steps).evalLimit
    rw [evaluateText_eq, evaluateText_eq, hcompile, hlimit]
  · rw [Recency.contains_eq] at hmem
    obtain ⟨compiled, hpeek⟩ := Option.isSome_iff_exists.mp hmem
    exact compiles_iff.mpr ⟨compiled, hfollows.compile_eq_ok hpeek⟩
  · rw [after_of_request hrequest]
    exact hfollows.hit_iff source

end Session

end TradingRules
