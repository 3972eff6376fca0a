import TradingRules.Proofs.Eval.Runs
import TradingRules.Proofs.Expr.Paths

/-!
# What a path evaluates to

A path whose root no comprehension binds is looked up at its longest prefix that the context knows; the
fields behind that prefix are read one after another from the value there (`outcome_path`). A field that
a map lacks makes the whole path unknown, whichever field it is.
-/

namespace TradingRules

-- ---------------------------------------------------------------------------
-- Reading fields
-- ---------------------------------------------------------------------------

/-- Where reading fields one after another ends. -/
inductive Descent where
  | reached (v : Value)
  /-- A map does not have the next field. -/
  | lacking
  /-- The next field is asked of a value that is no map. -/
  | stuck (field : String) (v : Value)

namespace Descent

def answer (path : String) : Descent → Except Failure Value
  | reached v => .ok v
  | lacking => .error (.unknownVariable path)
  | stuck field v => .error (.typeMismatch ("." ++ field) "map" v.typeName)

def presence : Descent → Except Failure Value
  | reached _ => .ok (.bool true)
  | lacking => .ok (.bool false)
  | stuck field v => .error (.typeMismatch ("." ++ field) "map" v.typeName)

theorem answer_eq_ok_iff {path : String} {d : Descent} {v : Value} :
    d.answer path = .ok v ↔ d = .reached v := by
  cases d <;> simp [answer]

end Descent

namespace Value

def descend : Value → List String → Descent
  | v, [] => .reached v
  | .map fields, field :: rest =>
    match Dict.find? field fields with
    | some v => v.descend rest
    | none => .lacking
  | v, field :: _ => .stuck field v

variable {v w : Value} {field : String} {fields : Dict Value} {front back : List String}

@[simp] theorem descend_nil (v : Value) : v.descend [] = .reached v := by
  unfold descend
  rfl

theorem descend_of_find? (h : Dict.find? field fields = some v) (rest : List String) :
    (map fields).descend (field :: rest) = v.descend rest := by
  rw [descend, h]

theorem descend_append (h : v.descend front = .reached w) (back : List String) :
    v.descend (front ++ back) = w.descend back := by
  fun_induction descend v front with
  | case1 v =>
    cases h
    rfl
  | case2 fields field rest u hfind ih => exact (descend_of_find? hfind _).trans (ih h)
  | case3 => cases h
  | case4 => cases h

theorem descend_append_of_ne (h : ∀ w, v.descend front ≠ .reached w) (back : List String) :
    v.descend (front ++ back) = v.descend front := by
  fun_induction descend v front with
  | case1 v => exact absurd rfl (h v)
  | case2 fields field rest u hfind ih => exact (descend_of_find? hfind _).trans (ih h)
  | case3 fields field rest hfind => rw [List.cons_append, descend, hfind]
  | case4 v field rest hmap => rw [List.cons_append, descend]; exact hmap

/-- Fields are read to the end exactly if the first ones are and the others from there. -/
theorem descend_append_eq_reached :
    v.descend (front ++ back) = .reached w ↔
      ∃ u, v.descend front = .reached u ∧ u.descend back = .reached w := by
  constructor
  · intro h
    by_cases hfront : ∃ u, v.descend front = .reached u
    · obtain ⟨u, hu⟩ := hfront
      exact ⟨u, hu, (descend_append hu back).symm.trans h⟩
    · rw [descend_append_of_ne fun u hu => hfront ⟨u, hu⟩] at h
      exact absurd ⟨w, h⟩ hfront
  · rintro ⟨u, hu, hback⟩
    exact (descend_append hu back).trans hback

theorem descend_eq_reached {rest : List String} (h : v.descend (field :: rest) = .reached w) :
    ∃ fields u, v = map fields ∧ Dict.find? field fields = some u ∧ u.descend rest = .reached w := by
  cases v with
  | map fields =>
    rw [descend] at h
    split at h
    · rename_i u hfind
      exact ⟨fields, u, rfl, hfind, h⟩
    · cases h
  | _ => cases h

end Value

-- ---------------------------------------------------------------------------
-- Prefixes
-- ---------------------------------------------------------------------------

/-- The context has a value for the path as far as `front`, and none for it with more of the fields
`rest` behind that. -/
structure Context.LongestPrefix (c : Context) (root : String) (front rest : List String) (v : Value) :
    Prop where
  found : c.lookup? (dotted root front) = some v
  none_longer : ∀ more, more ≠ [] → more <+: rest → c.lookup? (dotted root (front ++ more)) = none

namespace Context

variable {c : Context} {root field : String} {front rest fields : List String} {v : Value}

theorem LongestPrefix.whole (h : c.lookup? (dotted root fields) = some v) :
    c.LongestPrefix root fields [] v where
  found := h
  none_longer _ hne hprefix := absurd (List.prefix_nil.mp hprefix) hne

theorem LongestPrefix.concat (h : c.LongestPrefix root front rest v)
    (hnone : c.lookup? (dotted root (front ++ (rest ++ [field]))) = none) :
    c.LongestPrefix root front (rest ++ [field]) v where
  found := h.found
  none_longer more hne hprefix := by
    rcases List.prefix_concat_iff.mp hprefix with rfl | hprefix
    · exact hnone
    · exact h.none_longer more hne hprefix

theorem LongestPrefix.dropLast (h : c.LongestPrefix root front (rest ++ [field]) v) :
    c.LongestPrefix root front rest v where
  found := h.found
  none_longer more hne hprefix := h.none_longer more hne (List.prefix_concat_iff.mpr (.inr hprefix))

/-- Some prefix is the longest that the context has, unless it has none. -/
theorem longestPrefix_cases (c : Context) (root : String) (fields : List String) :
    (∀ front, front <+: fields → c.lookup? (dotted root front) = none) ∨
      ∃ front rest v, fields = front ++ rest ∧ c.LongestPrefix root front rest v := by
  induction fields using List.reverseRecOn with
  | nil =>
    cases hroot : c.lookup? root with
    | none =>
      refine .inl fun front hfront => ?_
      rw [List.prefix_nil.mp hfront]
      exact hroot
    | some v => exact .inr ⟨[], [], v, rfl, .whole hroot⟩
  | append_singleton fields field ih =>
    cases hwhole : c.lookup? (dotted root (fields ++ [field])) with
    | some v => exact .inr ⟨fields ++ [field], [], v, (List.append_nil _).symm, .whole hwhole⟩
    | none =>
      rcases ih with hnone | ⟨front, rest, v, rfl, h⟩
      · refine .inl fun front hfront => ?_
        rcases List.prefix_concat_iff.mp hfront with rfl | hfront
        · exact hwhole
        · exact hnone front hfront
      · rw [List.append_assoc] at hwhole ⊢
        exact .inr ⟨front, rest ++ [field], v, rfl, h.concat hwhole⟩

end Context

-- ---------------------------------------------------------------------------
-- Evaluation
-- ---------------------------------------------------------------------------

namespace Eval

open TradingRules.Expr (ofPath)

variable {σ : Type} {host : Option σ}

theorem outcome_fieldOf (path field : String) (v : Value) (host : Option σ) :
    (fieldOf (.unknownVariable path) field v : Run σ Value).outcome host =
      ((v.descend [field]).answer path, host) := by
  cases v with
  | map fields =>
    simp only [fieldOf, Value.descend]
    cases Dict.find? field fields <;> rfl
  | _ => rfl

theorem outcome_orMissing {α : Type} (action instead : Run σ α) (host : Option σ) :
    (orMissing action instead).outcome host =
      match action.outcome host with
      | (.error (.unknownVariable _), next) => instead.outcome next
      | other => other := by
  unfold orMissing
  rw [Run.outcome_tryCatch]
  rcases action.outcome host with ⟨e | a, next⟩
  · cases e <;> rfl
  · rfl

variable [RegimeHost σ] {registry : Registry} {context : Context} {scope : Scope} {root field : String}
  {fields front rest : List String} {v : Value}

theorem outcome_root (hfree : scope.binds root = false) (host : Option σ) :
    (eval registry context scope (.ident root)).outcome host =
      match context.lookup? root with
      | some v => (.ok v, host)
      | none => (.error (.unknownVariable root), host) := by
  have hscope : scope.find? root = none := by
    simpa only [Scope.binds, Scope.find?, Option.isSome_eq_false_iff, Option.isNone_iff_eq_none] using hfree
  rw [eval, hscope]
  cases context.lookup? root <;> rfl

/-- A member is what the context has for it as a whole, or else a field of its target. -/
theorem outcome_member (hfree : scope.binds root = false) (fields : List String) (field : String)
    (host : Option σ) : (eval registry context scope (ofPath root (fields ++ [field]))).outcome host =
      match context.lookup? (dotted root (fields ++ [field])) with
      | some v => (.ok v, host)
      | none =>
        match (eval registry context scope (ofPath root fields)).outcome host with
        | (.ok base, next) => ((base.descend [field]).answer (dotted root (fields ++ [field])), next)
        | (.error (.unknownVariable _), next) =>
          (.error (.unknownVariable (dotted root (fields ++ [field]))), next)
        | (.error e, next) => (.error e, next) := by
  have hpath : (Expr.member (ofPath root fields) field).path? = some (dotted root (fields ++ [field])) := by
    rw [← Expr.ofPath_concat, Expr.path?_ofPath]
  rw [Expr.ofPath_concat, eval]
  simp only [hpath, Expr.root?_ofPath, Option.map_some, Option.getD_some, hfree, Bool.false_eq_true, if_false,
    Option.bind_some, Option.isSome_some, if_true]
  cases context.lookup? (dotted root (fields ++ [field])) with
  | some v => rfl
  | none =>
    simp only [Run.outcome_bind, outcome_orMissing]
    rcases (eval registry context scope (ofPath root fields)).outcome host with ⟨e | base, next⟩
    · cases e <;> rfl
    · exact outcome_fieldOf _ field base next

theorem outcome_of_unknown (hfree : scope.binds root = false)
    (h : ∀ front, front <+: fields → context.lookup? (dotted root front) = none) (host : Option σ) :
    (eval registry context scope (ofPath root fields)).outcome host =
      (.error (.unknownVariable (dotted root fields)), host) := by
  induction fields using List.reverseRecOn with
  | nil =>
    have hroot : context.lookup? root = none := h [] List.nil_prefix
    refine (outcome_root hfree host).trans ?_
    rw [hroot]
    rfl
  | append_singleton fields field ih =>
    rw [outcome_member hfree, h _ List.prefix_rfl,
      ih fun front hfront => h front (hfront.trans (List.prefix_append fields [field]))]

theorem outcome_of_longestPrefix (hfree : scope.binds root = false)
    (h : context.LongestPrefix root front rest v) (host : Option σ) :
    (eval registry context scope (ofPath root (front ++ rest))).outcome host =
      ((v.descend rest).answer (dotted root (front ++ rest)), host) := by
  induction rest using List.reverseRecOn with
  | nil =>
    rw [List.append_nil, Value.descend_nil]
    cases front using List.reverseRecOn with
    | nil =>
      refine (outcome_root hfree host).trans ?_
      have hroot : context.lookup? root = some v := h.found
      rw [hroot]
      rfl
    | append_singleton front field =>
      rw [outcome_member hfree, h.found]
      rfl
  | append_singleton rest field ih =>
    have hnone : context.lookup? (dotted root (front ++ (rest ++ [field]))) = none :=
      h.none_longer _ (by simp) List.prefix_rfl
    rw [← List.append_assoc] at hnone ⊢
    rw [outcome_member hfree, hnone, ih h.dropLast]
    cases hend : v.descend rest with
    | reached w => rw [Value.descend_append hend]; rfl
    | lacking => rw [Value.descend_append_of_ne (by simp [hend]), hend]; rfl
    | stuck f w => rw [Value.descend_append_of_ne (by simp [hend]), hend]; rfl

/-- A path has a value exactly if its last fields are found in what the context has for the longest
prefix. -/
theorem yields_ofPath (hfree : scope.binds root = false) {host' : Option σ} :
    (eval registry context scope (ofPath root fields)).Yields host v host' ↔
      host = host' ∧ ∃ front rest u, fields = front ++ rest ∧ context.LongestPrefix root front rest u ∧
        u.descend rest = .reached v := by
  constructor
  · intro h
    rcases context.longestPrefix_cases root fields with hnone | ⟨front, rest, u, rfl, hlongest⟩
    · rw [Run.Yields, outcome_of_unknown hfree hnone] at h
      cases h
    · rw [Run.Yields, outcome_of_longestPrefix hfree hlongest, Prod.mk.injEq, Descent.answer_eq_ok_iff] at h
      exact ⟨h.2, front, rest, u, rfl, hlongest, h.1⟩
  · rintro ⟨rfl, front, rest, u, rfl, hlongest, hreached⟩
    rw [Run.Yields, outcome_of_longestPrefix hfree hlongest, hreached]
    rfl

theorem outcome_has (target : Expr) (host : Option σ) :
    (eval registry context scope (.has target)).outcome host =
      match (eval registry context scope target).outcome host with
      | (.ok _, next) => (.ok (.bool true), next)
      | (.error (.unknownVariable _), next) => (.ok (.bool false), next)
      | (.error e, next) => (.error e, next) := by
  rw [eval, outcome_orMissing, Run.outcome_bind]
  rcases (eval registry context scope target).outcome host with ⟨e | v, next⟩
  · cases e <;> rfl
  · rfl

/-- Take a path whose root no comprehension binds. If the context has a value for none of its prefixes, it
is unknown as a whole. Otherwise (`Context.longestPrefix_cases`) its value is what the remaining fields lead
to from the value of the longest prefix that the context has: if a map lacks a field the path is unknown as
a whole, and the first field that is asked of another value is refused. `has` says whether there is a value,
but for that refusal. -/
theorem outcome_path (registry : Registry) (context : Context) (hfree : scope.binds root = false)
    (fields : List String) (host : Option σ) :
    let path := dotted root fields
    let run (e : Expr) := (eval registry context scope e).outcome host
    ((∀ front, front <+: fields → context.lookup? (dotted root front) = none) →
      run (ofPath root fields) = (.error (.unknownVariable path), host) ∧
      run (.has (ofPath root fields)) = (.ok (.bool false), host)) ∧
    ∀ front rest v, fields = front ++ rest → context.LongestPrefix root front rest v →
      run (ofPath root fields) = ((v.descend rest).answer path, host) ∧
      run (.has (ofPath root fields)) = ((v.descend rest).presence, host) := by
  intro path run
  constructor
  · intro hnone
    have hvalue : run (ofPath root fields) = _ := outcome_of_unknown hfree hnone host
    refine ⟨hvalue, ?_⟩
    simp only [run, outcome_has] at hvalue ⊢
    rw [hvalue]
  · rintro front rest v rfl hlongest
    have hvalue : run (ofPath root (front ++ rest)) = _ := outcome_of_longestPrefix hfree hlongest host
    refine ⟨hvalue, ?_⟩
    simp only [run, outcome_has] at hvalue ⊢
    rw [hvalue]
    cases v.descend rest <;> rfl

def fastSignals : Context :=
  ⟨[("signals.fast", .map [("rsi", .int 61)]), ("signals.slow.rsi", .int 48)], ⟨1700000000, 0⟩⟩

/-- The longest prefix of the path that the context has is `signals.fast`, whose map lacks the last field. -/
theorem outcome_path_fastSignals :
    Scope.binds [("x", .null)] "signals" = false ∧
      fastSignals.LongestPrefix "signals" ["fast"] ["ema"] (.map [("rsi", .int 61)]) ∧
      (eval Registry.builtins fastSignals [("x", .null)] (ofPath "signals" ["fast", "ema"])).outcome
        (none : Option FixedHost) = (.error (.unknownVariable "signals.fast.ema"), none) ∧
      (eval Registry.builtins fastSignals [("x", .null)] (.has (ofPath "signals" ["fast", "ema"]))).outcome
        (none : Option FixedHost) = (.ok (.bool false), none) := by
  have hfree : Scope.binds [("x", .null)] "signals" = false := by decide
  have hlongest : fastSignals.LongestPrefix "signals" ["fast"] ["ema"] (.map [("rsi", .int 61)]) :=
    .concat (.whole rfl) rfl
  obtain ⟨-, hresolved⟩ :=
    outcome_path (σ := FixedHost) Registry.builtins fastSignals hfree ["fast", "ema"] none
  obtain ⟨hvalue, hpresence⟩ := hresolved ["fast"] ["ema"] _ rfl hlongest
  exact ⟨hfree, hlongest, hvalue, hpresence⟩

end Eval

end TradingRules
