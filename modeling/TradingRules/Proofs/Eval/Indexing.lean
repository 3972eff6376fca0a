import TradingRules.Proofs.Eval.Folding

/-!
# Points and brackets

In a context in which no name goes on below another, fields behind points and the same fields in brackets
lead to the same value: what the context has for a longer path stands in the namespace of its root
(`Context.Flat.lookup?_root`).
-/

namespace TradingRules

namespace Expr

def indexed (root : String) (fields : List String) : Expr :=
  fields.foldl (fun target field => .index target (.literal (.str field))) (.ident root)

theorem indexed_concat (root : String) (fields : List String) (field : String) :
    indexed root (fields ++ [field]) = .index (indexed root fields) (.literal (.str field)) := List.foldl_append

end Expr

theorem Value.index_str_eq_ok_iff {base v : Value} {field : String} :
    base.index (.str field) = .ok v ↔ base.descend [field] = .reached v := by
  cases base with
  | map fields =>
    rw [index, descend]
    cases Dict.find? field fields <;> simp
  | _ => simp [index, descend]

namespace Context

variable {c : Context} {entries : List (String × Value)} {root path : String} {front : List String} {u : Value}

/-- No name comes twice, and none goes on below another. -/
structure Flat (entries : List (String × Value)) : Prop where
  distinct : (entries.map Prod.fst).Nodup
  apart : ∀ e ∈ entries, ∀ e' ∈ entries, ¬IsBelow e.1 e'.1

theorem Flat.foldable (h : Flat entries) : Foldable entries where
  distinct := h.distinct
  leaves name fields hmem e he := h.apart (name, .map fields) hmem e he

/-- A name with a value has no namespace, so it does not matter which comes first. -/
theorem Flat.lookup?_eq (h : Flat c.values) (path : String) :
    c.lookup? path = (c.namespace? path).or (c.find? path) := by
  rw [Context.lookup?_eq]
  cases hfind : c.find? path with
  | none => rw [Option.none_or, Option.or_none]
  | some v =>
    have hnone : c.namespace? path = none := by
      refine namespace?_eq_none_iff.mpr fun name hname => ?_
      obtain ⟨e, he, rfl⟩ := List.mem_map.mp hname
      exact h.apart _ (Dict.mem_of_find? hfind) e he
    rw [hnone, Option.none_or, Option.some_or]

/-- What the context has for a path stands at its fields in what it has for the root. -/
theorem Flat.lookup?_root (h : Flat c.values) (hplain : ∀ f ∈ front, '.' ∉ f.toList)
    (hfound : c.lookup? (dotted root front) = some u) :
    ∃ base, c.lookup? root = some base ∧ base.descend front = .reached u := by
  rcases eq_or_ne front [] with rfl | hne
  · exact ⟨u, hfound, Value.descend_nil u⟩
  · rw [h.lookup?_eq] at hfound
    refine ⟨_, ?_, descend_fold h.foldable hne hplain hfound⟩
    rw [h.lookup?_eq, namespace?_of_place hne hfound, Option.some_or]

end Context

namespace Eval

open TradingRules.Expr (ofPath indexed)

variable {σ : Type} [RegimeHost σ] {registry : Registry} {context : Context} {scope : Scope} {root : String}
  {fields : List String} {v : Value} {host host' : Option σ}

theorem yields_ident (hfree : scope.binds root = false) :
    (eval registry context scope (.ident root)).Yields host v host' ↔
      host = host' ∧ context.lookup? root = some v := by
  rw [Run.Yields, outcome_root hfree]
  cases context.lookup? root <;> simp [and_comm]

theorem yields_index_str {target : Expr} {field : String} :
    (eval registry context scope (.index target (.literal (.str field)))).Yields host v host' ↔
      ∃ base, (eval registry context scope target).Yields host base host' ∧
        base.descend [field] = .reached v := by
  rw [eval, Run.yields_bind]
  constructor
  · rintro ⟨base, next, hbase, hkey⟩
    rw [eval, Run.yields_bind] at hkey
    obtain ⟨_, _, ⟨⟩, hvalue⟩ := hkey
    obtain ⟨hindex, rfl⟩ := Run.yields_ofExcept.mp hvalue
    exact ⟨base, hbase, Value.index_str_eq_ok_iff.mp hindex⟩
  · rintro ⟨base, hbase, hfield⟩
    refine ⟨base, host', hbase, ?_⟩
    rw [eval]
    exact Run.yields_bind.mpr
      ⟨_, host', Run.yields_pure, Run.yields_ofExcept.mpr ⟨Value.index_str_eq_ok_iff.mpr hfield, rfl⟩⟩

theorem yields_indexed (hfree : scope.binds root = false) :
    (eval registry context scope (indexed root fields)).Yields host v host' ↔
      host = host' ∧ ∃ base, context.lookup? root = some base ∧ base.descend fields = .reached v := by
  induction fields using List.reverseRecOn generalizing v with
  | nil => simp [indexed, yields_ident hfree]
  | append_singleton fields field ih =>
    simp only [Expr.indexed_concat, yields_index_str, ih, Value.descend_append_eq_reached]
    constructor
    · rintro ⟨w, ⟨hhost, base, hroot, hw⟩, hfield⟩
      exact ⟨hhost, base, hroot, w, hw, hfield⟩
    · rintro ⟨hhost, base, hroot, w, hw, hfield⟩
      exact ⟨w, ⟨hhost, base, hroot, hw⟩, hfield⟩

/-- Take a root that no comprehension binds and a context in which no name goes on below another. Names
behind points have a value exactly if they have that value in brackets. -/
theorem yields_ofPath_iff_indexed (hfree : scope.binds root = false) (hflat : Context.Flat context.values)
    (hplain : ∀ f ∈ fields, '.' ∉ f.toList) :
    (eval registry context scope (ofPath root fields)).Yields host v host' ↔
      (eval registry context scope (indexed root fields)).Yields host v host' := by
  rw [yields_ofPath hfree, yields_indexed hfree]
  refine and_congr_right fun _ => ?_
  constructor
  · rintro ⟨front, rest, u, rfl, hlongest, hrest⟩
    obtain ⟨base, hroot, hfront⟩ :=
      hflat.lookup?_root (fun f hf => hplain f (List.mem_append_left _ hf)) hlongest.found
    exact ⟨base, hroot, Value.descend_append_eq_reached.mpr ⟨u, hfront, hrest⟩⟩
  · rintro ⟨base, hroot, hreached⟩
    rcases context.longestPrefix_cases root fields with hnone | ⟨front, rest, u, rfl, hlongest⟩
    · have : context.lookup? root = none := hnone [] List.nil_prefix
      rw [hroot] at this
      cases this
    · obtain ⟨base', hroot', hfront⟩ :=
        hflat.lookup?_root (fun f hf => hplain f (List.mem_append_left _ hf)) hlongest.found
      obtain rfl : base = base' := Option.some.inj (hroot.symm.trans hroot')
      rw [Value.descend_append hfront] at hreached
      exact ⟨front, rest, u, rfl, hlongest, hreached⟩

def barTrade : Context :=
  ⟨[("trade.bar", .map [("open", .int 3)]), ("trade.side", .str "long")], ⟨1700000000, 0⟩⟩

theorem flat_barTrade : Context.Flat barTrade.values where
  distinct := by decide
  apart := by decide

/-- The map of `trade.bar` stands in the namespace of `trade`. -/
theorem yields_indexed_barTrade :
    Scope.binds [("x", .null)] "trade" = false ∧ Context.Flat barTrade.values ∧
      (∀ f ∈ ["bar", "open"], '.' ∉ f.toList) ∧
      (eval Registry.builtins barTrade [("x", .null)] (indexed "trade" ["bar", "open"])).Yields
        (none : Option FixedHost) (.int 3) none := by
  have hfree : Scope.binds [("x", .null)] "trade" = false := by decide
  have hplain : ∀ f ∈ ["bar", "open"], '.' ∉ f.toList := by decide
  have hlongest : barTrade.LongestPrefix "trade" ["bar"] ["open"] (.map [("open", .int 3)]) :=
    .concat (.whole rfl) rfl
  exact ⟨hfree, flat_barTrade, hplain, (yields_ofPath_iff_indexed hfree flat_barTrade hplain).mp
    ((yields_ofPath hfree).mpr ⟨rfl, ["bar"], ["open"], _, rfl, hlongest, rfl⟩)⟩

end Eval

end TradingRules
