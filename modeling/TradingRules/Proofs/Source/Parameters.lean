import TradingRules.Proofs.Eval.Paths
import TradingRules.Proofs.Source.Layers
import TradingRules.Proofs.Value.ReadBack

/-!
# Parameters of the strategy

A parameter is read as a literal, kept as JSON and read back. The literal is a scalar, and JSON has every
scalar but the floats that are no numbers, so that a name below `cfg.` has the value of its literal or, for
such a float, `null` (`parameter_reaches_context`).
-/

namespace TradingRules

open TradingRules.Field (qualified)

-- ---------------------------------------------------------------------------
-- Literals
-- ---------------------------------------------------------------------------

namespace Value

/-- What JSON keeps of a scalar. -/
def kept : Value → Value
  | .float x => if x.isFinite then .float x else .null
  | v => v

theorem kept_eq_self_iff {v : Value} : v.kept = v ↔ ∀ x, v = .float x → x.isFinite = true := by
  cases v with
  | float x => cases h : x.isFinite <;> simp [kept, h]
  | _ => simp [kept]

theorem ofJson_toJson_of_scalar {v : Value} (hlist : ∀ items, v ≠ .list items)
    (hmap : ∀ fields, v ≠ .map fields) : ofJson v.toJson = v.kept := by
  cases v with
  | float x => cases h : x.isFinite <;> simp [kept, toJson, ofJson, h]
  | list items => exact absurd rfl (hlist items)
  | map fields => exact absurd rfl (hmap fields)
  | _ => exact ofJson_toJson _ trivial

theorem ofLiteral_scalar (text : String) :
    (∀ items, ofLiteral text ≠ .list items) ∧ ∀ fields, ofLiteral text ≠ .map fields := by
  unfold ofLiteral
  dsimp only
  split
  · exact ⟨nofun, nofun⟩
  · exact ⟨nofun, nofun⟩
  · split <;> exact ⟨nofun, nofun⟩

end Value

namespace Strategy

variable {c : Config} {key raw : String}

theorem parameter_eq (raw : String) : parameter raw = (Value.ofLiteral raw).kept :=
  Value.ofJson_toJson_of_scalar (Value.ofLiteral_scalar raw).1 (Value.ofLiteral_scalar raw).2

theorem find?_parameters (hkey : key ∈ c.keys parameterHeading)
    (hraw : c.string? parameterHeading key = some raw) :
    Dict.find? key (ofConfig c).parameters = some (parameter raw) := by
  refine Dict.find?_ofList_of_agree (List.mem_filterMap.mpr ⟨key, hkey, by rw [hraw]; rfl⟩) fun v hv => ?_
  obtain ⟨key', -, hv⟩ := List.mem_filterMap.mp hv
  obtain ⟨raw', hraw', heq⟩ := Option.map_eq_some_iff.mp hv
  obtain ⟨rfl, rfl⟩ := Prod.mk.inj heq
  rw [Option.some.inj (hraw'.symm.trans hraw)]

theorem mem_provided_of_parameter {s : Strategy} {v : Value} (hfree : isFixed key = false)
    (hfind : Dict.find? key s.parameters = some v) :
    (qualified root key, ⟨root, v.typeName, "Strategy parameter", none, v⟩) ∈ s.provided := by
  refine List.mem_append_right _ (List.mem_map.mpr ⟨(key, v), List.mem_filter.mpr ⟨?_, ?_⟩, rfl⟩)
  · exact Dict.mem_of_find? hfind
  · simp [hfree]

end Strategy

-- ---------------------------------------------------------------------------
-- Contexts
-- ---------------------------------------------------------------------------

namespace Assembly

open TradingRules.Strategy (parameterHeading)

variable {c : Config} {key raw : String}

/-- Whatever other sources there are, the name of a parameter that is not overridden has its value. -/
theorem find?_context_parameter {s : Sources} {project : Option Project}
    (hkey : key ∈ c.keys parameterHeading) (hraw : c.string? parameterHeading key = some raw)
    (hfree : Strategy.isFixed key = false) (hstrategy : s.strategy = some (Strategy.ofConfig c))
    (hproject : ∀ p ∈ project, p.PlainNames)
    (hname : Dict.find? (qualified Strategy.root key) s.overrides = none) :
    (Catalog.context (s.catalog project) s.clock).find? (qualified Strategy.root key) =
      some (Value.ofLiteral raw).kept := by
  have hlayer : s.emitted project .strategy = (Strategy.ofConfig c).provided := by
    simp [Sources.emitted, Sources.layer, hstrategy]
  have honce : ((s.emitted project .strategy).map Prod.fst).Nodup := by
    rw [hlayer]
    exact Strategy.nodup_provided (Dict.ordered_ofList _)
  have hgiven := Strategy.mem_provided_of_parameter hfree (Strategy.find?_parameters hkey hraw)
  rw [← hlayer] at hgiven
  have hentry := Sources.find?_catalog_of_emitted hproject honce hgiven hname
  exact (find?_context s.clock).mpr ⟨_, hentry, Strategy.parameter_eq raw⟩

def strategyOnly (c : Config) (clock : Instant) : Sources :=
  { Sources.none clock with strategy := some (Strategy.ofConfig c) }

/-- Take a key of the section for parameters that has a text and is not the name of a fixed setting. From the
strategy alone a context can always be built, and in it the name below `cfg.` has the value of the literal,
unless that is a float that is no number; the value is then `null`. Other sources change nothing about this,
but an override of the name does. An expression reads the same value. -/
theorem parameter_reaches_context {σ : Type} [RegimeHost σ] {c : Config} {key raw : String}
    (hkey : key ∈ c.keys parameterHeading) (hraw : c.string? parameterHeading key = some raw)
    (hfree : Strategy.isFixed key = false) :
    (∀ (a : Assembly) (disk : Disk) (clock : Instant), ∃ catalog,
      (a.build disk (strategyOnly c clock)).1 = .ok catalog ∧
      (catalog.context clock).find? (qualified Strategy.root key) = some (Value.ofLiteral raw).kept) ∧
    (∀ (s : Sources) (project : Option Project), s.strategy = some (Strategy.ofConfig c) →
      (∀ p ∈ project, p.PlainNames) → Dict.find? (qualified Strategy.root key) s.overrides = none →
      let context := Catalog.context (s.catalog project) s.clock
      context.find? (qualified Strategy.root key) = some (Value.ofLiteral raw).kept ∧
      ∀ (registry : Registry) (scope : Scope) (host : Option σ), scope.binds Strategy.root = false →
        (Eval.eval registry context scope (.ofPath Strategy.root [key])).outcome host =
          (.ok (Value.ofLiteral raw).kept, host)) ∧
    ((Value.ofLiteral raw).kept = Value.ofLiteral raw ↔
      ∀ x, Value.ofLiteral raw = .float x → x.isFinite = true) := by
  refine ⟨fun a disk clock => ⟨(strategyOnly c clock).catalog none, ?_, ?_⟩, ?_, Value.kept_eq_self_iff⟩
  · rw [build_fst]
    rfl
  · exact find?_context_parameter hkey hraw hfree rfl nofun rfl
  · intro s project hstrategy hproject hname context
    have hvalue := find?_context_parameter hkey hraw hfree hstrategy hproject hname
    refine ⟨hvalue, fun registry scope host hroot => ?_⟩
    have hlookup : context.lookup? (dotted Strategy.root [key]) = some (Value.ofLiteral raw).kept := by
      rw [show dotted Strategy.root [key] = qualified Strategy.root key from rfl, Context.lookup?, hvalue]
    exact (Eval.outcome_of_longestPrefix hroot (.whole hlookup) host).trans (by rw [Value.descend_nil]; rfl)

def limits : Config :=
  ⟨Config.inlineSource, [("strategy.params", [("cap", some "inf"), ("floor", some "+2.5e1")])]⟩

theorem parameter_reaches_context_floor :
    "floor" ∈ limits.keys parameterHeading ∧ limits.string? parameterHeading "floor" = some "+2.5e1" ∧
      Strategy.isFixed "floor" = false ∧
      ∀ clock, ∃ catalog,
        (withoutStore.build Project.Store.emptyFolder (strategyOnly limits clock)).1 = .ok catalog ∧
        (catalog.context clock).find? "cfg.floor" = some (.float ⟨0x4039000000000000⟩) := by
  have hkey : "floor" ∈ limits.keys parameterHeading := by decide
  have hraw : limits.string? parameterHeading "floor" = some "+2.5e1" := by decide
  have hfree : Strategy.isFixed "floor" = false := by decide
  have hliteral : Value.ofLiteral "+2.5e1" = .float ⟨0x4039000000000000⟩ := rfl
  obtain ⟨hbuilt, -, hkept⟩ := parameter_reaches_context (σ := FixedHost) hkey hraw hfree
  have hfinite := hkept.mpr fun x hx => by
    rw [hliteral] at hx
    cases hx
    decide
  refine ⟨hkey, hraw, hfree, fun clock => ?_⟩
  rw [← hliteral, ← hfinite]
  exact hbuilt withoutStore Project.Store.emptyFolder clock

set_option maxRecDepth 4000 in
theorem ofText?_limits :
    Config.ofText? Config.inlineSource "[strategy.params]\ncap = inf\nfloor = +2.5e1\n" = some limits := by
  cbv

/-- The literal `inf` is a float, which does not come through JSON. -/
theorem context_cap :
    ∃ c, Config.ofText? Config.inlineSource "[strategy.params]\ncap = inf\nfloor = +2.5e1\n" = some c ∧
      "cap" ∈ c.keys parameterHeading ∧ c.string? parameterHeading "cap" = some "inf" ∧
      Strategy.isFixed "cap" = false ∧ Value.ofLiteral "inf" = .float Double.infinity ∧
      (Catalog.context ((strategyOnly c ⟨0, 0⟩).catalog none) ⟨0, 0⟩).find? "cfg.cap" = some .null ∧
      Value.null ≠ Value.ofLiteral "inf" := by
  have hkey : "cap" ∈ limits.keys parameterHeading := by decide
  have hraw : limits.string? parameterHeading "cap" = some "inf" := by decide
  have hfree : Strategy.isFixed "cap" = false := by decide
  have hliteral : Value.ofLiteral "inf" = .float Double.infinity := by cbv
  have hvalue : (Catalog.context ((strategyOnly limits ⟨0, 0⟩).catalog none) ⟨0, 0⟩).find? "cfg.cap" =
      some (Value.ofLiteral "inf").kept := find?_context_parameter hkey hraw hfree rfl (by simp) rfl
  rw [hliteral] at hvalue
  refine ⟨limits, ofText?_limits, hkey, hraw, hfree, hliteral, hvalue, ?_⟩
  simp [hliteral]

end Assembly

end TradingRules
