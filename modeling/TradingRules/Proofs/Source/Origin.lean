import TradingRules.Proofs.Project.Edits
import TradingRules.Source.Assembly

/-!
# Where variables come from

Each source but the project gives names below a root of its own, and the roots differ. The names of a
project are words, without a point. So no two sources give the same name (`Origin.owner_unique`), and
none gives a name twice (`nodup_emitted`): the fields of a table have different names, parameters with the
name of a fixed setting are left out, and a dictionary has each name once.
-/

namespace TradingRules

open TradingRules.Field (qualified)

-- ---------------------------------------------------------------------------
-- Names below a root
-- ---------------------------------------------------------------------------

section
variable {root name : String} {fields : List Field} {values : List (String × Value)}
  {d : Dict Value} {e : String × VariableInfo}

def IsBelow (root name : String) : Prop := (root ++ ".").toList <+: name.toList

instance (root name : String) : Decidable (IsBelow root name) :=
  inferInstanceAs (Decidable (_ <+: _))

theorem isBelow_qualified (root name : String) : IsBelow root (qualified root name) := by
  rw [IsBelow, qualified, String.toList_append (s := root ++ ".")]
  exact List.prefix_append _ _

theorem qualified_inj {a b : String} : qualified root a = qualified root b ↔ a = b := by
  simp [qualified, String.ext_iff]

theorem takeWhile_of_isBelow (h : IsBelow root name) (hroot : '.' ∉ root.toList) :
    name.toList.takeWhile (· ≠ '.') = root.toList := by
  obtain ⟨rest, hrest⟩ := h
  rw [← hrest, String.toList_append, List.append_assoc, List.takeWhile_append_of_pos]
  · simp
  · intro c hc
    simpa using fun heq : c = '.' => hroot (heq ▸ hc)

theorem Field.isBelow_of_mem_provide (h : e ∈ provide root fields values) : IsBelow root e.1 := by
  obtain ⟨f, -, hf⟩ := List.mem_filterMap.mp h
  obtain ⟨v, -, rfl⟩ := Option.map_eq_some_iff.mp hf
  exact isBelow_qualified root f.name

theorem Field.names_provide (root : String) (fields : List Field) (values : List (String × Value)) :
    ((provide root fields values).map Prod.fst).Sublist ((fields.map Field.name).map (qualified root)) := by
  induction fields with
  | nil => exact List.Sublist.slnil
  | cons f rest ih =>
    simp only [provide, List.filterMap_cons] at ih ⊢
    split
    · exact ih.cons _
    · rename_i hsome
      obtain ⟨v, -, rfl⟩ := Option.map_eq_some_iff.mp hsome
      exact ih.cons_cons _

theorem nodup_qualified {names : List String} (h : names.Nodup) : (names.map (qualified root)).Nodup :=
  h.map fun _ _ => qualified_inj.mp

theorem Field.nodup_provide (h : (fields.map Field.name).Nodup) :
    ((provide root fields values).map Prod.fst).Nodup :=
  (nodup_qualified h).sublist (names_provide root fields values)

namespace Sources

theorem below_of_isBelow (h : IsBelow root name) : below root name = name :=
  if_pos (List.isPrefixOf_iff_prefix.mpr h)

theorem below_of_not_isBelow (h : ¬IsBelow root name) : below root name = qualified root name :=
  if_neg fun hprefix => h (List.isPrefixOf_iff_prefix.mp hprefix)

theorem isBelow_below (root name : String) : IsBelow root (below root name) := by
  by_cases h : IsBelow root name
  · rwa [below_of_isBelow h]
  · rw [below_of_not_isBelow h]
    exact isBelow_qualified root name

/-- No key stands both alone and below the root. -/
def Unambiguous (root : String) (d : Dict Value) : Prop :=
  ∀ name ∈ Dict.names d, ¬IsBelow root name → qualified root name ∉ Dict.names d

instance (root : String) (d : Dict Value) : Decidable (Unambiguous root d) :=
  inferInstanceAs (Decidable (∀ name ∈ _, _ → _))

theorem Unambiguous.below_inj (h : Unambiguous root d) :
    ∀ a ∈ Dict.names d, ∀ b ∈ Dict.names d, below root a = below root b → a = b := by
  intro a ha b hb heq
  by_cases hbelow : IsBelow root a <;> by_cases hbelow' : IsBelow root b
  · rwa [below_of_isBelow hbelow, below_of_isBelow hbelow'] at heq
  · rw [below_of_isBelow hbelow, below_of_not_isBelow hbelow'] at heq
    exact absurd (heq ▸ ha) (h b hb hbelow')
  · rw [below_of_not_isBelow hbelow, below_of_isBelow hbelow'] at heq
    exact absurd (heq ▸ hb) (h a ha hbelow)
  · rw [below_of_not_isBelow hbelow, below_of_not_isBelow hbelow'] at heq
    exact qualified_inj.mp heq

theorem names_supplied (root description : String) (d : Dict Value) :
    (supplied root description d).map Prod.fst = (Dict.names d).map (below root) := by
  simp [supplied, Dict.names]

theorem nodup_supplied (description : String) (hordered : Dict.Ordered d) (h : Unambiguous root d) :
    ((supplied root description d).map Prod.fst).Nodup := by
  rw [names_supplied]
  exact List.Nodup.map_on h.below_inj hordered.nodup_names

end Sources

end

-- ---------------------------------------------------------------------------
-- The strategy
-- ---------------------------------------------------------------------------

namespace Strategy

variable {s : Strategy} {e : String × VariableInfo}

theorem isBelow_of_mem_provided (h : e ∈ s.provided) : IsBelow root e.1 := by
  rcases List.mem_append.mp h with h | h
  · exact Field.isBelow_of_mem_provide h
  · obtain ⟨p, -, rfl⟩ := List.mem_map.mp h
    exact isBelow_qualified root p.1

theorem isFixed_iff {name : String} : isFixed name = true ↔ name ∈ fields.map Field.name := by
  simp [isFixed, fields, Setting.field]

theorem nodup_provided (h : Dict.Ordered s.parameters) : (s.provided.map Prod.fst).Nodup := by
  have hparameters : ((s.parameters.filter fun p => !isFixed p.1).map Prod.fst).Nodup :=
    h.nodup_names.sublist (List.filter_sublist.map Prod.fst)
  have hnames : s.provided.map Prod.fst = (Field.provide root fields s.values).map Prod.fst ++
      ((s.parameters.filter fun p => !isFixed p.1).map Prod.fst).map (qualified root) := by
    simp [provided]
  rw [hnames]
  refine List.nodup_append.mpr ⟨Field.nodup_provide (by decide), nodup_qualified hparameters, ?_⟩
  rintro a ha b hb rfl
  -- the parameter `a` would be a fixed setting, but those are left out
  obtain ⟨fixed, hfixed, rfl⟩ := List.mem_map.mp ((Field.names_provide root fields s.values).subset ha)
  obtain ⟨free, hfree, heq⟩ := List.mem_map.mp hb
  obtain rfl := qualified_inj.mp heq
  obtain ⟨p, hp, rfl⟩ := List.mem_map.mp hfree
  have hfree : isFixed p.1 = false := by simpa using (List.mem_filter.mp hp).2
  rw [isFixed_iff.mpr hfixed] at hfree
  cases hfree

end Strategy

-- ---------------------------------------------------------------------------
-- The project
-- ---------------------------------------------------------------------------

namespace Project

structure PlainNames (p : Project) : Prop where
  ordered : Dict.Ordered p.entries
  plain : ∀ e ∈ p.entries, checkName e.1 = .ok ()

theorem Sound.plainNames {p : Project} (h : p.Sound) : p.PlainNames := ⟨h.ordered, h.plain⟩

theorem checkName_eq_ok_iff {name : String} : checkName name = .ok () ↔ isWord name.toList = true ∧
    name ∉ reservedRoots ∧ name ∉ Token.keywords ∧ name ∉ reservedWords := by
  unfold checkName
  split
  · simp_all
  · split
    · simp_all
    · split
      · rename_i hkept
        exact iff_of_false nofun fun h => hkept.elim h.2.2.1 h.2.2.2
      · simp_all

theorem no_point_of_checkName {name : String} (h : checkName name = .ok ()) : '.' ∉ name.toList := by
  have hword := (checkName_eq_ok_iff.mp h).1
  intro hpoint
  cases hname : name.toList with
  | nil => simp [hname] at hpoint
  | cons c rest =>
    simp only [hname, isWord, Bool.and_eq_true] at hword
    rcases List.mem_cons.mp (hname ▸ hpoint) with rfl | hrest
    · exact absurd hword.1 (by decide)
    · exact absurd (List.all_eq_true.mp hword.2 '.' hrest) (by decide)

end Project

-- ---------------------------------------------------------------------------
-- Origins
-- ---------------------------------------------------------------------------

/-- Where a variable can come from, the overrides apart. -/
inductive Origin where
  | chart
  | bot
  | strategy
  | trade
  | project
  | indicators
  | regime
  deriving DecidableEq

namespace Origin

/-- The order in which the layers are put together. -/
def all : List Origin := [.chart, .bot, .strategy, .trade, .project, .indicators, .regime]

theorem mem_all (o : Origin) : o ∈ all := by cases o <;> decide

def root? : Origin → Option String
  | .chart => some Chart.root
  | .bot => some Bot.root
  | .strategy => some Strategy.root
  | .trade => some OpenTrade.root
  | .project => none
  | .indicators => some "indicators"
  | .regime => some "regime"

/-- The names that are below the root of the origin or, for the project, have no point. -/
def Owns (o : Origin) (name : String) : Prop :=
  match o.root? with
  | some root => IsBelow root name
  | none => '.' ∉ name.toList

theorem root?_inj {o o' : Origin} (h : o.root? = o'.root?) : o = o' := by
  cases o <;> cases o' <;> revert h <;> decide

theorem no_point_of_root? {o : Origin} {root : String} (h : o.root? = some root) :
    '.' ∉ root.toList := by
  cases o <;> cases h <;> decide

theorem owner_unique {o o' : Origin} {name : String} (h : o.Owns name) (h' : o'.Owns name) :
    o = o' := by
  have hpoint : ∀ {root : String}, IsBelow root name → '.' ∈ name.toList := fun hbelow =>
    hbelow.subset (by simp)
  unfold Owns at h h'
  cases hroot : o.root? with
  | none =>
    cases hroot' : o'.root? with
    | none => exact root?_inj (hroot.trans hroot'.symm)
    | some root' =>
      rw [hroot] at h
      rw [hroot'] at h'
      exact absurd (hpoint h') h
  | some root =>
    cases hroot' : o'.root? with
    | none =>
      rw [hroot] at h
      rw [hroot'] at h'
      exact absurd (hpoint h) h'
    | some root' =>
      rw [hroot] at h
      rw [hroot'] at h'
      have hsame := (takeWhile_of_isBelow h (no_point_of_root? hroot)).symm.trans
        (takeWhile_of_isBelow h' (no_point_of_root? hroot'))
      exact root?_inj (by rw [hroot, hroot', String.toList_inj.mp hsame])

instance (o : Origin) (name : String) : Decidable (o.Owns name) := by
  unfold Owns
  split <;> infer_instance

def owner? (name : String) : Option Origin := all.find? fun o => o.Owns name

theorem owner?_eq_some_iff {o : Origin} {name : String} : owner? name = some o ↔ o.Owns name := by
  constructor
  · intro h
    simpa using List.find?_some h
  · intro h
    cases hfound : owner? name with
    | none => exact absurd h (by simpa using List.find?_eq_none.mp hfound o (mem_all o))
    | some o' => rw [owner_unique h (by simpa using List.find?_some hfound)]

end Origin

-- ---------------------------------------------------------------------------
-- What each source gives
-- ---------------------------------------------------------------------------

namespace Sources

theorem names_ofProject (p : Project) : (ofProject p).map Prod.fst = Dict.names p.entries := by
  simp [ofProject, Dict.names]

variable {s : Sources} {project : Option Project} {o : Origin} {e : String × VariableInfo}

/-- What a source gives; a source that is absent gives nothing. -/
def emitted (s : Sources) (project : Option Project) : Origin → List (String × VariableInfo)
  | .chart => layer s.chart Chart.provided
  | .bot => layer s.bot Bot.provided
  | .strategy => layer s.strategy Strategy.provided
  | .trade => layer s.trade OpenTrade.provided
  | .project => layer project ofProject
  | .indicators => layer s.indicators (supplied "indicators" "Indicator value supplied by the caller")
  | .regime => layer s.regime (supplied "regime" "Regime value supplied by the caller")

/-- The dictionaries of the sources are in order, and those of the caller are unambiguous. -/
structure WellFormed (s : Sources) : Prop where
  parameters : ∀ strategy ∈ s.strategy, Dict.Ordered strategy.parameters
  indicators : ∀ d ∈ s.indicators, Dict.Ordered d ∧ Unambiguous "indicators" d
  regime : ∀ d ∈ s.regime, Dict.Ordered d ∧ Unambiguous "regime" d
  overrides : Dict.Ordered s.overrides
  project : ∀ p, s.project = some (.loaded p) → p.PlainNames

theorem mem_layer {α : Type} {source : Option α} {entries : α → List (String × VariableInfo)} :
    e ∈ layer source entries ↔ ∃ a ∈ source, e ∈ entries a := by
  cases source <;> simp [layer]

theorem nodup_layer {α : Type} {source : Option α} {entries : α → List (String × VariableInfo)}
    (h : ∀ a ∈ source, ((entries a).map Prod.fst).Nodup) : ((layer source entries).map Prod.fst).Nodup := by
  cases source with
  | none => exact List.nodup_nil
  | some a => exact h a rfl

theorem owns_of_mem_supplied {root description : String} {d : Dict Value}
    (h : e ∈ supplied root description d) : IsBelow root e.1 := by
  obtain ⟨entry, -, rfl⟩ := List.mem_map.mp h
  exact isBelow_below root entry.1

/-- A source gives only names that are its own. -/
theorem owns_of_mem_emitted (hproject : ∀ p ∈ project, p.PlainNames) (h : e ∈ s.emitted project o) :
    o.Owns e.1 := by
  cases o <;> obtain ⟨source, hsource, he⟩ := mem_layer.mp h
  case chart | bot | trade => exact Field.isBelow_of_mem_provide he
  case strategy => exact Strategy.isBelow_of_mem_provided he
  case indicators | regime => exact owns_of_mem_supplied he
  case project =>
    obtain ⟨entry, hentry, rfl⟩ := List.mem_map.mp he
    exact Project.no_point_of_checkName ((hproject source hsource).plain entry hentry)

theorem nodup_emitted (hs : s.WellFormed) (hproject : ∀ p ∈ project, p.PlainNames) (o : Origin) :
    ((s.emitted project o).map Prod.fst).Nodup := by
  cases o <;> refine nodup_layer fun source hsource => ?_
  case chart | bot | trade => exact Field.nodup_provide (by decide)
  case strategy => exact Strategy.nodup_provided (hs.parameters source hsource)
  case project =>
    rw [names_ofProject]
    exact (hproject source hsource).ordered.nodup_names
  case indicators =>
    obtain ⟨hordered, hkeys⟩ := hs.indicators source hsource
    exact nodup_supplied _ hordered hkeys
  case regime =>
    obtain ⟨hordered, hkeys⟩ := hs.regime source hsource
    exact nodup_supplied _ hordered hkeys

end Sources

end TradingRules
