import TradingRules.Proofs.Project.Coherence
import TradingRules.Proofs.Source.Origin

/-!
# The layers of a context

A context maps a name to the value that it is overridden with or, if it is not, to the value that the one
source gives whose names it is among (`find?_catalog`). The order of the layers does not matter but for
the overrides, as no two sources give the same name.
-/

namespace TradingRules

-- ---------------------------------------------------------------------------
-- Catalogs
-- ---------------------------------------------------------------------------

namespace Sources

variable {s : Sources} {project : Option Project} {o o' : Origin} {name : String} {info : VariableInfo}
  {e e' : String × VariableInfo}

theorem catalog_eq (s : Sources) (project : Option Project) : s.catalog project =
    Dict.ofList (Origin.all.flatMap (s.emitted project) ++ overriding s.overrides) := by
  simp [catalog, Origin.all, emitted]

theorem mem_flatMap_emitted :
    e ∈ Origin.all.flatMap (s.emitted project) ↔ ∃ o, e ∈ s.emitted project o := by
  simp [Origin.mem_all]

theorem origin_unique (hproject : ∀ p ∈ project, p.PlainNames) (h : e ∈ s.emitted project o)
    (h' : e' ∈ s.emitted project o') (hname : e.1 = e'.1) : o = o' :=
  Origin.owner_unique (owns_of_mem_emitted hproject h) (hname ▸ owns_of_mem_emitted hproject h')

theorem nodup_flatMap_emitted (hs : s.WellFormed) (hproject : ∀ p ∈ project, p.PlainNames) :
    ((Origin.all.flatMap (s.emitted project)).map Prod.fst).Nodup := by
  rw [List.map_flatMap, List.nodup_flatMap]
  refine ⟨fun o _ => nodup_emitted hs hproject o, ?_⟩
  have hdistinct : Origin.all.Pairwise (· ≠ ·) := by decide
  refine hdistinct.imp fun {o o'} hne => List.disjoint_left.mpr fun name hname hname' => ?_
  obtain ⟨e, he, rfl⟩ := List.mem_map.mp hname
  obtain ⟨e', he', hsame⟩ := List.mem_map.mp hname'
  exact hne (origin_unique hproject he he' hsame.symm)

theorem find?_overriding (hordered : Dict.Ordered s.overrides) (name : String) :
    Dict.find? name (Dict.ofList (overriding s.overrides)) = (Dict.find? name s.overrides).map fun v =>
      ⟨"override", v.typeName, "Runtime override", .none, v⟩ := by
  have hmap : overriding s.overrides = Dict.mapValues
      (fun v => ⟨"override", v.typeName, "Runtime override", .none, v⟩) s.overrides := rfl
  rw [hmap, Dict.ofList_of_ordered (hordered.mapValues _), Dict.find?_mapValues]

theorem find?_catalog (hs : s.WellFormed) (hproject : ∀ p ∈ project, p.PlainNames)
    (hname : Dict.find? name s.overrides = .none) :
    Dict.find? name (s.catalog project) = some info ↔ ∃ o, (name, info) ∈ s.emitted project o := by
  rw [catalog_eq, Dict.find?_ofList_append, find?_overriding hs.overrides, hname, Option.map_none,
    Option.none_or, Dict.find?_ofList_of_nodup (nodup_flatMap_emitted hs hproject), mem_flatMap_emitted]

theorem find?_catalog_of_overridden (hs : s.WellFormed) {v : Value}
    (hname : Dict.find? name s.overrides = some v) : Dict.find? name (s.catalog project) =
      some ⟨"override", v.typeName, "Runtime override", .none, v⟩ := by
  rw [catalog_eq, Dict.find?_ofList_append, find?_overriding hs.overrides, hname]
  rfl

/-- What a source gives under a name once is in the catalog, unless the name is overridden: no other source
gives it. -/
theorem find?_catalog_of_emitted (hproject : ∀ p ∈ project, p.PlainNames)
    (honce : ((s.emitted project o).map Prod.fst).Nodup) (hgiven : (name, info) ∈ s.emitted project o)
    (hname : Dict.find? name s.overrides = .none) : Dict.find? name (s.catalog project) = some info := by
  rw [catalog_eq]
  refine Dict.find?_ofList_of_agree (List.mem_append_left _ (mem_flatMap_emitted.mpr ⟨_, hgiven⟩)) ?_
  intro info' hmem
  rcases List.mem_append.mp hmem with hsource | hoverride
  · obtain ⟨o', ho'⟩ := mem_flatMap_emitted.mp hsource
    obtain rfl := origin_unique hproject ho' hgiven rfl
    exact (Prod.mk.inj (List.inj_on_of_nodup_map honce ho' hgiven rfl)).2
  · obtain ⟨⟨_, w⟩, hw, heq⟩ := List.mem_map.mp hoverride
    cases heq
    obtain ⟨u, hu⟩ := Dict.find?_of_mem_names (List.mem_map_of_mem (f := Prod.fst) hw)
    rw [hname] at hu
    cases hu

/-- A variable of the project that is not overridden is in the catalog, whatever other sources give: their
names have a point. -/
theorem find?_catalog_of_project {p : Project} {v : ProjectVariable} (hp : p.PlainNames)
    (hfind : p.find? name = some v) (hname : Dict.find? name s.overrides = .none) :
    Dict.find? name (s.catalog (some p)) =
      some ⟨"project", v.type.name, v.description, v.unit, v.value⟩ := by
  have hproject : ∀ q ∈ some p, q.PlainNames := by
    rintro _ ⟨⟩
    exact hp
  have honce : ((s.emitted (some p) .project).map Prod.fst).Nodup := by
    have hnames : (s.emitted (some p) .project).map Prod.fst = Dict.names p.entries := names_ofProject p
    rw [hnames]
    exact hp.ordered.nodup_names
  exact find?_catalog_of_emitted hproject honce (List.mem_map_of_mem (Dict.mem_of_find? hfind)) hname

def SameAt (s s' : Sources) : Origin → Prop
  | .chart => s.chart = s'.chart
  | .bot => s.bot = s'.bot
  | .strategy => s.strategy = s'.strategy
  | .trade => s.trade = s'.trade
  | .project => s.project = s'.project
  | .indicators => s.indicators = s'.indicators
  | .regime => s.regime = s'.regime

def Absent (s : Sources) (o : Origin) : Prop := s.SameAt (Sources.none s.clock) o

theorem emitted_of_absent (h : s.Absent o) (hproject : s.project = .none → project = .none) :
    s.emitted project o = [] := by
  cases o
  case project => rw [hproject h]; rfl
  all_goals simp_all [Absent, SameAt, Sources.none, emitted, layer]

theorem emitted_of_sameAt {s' : Sources} {project' : Option Project} (h : s.SameAt s' o)
    (hproject : o = .project → project = project') : s.emitted project o = s'.emitted project' o := by
  cases o
  case project => rw [hproject rfl]; rfl
  all_goals simp_all [SameAt, emitted]

end Sources

-- ---------------------------------------------------------------------------
-- Projects from a store
-- ---------------------------------------------------------------------------

namespace Project.Store

variable {s : Store} {disk : Disk} {path : String} {p : Project}

def AllPlain (s : Store) : Prop := ∀ e ∈ s.store.entries, e.2.1.project.PlainNames

theorem AllPlain.load (h : s.AllPlain) (hload : (s.load disk path).1 = .ok p) : p.PlainNames := by
  have hloaded := loaded s disk path
  rw [hload] at hloaded
  generalize (s.load disk path).2 = next at hloaded
  cases hloaded with
  | remembered hres hreq =>
    rw [Counted.request_fst, Option.filter_eq_some_iff] at hreq
    obtain ⟨tick, hmem⟩ := Recency.mem_of_peek? hreq.1
    exact h _ hmem
  | read hres hfile htext => exact (Sound.ofText htext).plainNames

theorem Scene.allPlain_after {s : Scene} {e : Event} (h : s.store.AllPlain)
    (hsaved : ∀ path p now, e = .save path p now → p.PlainNames) : (s.after e).store.AllPlain := by
  cases e with
  | load path =>
    exact forall_entries_load (P := fun _ kept => kept.project.PlainNames) h
      fun _ _ _ _ htext => (Sound.ofText htext).plainNames
  | save path p now =>
    cases htarget : target s.disk path with
    | error fault =>
      rwa [after_save_of_target_error htarget]
    | ok place =>
      rw [after_save_of_target htarget]
      exact forall_entries_keep (P := fun _ kept => kept.project.PlainNames) h (hsaved path p now rfl)
  | invalidate path =>
    exact forall_entries_invalidate (P := fun _ kept => kept.project.PlainNames) h s.disk path
  | clear => exact List.forall_mem_nil _
  | validate | write | delete => exact h

/-- If the projects that are saved have plain names, so have all that a store ever remembers. -/
theorem Scene.allPlain_run {s : Scene} {events : List Event} (h : s.store.AllPlain)
    (hsaved : ∀ path p now, .save path p now ∈ events → p.PlainNames) :
    (s.run events).store.AllPlain := by
  induction events generalizing s with
  | nil => exact h
  | cons e rest ih =>
    have hfirst : ∀ path p now, e = .save path p now → p.PlainNames := by
      rintro path p now rfl
      exact hsaved path p now List.mem_cons_self
    exact ih (allPlain_after h hfirst) fun path p now hp =>
      hsaved path p now (List.mem_cons_of_mem _ hp)

end Project.Store

-- ---------------------------------------------------------------------------
-- Builds
-- ---------------------------------------------------------------------------

namespace Assembly

open Project.Store (Scene Event)

variable {a : Assembly} {disk : Disk} {s : Sources} {project : Option Project}

theorem build_fst (a : Assembly) (disk : Disk) (s : Sources) :
    (a.build disk s).1 = (a.project disk s.project).1.map s.catalog := by
  simp only [build, Assembly.project]
  split <;> try rfl
  split <;> try rfl
  split <;> rfl

theorem build_eq_ok {c : Catalog} (h : (a.build disk s).1 = .ok c) :
    ∃ project, (a.project disk s.project).1 = .ok project ∧ s.catalog project = c := by
  rw [build_fst] at h
  exact Except.map_eq_ok.mp h

theorem plainNames_of_project (hstore : ∀ store ∈ a.store, store.AllPlain) (hs : s.WellFormed)
    (h : (a.project disk s.project).1 = .ok project) : ∀ p ∈ project, p.PlainNames := by
  rintro p rfl
  simp only [Assembly.project] at h
  split at h
  · cases h
  · rename_i hloaded
    cases h
    exact hs.project p hloaded
  · split at h
    · cases h
    · rename_i store heq
      split at h
      · rename_i hload
        cases h
        exact (hstore store heq).load hload
      · cases h
      · cases h

/-- A build fails only over a file that the store finds to be wrong. -/
theorem build_eq_error_iff {r : Project.Refusal} : (a.build disk s).1 = .error r ↔
    ∃ path store, s.project = some (.file path) ∧ a.store = some store ∧
      (store.load disk path).1 = .error (.invalid r) := by
  rw [build_fst, Except.map_eq_error]
  simp only [Assembly.project]
  split
  · rename_i hnone
    simp [hnone]
  · rename_i hloaded
    simp [hloaded]
  · rename_i path hpath
    split
    · rename_i hstore
      simp [hstore]
    · rename_i store hstore
      simp only [hpath, hstore, Option.some.injEq, ProjectSource.file.injEq, exists_and_left,
        exists_eq_left']
      split <;> simp_all

theorem find?_context {c : Catalog} {name : String} {v : Value} (clock : Instant) :
    (c.context clock).find? name = some v ↔ ∃ info, Dict.find? name c = some info ∧ info.value = v := by
  rw [Context.find?, Catalog.context, Dict.find?_mapValues, Option.map_eq_some_iff]

theorem find?_context_catalog {name : String} {v : Value} (hs : s.WellFormed)
    (hproject : ∀ p ∈ project, p.PlainNames) :
    (Catalog.context (s.catalog project) s.clock).find? name = some v ↔
      Dict.find? name s.overrides = some v ∨ Dict.find? name s.overrides = none ∧
        ∃ o info, Origin.owner? name = some o ∧ (name, info) ∈ s.emitted project o ∧
          info.value = v := by
  rw [find?_context]
  cases hname : Dict.find? name s.overrides with
  | some w =>
    rw [Sources.find?_catalog_of_overridden hs hname]
    simp
  | none =>
    simp only [Sources.find?_catalog hs hproject hname, reduceCtorEq, false_or, true_and]
    constructor
    · rintro ⟨info, ⟨o, hmem⟩, hv⟩
      have howner := Origin.owner?_eq_some_iff.mpr (Sources.owns_of_mem_emitted hproject hmem)
      exact ⟨o, info, howner, hmem, hv⟩
    · rintro ⟨o, info, -, hmem, hv⟩
      exact ⟨info, ⟨o, hmem⟩, hv⟩

/-- Names of other origins keep their entry when one source is changed. -/
theorem find?_catalog_of_sameAt {s' : Sources} {project' : Option Project} {o : Origin} {name : String}
    (hs : s.WellFormed) (hs' : s'.WellFormed) (hproject : ∀ p ∈ project, p.PlainNames)
    (hproject' : ∀ p ∈ project', p.PlainNames) (hoverrides : s'.overrides = s.overrides)
    (hsame : ∀ o' ≠ o, s'.SameAt s o') (hloaded : o ≠ .project → project' = project)
    (hother : Origin.owner? name ≠ some o) :
    Dict.find? name (s'.catalog project') = Dict.find? name (s.catalog project) := by
  cases hname : Dict.find? name s.overrides with
  | some v =>
    rw [Sources.find?_catalog_of_overridden hs hname,
      Sources.find?_catalog_of_overridden hs' (hoverrides ▸ hname)]
  | none =>
    have hsources : ∀ o', o' ≠ o → s'.emitted project' o' = s.emitted project o' :=
      fun o' hne => Sources.emitted_of_sameAt (hsame o' hne) fun heq => hloaded (heq ▸ hne.symm)
    ext info
    rw [Sources.find?_catalog hs hproject hname,
      Sources.find?_catalog hs' hproject' (hoverrides ▸ hname)]
    -- what gives the name owns it, so that it is not the source that was changed
    have hgives : ∀ {s : Sources} {project : Option Project} (o' : Origin),
        (∀ p ∈ project, p.PlainNames) → (name, info) ∈ s.emitted project o' → o' ≠ o := by
      rintro s project o' hproject hmem rfl
      exact hother (Origin.owner?_eq_some_iff.mpr (Sources.owns_of_mem_emitted hproject hmem))
    constructor
    · rintro ⟨o', hmem⟩
      exact ⟨o', hsources o' (hgives o' hproject' hmem) ▸ hmem⟩
    · rintro ⟨o', hmem⟩
      exact ⟨o', (hsources o' (hgives o' hproject hmem)).symm ▸ hmem⟩

/-- In every state that a history leads to, in which the projects that are saved have plain names, a build
from any sources that fails does so over the file of the project, which the store finds to be wrong.
Otherwise a name has the value it is overridden with or, if it is not, the value that comes from its
origin. So a source that is absent gives no name, no two sources give one name, the metadata tell the
values of the context, and a change of one source is a change of its own names only. -/
theorem build_layers (capacity : Nat) (disk : Disk) (events : List Event)
    (hsaved : ∀ path p now, .save path p now ∈ events → p.PlainNames) {a : Assembly}
    (hstore : ∀ store ∈ a.store, store = ((Scene.initial capacity disk).run events).store)
    {s : Sources} (hs : s.WellFormed) :
    let disk := ((Scene.initial capacity disk).run events).disk
    (∀ r, (a.build disk s).1 = .error r ↔ ∃ path store, s.project = some (.file path) ∧
      a.store = some store ∧ (store.load disk path).1 = .error (.invalid r)) ∧
    ∀ c, (a.build disk s).1 = .ok c →
      ∃ project, (a.project disk s.project).1 = .ok project ∧
        (∀ name v, (Catalog.context c s.clock).find? name = some v ↔
          Dict.find? name s.overrides = some v ∨ Dict.find? name s.overrides = none ∧
            ∃ o info, Origin.owner? name = some o ∧ (name, info) ∈ s.emitted project o ∧
              info.value = v) ∧
        (∀ name v, (Catalog.context c s.clock).find? name = some v ↔
          ∃ info, Dict.find? name c = some info ∧ info.value = v) ∧
        (∀ o, s.Absent o → s.emitted project o = []) ∧
        (∀ o o' e e', e ∈ s.emitted project o → e' ∈ s.emitted project o' → e.1 = e'.1 →
          o = o' ∧ e = e') ∧
        ∀ o s' c', s'.WellFormed → s'.overrides = s.overrides → (∀ o' ≠ o, s'.SameAt s o') →
          (a.build disk s').1 = .ok c' → ∀ name, Origin.owner? name ≠ some o →
            Dict.find? name c' = Dict.find? name c := by
  intro disk'
  have hplain : ∀ store ∈ a.store, store.AllPlain := by
    intro store hmem
    rw [hstore store hmem]
    exact Scene.allPlain_run nofun hsaved
  refine ⟨fun r => build_eq_error_iff, fun c hbuild => ?_⟩
  obtain ⟨project, hloaded, rfl⟩ := build_eq_ok hbuild
  have hproject := plainNames_of_project hplain hs hloaded
  refine ⟨project, hloaded, fun name v => find?_context_catalog hs hproject,
    fun name v => find?_context s.clock, ?_, ?_, ?_⟩
  · refine fun o habsent => Sources.emitted_of_absent habsent fun hnone => ?_
    rw [hnone] at hloaded
    cases hloaded
    rfl
  · intro o o' e e' he he' hname
    obtain rfl := Sources.origin_unique hproject he he' hname
    exact ⟨rfl, List.inj_on_of_nodup_map (Sources.nodup_emitted hs hproject o) he he' hname⟩
  · intro o s' c' hs' hoverrides hsame hbuild' name hother
    obtain ⟨project', hloaded', rfl⟩ := build_eq_ok hbuild'
    refine find?_catalog_of_sameAt hs hs' hproject (plainNames_of_project hplain hs' hloaded')
      hoverrides hsame (fun hne => ?_) hother
    have hsource : s'.project = s.project := hsame .project hne.symm
    rw [hsource, hloaded] at hloaded'
    cases hloaded'
    rfl

def sample : Sources :=
  { Sources.none ⟨0, 0⟩ with
    strategy := some ⟨[], [("floor", .int 20)]⟩
    project := some (.file "a.cel_variables.json")
    indicators := some [("indicators.ema", .int 2), ("rsi14", .int 55)]
    overrides := [("cfg.floor", .int 30)] }

theorem sample_wellFormed : sample.WellFormed where
  parameters := by
    rintro _ ⟨⟩
    exact List.pairwise_singleton _ _
  indicators := by
    rintro _ ⟨⟩
    exact ⟨List.pairwise_pair.mpr (by decide), by decide⟩
  regime := nofun
  overrides := List.pairwise_singleton _ _
  project := nofun

theorem build_layers_sample :
    let a := withStore (Scene.initial 1 Project.Store.emptyFolder).store
    sample.WellFormed ∧ ∃ c, (a.build Project.Store.emptyFolder sample).1 = .ok c ∧
      (c.context sample.clock).find? "cfg.floor" = some (.int 30) ∧
      (c.context sample.clock).find? "indicators.rsi14" = some (.int 55) := by
  intro a
  have hstore : ∀ store ∈ a.store,
      store = ((Scene.initial 1 Project.Store.emptyFolder).run []).store := by
    rintro _ ⟨⟩
    rfl
  have hsaved : ∀ path p now, .save path p now ∈ ([] : List Event) → p.PlainNames := nofun
  have hbuilds : (a.build Project.Store.emptyFolder sample).1.isOk = true := by decide +kernel
  obtain ⟨c, hbuild⟩ := Except.isOk_iff.mp hbuilds
  obtain ⟨project, -, hvalues, -⟩ :=
    (build_layers 1 Project.Store.emptyFolder [] hsaved hstore sample_wellFormed).2 c hbuild
  refine ⟨sample_wellFormed, c, hbuild, (hvalues _ _).mpr (.inl rfl), (hvalues _ _).mpr (.inr ?_)⟩
  have hgiven : ("indicators.rsi14",
      ⟨"indicators", "int", "Indicator value supplied by the caller", none, .int 55⟩) ∈
      sample.emitted project .indicators :=
    List.mem_cons_of_mem _ List.mem_cons_self
  exact ⟨rfl, .indicators, _, by decide, hgiven, rfl⟩

end Assembly

end TradingRules
