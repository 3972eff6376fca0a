import TradingRules.Project.Document
import TradingRules.Proofs.Dict
import TradingRules.Proofs.Double.Nearest
import TradingRules.Proofs.Outcome

/-!
# What a project holds

A project is begun empty or read from a text, and then edited; an edit that is refused changes nothing.
Every variable of such a project has a plain name and a value that its type takes as it is
(`Reached.sound`). The items of a list are checked, but those of a list in a list are not: there, and
only there, nulls and maps are held (`reached_plain_iff`).
-/

namespace TradingRules.Project

-- ---------------------------------------------------------------------------
-- Coercion
-- ---------------------------------------------------------------------------

section
variable {name : String} {type : VarType} {v w : Value}

/-- A variable of the type takes the value as it is. -/
structure Settled (type : VarType) (v : Value) : Prop where
  typed : v.varType? = some type
  finite : isFinite v = true
  elements : ∀ items, v = .list items → ∀ item ∈ items, isElement item = true

theorem settled_of_coerce (h : coerce name type v = .ok w) : Settled type w := by
  unfold coerce at h
  split at h
  · cases h
  rename_i hfits
  split at h
  · cases h
  rename_i hfinite
  have hfits : v.fits type = true := by simpa using hfits
  have hfinite : isFinite v = true := by simpa using hfinite
  split at h
  · cases h
    exact ⟨rfl, Double.isFinite_ofInt64 _, nofun⟩
  · rename_i items
    split at h
    · cases h
    · rename_i hnone
      cases h
      refine ⟨rfl, hfinite, ?_⟩
      rintro _ ⟨⟩ item hitem
      simpa using List.find?_eq_none.mp hnone item hitem
  · rename_i hint hlist
    cases h
    have htyped : v.varType? = some type := by
      unfold Value.fits at hfits
      split at hfits
      · exact (hint _ rfl rfl).elim
      · simpa using hfits
    refine ⟨htyped, hfinite, ?_⟩
    rintro items rfl
    cases htyped
    exact (hlist _ rfl rfl).elim

theorem coerce_of_settled (h : Settled type v) (name : String) : coerce name type v = .ok v := by
  have hfits : v.fits type = true := by
    unfold Value.fits
    split
    · rfl
    · simp [h.typed]
  simp only [coerce, hfits, h.finite, Bool.not_true, Bool.false_eq_true, ↓reduceIte]
  split
  · cases h.typed
  · rename_i items
    have hnone : items.find? (fun v => !isElement v) = none :=
      List.find?_eq_none.mpr fun item hitem => by simp [h.elements items rfl item hitem]
    rw [hnone]
  · rfl

end

-- ---------------------------------------------------------------------------
-- Edits
-- ---------------------------------------------------------------------------

inductive Edit where
  | add (v : ProjectVariable)
  | update (name : String) (value : Value)
  | remove (name : String)
  | clear

def edited (p : Project) : Edit → Except Refusal Unit × Project
  | .add v => p.add v
  | .update name value => p.update name value
  | .remove name => ((p.remove name).1.map fun _ => (), (p.remove name).2)
  | .clear => (.ok (), p.clear)

def after (p : Project) (edit : Edit) : Project := (p.edited edit).2

def run (p : Project) (edits : List Edit) : Project := edits.foldl after p

/-- A project that edits lead to from a new one or from one that a text describes. -/
def Reached (p : Project) : Prop :=
  ∃ (start : Project) (edits : List Edit),
    ((∃ name, start = empty name) ∨ ∃ text, ofText text = .ok start) ∧ start.run edits = p

section
variable {p q : Project} {v : ProjectVariable} {name : String} {value : Value} {edit : Edit}
  {r : Refusal}

theorem add_eq_ok (h : p.add v = (.ok (), q)) : checkName v.name = .ok () ∧ p.find? v.name = none ∧
    ∃ w, coerce v.name v.type v.value = .ok w ∧
      q = { p with entries := Dict.insert v.name { v with value := w } p.entries } := by
  unfold add at h
  split at h
  · cases h
  rename_i hplain
  split at h
  · cases h
  rename_i hfree
  split at h
  · cases h
  rename_i w hw
  cases h
  exact ⟨hplain, by simpa [contains, Dict.contains, find?] using hfree, w, hw, rfl⟩

theorem update_eq_ok (h : p.update name value = (.ok (), q)) : ∃ v w, p.find? name = some v ∧
    v.readonly = false ∧ coerce name v.type value = .ok w ∧
      q = { p with entries := Dict.insert name { v with value := w } p.entries } := by
  unfold update at h
  split at h
  · cases h
  rename_i v hfind
  split at h
  · cases h
  rename_i hfree
  split at h
  · cases h
  rename_i w hw
  cases h
  exact ⟨v, w, hfind, by simpa using hfree, hw, rfl⟩

theorem remove_eq_ok (h : p.remove name = (.ok v, q)) : p.find? name = some v ∧
    v.readonly = false ∧ q = { p with entries := Dict.erase name p.entries } := by
  unfold remove at h
  split at h
  · cases h
  rename_i w hfind
  split at h
  · cases h
  rename_i hfree
  cases h
  exact ⟨hfind, by simpa using hfree, rfl⟩

theorem add_of_error (h : (p.add v).1 = .error r) : (p.add v).2 = p := by
  unfold add at h ⊢
  split
  · rfl
  split
  · rfl
  split
  · rfl
  · simp_all

theorem update_of_error (h : (p.update name value).1 = .error r) : (p.update name value).2 = p := by
  unfold update at h ⊢
  split
  · rfl
  split
  · rfl
  split
  · rfl
  · simp_all

theorem remove_of_error (h : (p.remove name).1 = .error r) : (p.remove name).2 = p := by
  unfold remove at h ⊢
  split
  · rfl
  split
  · rfl
  · simp_all

theorem after_of_refused (h : (p.edited edit).1 = .error r) : p.after edit = p := by
  cases edit with
  | add v => exact add_of_error h
  | update name value => exact update_of_error h
  | remove name => exact remove_of_error (Except.map_eq_error.mp h)
  | clear => cases h

theorem edited_remove_eq_ok (h : p.edited (.remove name) = (.ok (), q)) :
    ∃ v, p.remove name = (.ok v, q) := by
  obtain ⟨hanswer, rfl⟩ := Prod.mk.inj h
  obtain ⟨v, hv, -⟩ := Except.map_eq_ok.mp hanswer
  exact ⟨v, Prod.ext hv rfl⟩

theorem accepted_eq_ok {α : Type} {change : Except Refusal α × Project} :
    accepted change = .ok q ↔ ∃ a, change = (.ok a, q) := by
  obtain ⟨answer, left⟩ := change
  cases answer <;> simp [accepted, Except.map]

theorem holds_after {P : Project → Prop} (hrefused : P p)
    (htaken : ∀ q, p.edited edit = (.ok (), q) → P q) : P (p.after edit) := by
  cases hanswer : (p.edited edit).1 with
  | ok => exact htaken _ (Prod.ext hanswer rfl)
  | error r => rwa [after_of_refused hanswer]

end

/-- The variables are in the order of their names, and each could be added as it is. -/
structure Sound (p : Project) : Prop where
  version : (Text.trim p.version.toList).isEmpty = false
  ordered : Dict.Ordered p.entries
  named : ∀ e ∈ p.entries, e.2.name = e.1
  plain : ∀ e ∈ p.entries, checkName e.1 = .ok ()
  settled : ∀ e ∈ p.entries, Settled e.2.type e.2.value

namespace Sound

variable {p q : Project} {v : ProjectVariable} {name : String} {value : Value}

theorem of_no_entries (h : (Text.trim p.version.toList).isEmpty = false) (hp : p.entries = []) :
    p.Sound := by
  refine ⟨h, ?_, ?_, ?_, ?_⟩ <;> rw [hp]
  · exact List.Pairwise.nil
  · nofun
  · nofun
  · nofun

theorem insert (h : p.Sound) (hname : v.name = name) (hplain : checkName name = .ok ())
    (hvalue : Settled v.type v.value) :
    Sound { p with entries := Dict.insert name v p.entries } := by
  refine ⟨h.version, h.ordered.insert, ?_, ?_, ?_⟩ <;> intro e he <;>
    rcases Dict.mem_insert he with rfl | he
  · exact hname
  · exact h.named e he
  · exact hplain
  · exact h.plain e he
  · exact hvalue
  · exact h.settled e he

theorem erase (h : p.Sound) (name : String) :
    Sound { p with entries := Dict.erase name p.entries } :=
  ⟨h.version, h.ordered.erase, fun e he => h.named e (Dict.mem_erase he),
    fun e he => h.plain e (Dict.mem_erase he), fun e he => h.settled e (Dict.mem_erase he)⟩

theorem add (h : p.Sound) (hadd : p.add v = (.ok (), q)) : q.Sound := by
  obtain ⟨hplain, -, value, hvalue, rfl⟩ := add_eq_ok hadd
  exact h.insert rfl hplain (settled_of_coerce hvalue)

theorem update (h : p.Sound) (hupdate : p.update name value = (.ok (), q)) : q.Sound := by
  obtain ⟨v, value, hfound, -, hvalue, rfl⟩ := update_eq_ok hupdate
  have hmem := Dict.mem_of_find? hfound
  exact h.insert (h.named _ hmem) (h.plain _ hmem) (settled_of_coerce hvalue)

theorem remove (h : p.Sound) (hremove : p.remove name = (.ok v, q)) : q.Sound := by
  obtain ⟨-, -, rfl⟩ := remove_eq_ok hremove
  exact h.erase name

theorem after (h : p.Sound) (edit : Edit) : (p.after edit).Sound := by
  refine holds_after h fun q hq => ?_
  cases edit with
  | add v => exact h.add hq
  | update name value => exact h.update hq
  | remove name =>
    obtain ⟨v, hremove⟩ := edited_remove_eq_ok hq
    exact h.remove hremove
  | clear =>
    cases hq
    exact .of_no_entries h.version rfl

theorem run (h : p.Sound) (edits : List Edit) : (p.run edits).Sound := by
  induction edits generalizing p with
  | nil => exact h
  | cons edit rest ih => exact ih (h.after edit)

theorem addDefinition {d : Definition} (h : p.Sound)
    (hadd : p.addDefinition (name, d) = .ok q) : q.Sound := by
  simp only [Project.addDefinition] at hadd
  split at hadd
  · cases hadd
  · obtain ⟨v, -, hadd⟩ := Except.bind_eq_ok.mp hadd
    obtain ⟨_, hadd⟩ := accepted_eq_ok.mp hadd
    exact h.add hadd

theorem addDefinitions {definitions : Dict Definition} (h : p.Sound)
    (hadd : definitions.foldlM Project.addDefinition p = .ok q) : q.Sound := by
  induction definitions generalizing p with
  | nil =>
    cases Except.pure_eq_ok.mp hadd
    exact h
  | cons first rest ih =>
    obtain ⟨next, hfirst, hrest⟩ := Except.bind_eq_ok.mp hadd
    exact ih (h.addDefinition hfirst) hrest

theorem ofText {text : String} (h : ofText text = .ok p) : p.Sound := by
  unfold Project.ofText at h
  split at h
  · cases h
  split at h
  · cases h
  rename_i hversion
  exact (of_no_entries (by simpa using hversion) rfl).addDefinitions h

end Sound

theorem Reached.sound {p : Project} (h : p.Reached) : p.Sound := by
  obtain ⟨start, edits, ⟨name, rfl⟩ | ⟨text, htext⟩, rfl⟩ := h
  · have hversion : (Text.trim currentVersion.toList).isEmpty = false := by decide
    exact (Sound.of_no_entries hversion rfl).run edits
  · exact (Sound.ofText htext).run edits

-- ---------------------------------------------------------------------------
-- Nulls and maps
-- ---------------------------------------------------------------------------

mutual

/-- Neither a null nor a map, and none inside, at any depth of lists. -/
def isPlain : Value → Bool
  | .null | .map _ => false
  | .list items => arePlain items
  | _ => true

def arePlain : List Value → Bool
  | [] => true
  | v :: rest => isPlain v && arePlain rest

end

/-- No null and no map inside an item. -/
def isPlainInside : Value → Bool
  | .list items => items.all fun
    | .list inner => arePlain inner
    | _ => true
  | _ => true

theorem arePlain_iff {items : List Value} :
    arePlain items = true ↔ ∀ item ∈ items, isPlain item = true := by
  induction items with
  | nil => simp [arePlain]
  | cons first rest ih => simp [arePlain, ih]

theorem isPlain_of_isElement {v : Value} (h : isElement v = true) :
    isPlain v = match v with
      | .list inner => arePlain inner
      | _ => true := by
  cases v with
  | null => cases h
  | map fields => cases h
  | _ => rfl

theorem Settled.isElement {type : VarType} {v : Value} (h : Settled type v) : isElement v = true := by
  cases v with
  | null => cases h.typed
  | map fields => cases h.typed
  | _ => rfl

theorem Settled.isPlain_iff {type : VarType} {v : Value} (h : Settled type v) :
    isPlain v = true ↔ isPlainInside v = true := by
  rw [isPlain_of_isElement h.isElement]
  cases v with
  | list items =>
    rw [arePlain_iff, isPlainInside, List.all_eq_true]
    exact forall₂_congr fun item hitem => by
      rw [isPlain_of_isElement (h.elements items rfl item hitem)]
      cases item <;> rfl
  | _ => rfl

/-- No value of a project is a null or a map, none has such an item, and no float is infinite or not a
number, at any depth of lists. Nulls and maps are kept out altogether exactly if they are kept out of the
lists that are items of lists. -/
theorem reached_plain_iff {p : Project} (h : p.Reached) :
    (∀ v ∈ Dict.values p.entries, isElement v.value = true ∧ isFinite v.value = true ∧
      ∀ items, v.value = .list items → ∀ item ∈ items, isElement item = true) ∧
    ((∀ v ∈ Dict.values p.entries, isPlain v.value = true) ↔
      ∀ v ∈ Dict.values p.entries, isPlainInside v.value = true) := by
  have hsettled : ∀ v ∈ Dict.values p.entries, Settled v.type v.value := by
    intro v hv
    obtain ⟨e, he, rfl⟩ := List.mem_map.mp hv
    exact h.sound.settled e he
  constructor
  · intro v hv
    exact ⟨(hsettled v hv).isElement, (hsettled v hv).finite, (hsettled v hv).elements⟩
  · exact forall₂_congr fun v hv => (hsettled v hv).isPlain_iff

def holding (v : Value) : Project :=
  (empty "demo").run [.add ⟨"levels", .list, v, "", ProjectVariable.defaultCategory, none, [], false⟩]

theorem holding_reached (v : Value) : (holding v).Reached := ⟨_, _, .inl ⟨_, rfl⟩, rfl⟩

theorem holding_levels_plain : (holding (.list [.int 1, .list [.str "a"]])).Reached ∧
    (holding (.list [.int 1, .list [.str "a"]])).size = 1 ∧
    ∀ v ∈ Dict.values (holding (.list [.int 1, .list [.str "a"]])).entries, isPlain v.value = true := by
  have hp := holding_reached (.list [.int 1, .list [.str "a"]])
  refine ⟨hp, by decide +kernel, (reached_plain_iff hp).2.mpr ?_⟩
  exact List.all_eq_true.mp (by decide +kernel)

/-- A null in a list that is an item is taken. -/
theorem holding_inner_null_not_plain : (holding (.list [.list [.null]])).Reached ∧
    ∃ v ∈ Dict.values (holding (.list [.list [.null]])).entries, isPlain v.value = false := by
  refine ⟨holding_reached _, ?_⟩
  have hany : (Dict.values (holding (.list [.list [.null]])).entries).any
      (fun v => !isPlain v.value) = true := by decide +kernel
  obtain ⟨v, hv, hplain⟩ := List.any_eq_true.mp hany
  exact ⟨v, hv, by simpa using hplain⟩

end TradingRules.Project
