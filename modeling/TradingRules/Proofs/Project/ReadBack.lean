import TradingRules.Proofs.Project.Edits
import TradingRules.Proofs.Value.ReadBack

/-!
# Project files read back

The text of a project describes the project (`ofText_text`), if its version is not blank and its values
are storable and not nested too deep to be read. Otherwise nothing is read (`ofText_text_of_blank`,
`ofText_text_of_deep`).
-/

namespace TradingRules.Project

open Json (Writable WritableItems WritableMembers)

variable {v : ProjectVariable} {p q : Project}

def Shallow (v : Value) : Prop := v.toJson.depth + 3 ≤ Json.maxDepth

instance (v : Value) : Decidable (Shallow v) :=
  inferInstanceAs (Decidable (v.toJson.depth + 3 ≤ Json.maxDepth))

-- ---------------------------------------------------------------------------
-- One variable
-- ---------------------------------------------------------------------------

theorem writableItems_strings (names : List String) : WritableItems (names.map Json.str) := by
  induction names with
  | nil => trivial
  | cons name rest ih => exact ⟨trivial, ih⟩

theorem writable_ofVariable (h : v.value.Storable) : Writable (ofVariable v) := by
  have hvalue := Value.writable_toJson v.value h
  have htags := writableItems_strings v.tags
  unfold ofVariable
  cases v.unit <;> cases v.readonly <;>
    exact ⟨trivial, hvalue, trivial, trivial, by simp [WritableMembers, Writable, htags]⟩

def definitionOf (v : ProjectVariable) : Definition :=
  ⟨v.type.name, v.value, v.description, v.category, v.unit, v.tags, v.readonly⟩

theorem asList?_strings (names : List String) :
    Json.asList? Json.asString? (.arr (names.map Json.str)) = some names := by
  simp only [Json.asList?]
  induction names with
  | nil => rfl
  | cons name rest ih => simp [List.mapM_cons, ih, Json.asString?]

theorem value?_of_shallow {v : Value} (h : v.Storable) (hv : Shallow v) : value? v.toJson = some v := by
  have hv : v.toJson.depth + 3 ≤ Json.maxDepth := hv
  simp [value?, Value.readable_toJson, hv, Value.ofJson_toJson v h]

theorem value?_of_deep {v : Value} (hv : ¬Shallow v) : value? v.toJson = none := by
  have hv : ¬v.toJson.depth + 3 ≤ Json.maxDepth := hv
  simp [value?, hv]

theorem definition?_ofVariable (v : ProjectVariable) :
    definition? (ofVariable v) =
      (value? v.value.toJson).map fun value => { definitionOf v with value := value } := by
  have htags := asList?_strings v.tags
  unfold ofVariable definition? definitionOf
  cases v.unit <;> cases v.readonly <;>
    simp [Json.fields?, Json.Fields.required, Json.Fields.withDefault, List.lookup_cons, Json.asString?,
      Json.asBool?, Json.asOption?, htags] <;>
    cases value? v.value.toJson <;> rfl

-- ---------------------------------------------------------------------------
-- The document
-- ---------------------------------------------------------------------------

def Storable (p : Project) : Prop := ∀ v ∈ Dict.values p.entries, v.value.Storable

def AllShallow (p : Project) : Prop := ∀ v ∈ Dict.values p.entries, Shallow v.value

theorem writable_toJson (h : p.Storable) : Writable p.toJson := by
  have hmembers : ∀ entries : Dict ProjectVariable,
      (∀ v ∈ Dict.values entries, v.value.Storable) →
        WritableMembers (Dict.mapValues ofVariable entries) := by
    intro entries hentries
    induction entries with
    | nil => trivial
    | cons entry rest ih =>
      exact ⟨writable_ofVariable (hentries _ List.mem_cons_self),
        ih fun v hv => hentries v (List.mem_cons_of_mem _ hv)⟩
  exact ⟨trivial, trivial, hmembers p.entries h, trivial⟩

def definitions? (entries : Dict ProjectVariable) : Option (List (String × Definition)) :=
  Json.asMembers? definition? (.obj (Dict.mapValues ofVariable entries))

theorem document?_text (h : p.Storable) : document? p.text =
    (definitions? p.entries).map fun definitions => (p.version, p.name, Dict.ofList definitions) := by
  have hjson : Json.ofText? p.text = some p.toJson := Json.ofText?_document (writable_toJson h)
  unfold definitions?
  generalize hread : Json.asMembers? definition? (.obj (Dict.mapValues ofVariable p.entries)) = read
  simp [document?, hjson, toJson, Json.fields?, Json.Fields.required, Json.Fields.withDefault,
    List.lookup_cons, Json.asString?, hread]
  cases read <;> rfl

theorem definitions?_cons (name : String) (v : ProjectVariable) (rest : Dict ProjectVariable) :
    definitions? ((name, v) :: rest) = (definition? (ofVariable v)).bind fun d =>
      (definitions? rest).map ((name, d) :: ·) := by
  simp only [definitions?, Json.asMembers?, Dict.mapValues, List.map_cons, List.mapM_cons]
  cases definition? (ofVariable v) with
  | none => rfl
  | some d =>
    simp only [Option.bind_eq_bind, Option.bind_some, Option.map_eq_bind]
    rfl

theorem definitions?_of_shallow {entries : Dict ProjectVariable}
    (h : ∀ v ∈ Dict.values entries, v.value.Storable ∧ Shallow v.value) :
    definitions? entries = some (Dict.mapValues definitionOf entries) := by
  induction entries with
  | nil => rfl
  | cons entry rest ih =>
    obtain ⟨name, v⟩ := entry
    obtain ⟨hstorable, hshallow⟩ := h v List.mem_cons_self
    rw [definitions?_cons, definition?_ofVariable, value?_of_shallow hstorable hshallow,
      ih fun w hw => h w (List.mem_cons_of_mem _ hw)]
    rfl

theorem definitions?_of_deep {entries : Dict ProjectVariable}
    (h : ∃ v ∈ Dict.values entries, ¬Shallow v.value) : definitions? entries = none := by
  induction entries with
  | nil =>
    obtain ⟨v, hv, -⟩ := h
    cases hv
  | cons entry rest ih =>
    obtain ⟨name, v⟩ := entry
    obtain ⟨w, hw, hdeep⟩ := h
    rw [definitions?_cons, definition?_ofVariable]
    rcases List.mem_cons.mp hw with rfl | hrest
    · rw [value?_of_deep hdeep]
      rfl
    · rw [ih ⟨w, hrest, hdeep⟩]
      cases value? v.value.toJson <;> rfl

-- ---------------------------------------------------------------------------
-- The project
-- ---------------------------------------------------------------------------

theorem typed_of_settled {name : String} {type : VarType} {w : Value} (h : Settled type w) :
    ProjectVariable.typed name type w =
      .ok ⟨name, type, w, "", ProjectVariable.defaultCategory, none, [], false⟩ := by
  rw [ProjectVariable.typed, coerce_of_settled h]
  rfl

theorem addDefinition_of_later (hplain : checkName v.name = .ok ()) (hsettled : Settled v.type v.value)
    (hlater : ∀ e ∈ p.entries, e.1 < v.name) :
    p.addDefinition (v.name, definitionOf v) =
      .ok { p with entries := p.entries ++ [(v.name, v)] } := by
  have hfree : p.contains v.name = false := by
    rw [contains, Dict.contains, Dict.find?_of_forall_lt hlater]
    rfl
  simp only [addDefinition, definitionOf, VarType.ofName?_name, typed_of_settled hsettled, add, bind,
    Except.bind, hplain, hfree, Bool.false_eq_true, if_false, coerce_of_settled hsettled]
  rw [← Dict.insert_of_forall_lt hlater]
  rfl

theorem addDefinitions_of_ordered {entries : Dict ProjectVariable}
    (hordered : Dict.Ordered (p.entries ++ entries))
    (h : ∀ e ∈ entries, e.2.name = e.1 ∧ checkName e.1 = .ok () ∧ Settled e.2.type e.2.value) :
    (Dict.mapValues definitionOf entries).foldlM addDefinition p =
      .ok { p with entries := p.entries ++ entries } := by
  induction entries generalizing p with
  | nil => simp [Dict.mapValues, pure, Except.pure]
  | cons entry rest ih =>
    obtain ⟨name, v⟩ := entry
    obtain ⟨hname, hplain, hsettled⟩ := h _ List.mem_cons_self
    obtain rfl : v.name = name := hname
    have hlater : ∀ e ∈ p.entries, e.1 < v.name := fun e he =>
      (List.pairwise_append.mp hordered).2.2 e he _ List.mem_cons_self
    have hrest := ih (p := { p with entries := p.entries ++ [(v.name, v)] })
      (by simpa using hordered) fun e he => h e (List.mem_cons_of_mem _ he)
    simp only [Dict.mapValues, List.map_cons, List.foldlM_cons,
      addDefinition_of_later hplain hsettled hlater]
    rw [List.append_cons p.entries (v.name, v) rest]
    exact hrest

theorem ofText_text (hsound : p.Sound) (hstorable : p.Storable) (hshallow : p.AllShallow) :
    ofText p.text = .ok p := by
  have hread := definitions?_of_shallow fun v hv => ⟨hstorable v hv, hshallow v hv⟩
  have hentries : Dict.ofList (Dict.mapValues definitionOf p.entries) =
      Dict.mapValues definitionOf p.entries :=
    Dict.ofList_of_ordered (hsound.ordered.mapValues definitionOf)
  rw [ofText, document?_text hstorable, hread]
  simp only [Option.map_some, hsound.version, Bool.false_eq_true, if_false, hentries]
  exact addDefinitions_of_ordered (p := ⟨p.version, p.name, []⟩) hsound.ordered
    fun e he => ⟨hsound.named e he, hsound.plain e he, hsound.settled e he⟩

theorem ofText_text_of_blank (hstorable : p.Storable) (hshallow : p.AllShallow)
    (hblank : (Text.trim p.version.toList).isEmpty = true) :
    ofText p.text = .error ⟨none, none, .emptyVersion⟩ := by
  have hread := definitions?_of_shallow fun v hv => ⟨hstorable v hv, hshallow v hv⟩
  rw [ofText, document?_text hstorable, hread]
  simp only [Option.map_some, hblank, if_true]

theorem ofText_text_of_deep (hstorable : p.Storable) (hdeep : ¬p.AllShallow) :
    ofText p.text = .error ⟨none, none, .malformed⟩ := by
  have hdeep : ∃ v ∈ Dict.values p.entries, ¬Shallow v.value := by
    simpa [AllShallow] using hdeep
  rw [ofText, document?_text hstorable, definitions?_of_deep hdeep]
  rfl

end TradingRules.Project
