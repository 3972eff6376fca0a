import TradingRules.Proofs.Json.InRange
import TradingRules.Proofs.Project.ReadBack

/-!
# Projects are read back from their texts

Whatever is true of all values that are handed in and read, and of integers made floats, is true of all
values that a project holds (`forall_values_run`). So maps stay in name order, and a project without a
float that is infinite or not a number is read back from its text exactly if no value is nested too deep
(`ofText_text_run`).
-/

namespace TradingRules

-- ---------------------------------------------------------------------------
-- Finite values in order
-- ---------------------------------------------------------------------------

namespace Value

mutual

/-- No float inside, at any depth of lists and maps, is infinite or not a number. -/
def AllFinite : Value → Prop
  | .float x => x.isFinite = true
  | .list items => AllFiniteItems items
  | .map fields => AllFiniteFields fields
  | .null | .bool _ | .int _ | .str _ => True

def AllFiniteItems : List Value → Prop
  | [] => True
  | v :: rest => AllFinite v ∧ AllFiniteItems rest

def AllFiniteFields : List (String × Value) → Prop
  | [] => True
  | (_, v) :: rest => AllFinite v ∧ AllFiniteFields rest

end

mutual

/-- Every map inside, at any depth, is in name order. -/
def InNameOrder : Value → Prop
  | .list items => InNameOrderItems items
  | .map fields => Dict.Ordered fields ∧ InNameOrderFields fields
  | .null | .bool _ | .int _ | .float _ | .str _ => True

def InNameOrderItems : List Value → Prop
  | [] => True
  | v :: rest => InNameOrder v ∧ InNameOrderItems rest

def InNameOrderFields : List (String × Value) → Prop
  | [] => True
  | (_, v) :: rest => InNameOrder v ∧ InNameOrderFields rest

end

mutual

def decideAllFinite : ∀ v : Value, Decidable (AllFinite v)
  | .float x => inferInstanceAs (Decidable (x.isFinite = true))
  | .list items => decideAllFiniteItems items
  | .map fields => decideAllFiniteFields fields
  | .null | .bool _ | .int _ | .str _ => isTrue trivial

def decideAllFiniteItems : ∀ items, Decidable (AllFiniteItems items)
  | [] => isTrue trivial
  | v :: rest => @instDecidableAnd _ _ (decideAllFinite v) (decideAllFiniteItems rest)

def decideAllFiniteFields : ∀ fields, Decidable (AllFiniteFields fields)
  | [] => isTrue trivial
  | (_, v) :: rest => @instDecidableAnd _ _ (decideAllFinite v) (decideAllFiniteFields rest)

end

mutual

def decideInNameOrder : ∀ v : Value, Decidable (InNameOrder v)
  | .list items => decideInNameOrderItems items
  | .map fields =>
    @instDecidableAnd _ _ (inferInstanceAs (Decidable (fields.Pairwise fun a b => a.1 < b.1)))
      (decideInNameOrderFields fields)
  | .null | .bool _ | .int _ | .float _ | .str _ => isTrue trivial

def decideInNameOrderItems : ∀ items, Decidable (InNameOrderItems items)
  | [] => isTrue trivial
  | v :: rest => @instDecidableAnd _ _ (decideInNameOrder v) (decideInNameOrderItems rest)

def decideInNameOrderFields : ∀ fields, Decidable (InNameOrderFields fields)
  | [] => isTrue trivial
  | (_, v) :: rest => @instDecidableAnd _ _ (decideInNameOrder v) (decideInNameOrderFields rest)

end

instance : DecidablePred AllFinite := decideAllFinite

instance : DecidablePred InNameOrder := decideInNameOrder

mutual

theorem storable_of_finite : ∀ v : Value, AllFinite v → InNameOrder v → Storable v
  | .null, _, _ | .bool _, _, _ | .int _, _, _ | .str _, _, _ => trivial
  | .float _, hfinite, _ => hfinite
  | .list items, hfinite, horder => storableItems_of_finite items hfinite horder
  | .map fields, hfinite, horder => ⟨horder.1, storableFields_of_finite fields hfinite horder.2⟩

theorem storableItems_of_finite :
    ∀ items, AllFiniteItems items → InNameOrderItems items → StorableItems items
  | [], _, _ => trivial
  | v :: rest, hfinite, horder =>
    ⟨storable_of_finite v hfinite.1 horder.1, storableItems_of_finite rest hfinite.2 horder.2⟩

theorem storableFields_of_finite :
    ∀ fields, AllFiniteFields fields → InNameOrderFields fields → StorableFields fields
  | [], _, _ => trivial
  | (_, v) :: rest, hfinite, horder =>
    ⟨storable_of_finite v hfinite.1 horder.1, storableFields_of_finite rest hfinite.2 horder.2⟩

end

theorem inNameOrderFields_iff {fields : List (String × Value)} :
    InNameOrderFields fields ↔ ∀ v ∈ fields.map Prod.snd, InNameOrder v := by
  induction fields with
  | nil => simp [InNameOrderFields]
  | cons first rest ih => simp [InNameOrderFields, ih]

mutual

theorem inNameOrder_ofJson : ∀ j : Json, InNameOrder (ofJson j)
  | .null | .unreadable | .bool _ | .float _ | .str _ => trivial
  | .int i => by
    rw [ofJson, ofJsonInt]
    split <;> trivial
  | .arr items => inNameOrderItems_ofJsonItems items
  | .obj members => by
    have hread := inNameOrderFields_iff.mp (inNameOrderFields_ofJsonMembers members)
    exact ⟨Dict.ordered_ofList _, inNameOrderFields_iff.mpr fun v hv =>
      hread v (Dict.mem_values_ofList hv)⟩

theorem inNameOrderItems_ofJsonItems : ∀ items, InNameOrderItems (ofJsonItems items)
  | [] => trivial
  | j :: rest => ⟨inNameOrder_ofJson j, inNameOrderItems_ofJsonItems rest⟩

theorem inNameOrderFields_ofJsonMembers : ∀ members, InNameOrderFields (ofJsonMembers members)
  | [] => trivial
  | (_, j) :: rest => ⟨inNameOrder_ofJson j, inNameOrderFields_ofJsonMembers rest⟩

end

end Value

namespace Project

-- ---------------------------------------------------------------------------
-- What is true of all values
-- ---------------------------------------------------------------------------

def Edit.value? : Edit → Option Value
  | .add v => some v.value
  | .update _ value => some value
  | .remove _ | .clear => none

theorem coerce_eq {name : String} {type : VarType} {v w : Value} (h : coerce name type v = .ok w) :
    w = v ∨ ∃ i, w = .float (.ofInt64 i) := by
  unfold coerce at h
  split at h
  · cases h
  split at h
  · cases h
  split at h
  · cases h
    exact .inr ⟨_, rfl⟩
  · split at h
    · cases h
    · cases h
      exact .inl rfl
  · cases h
    exact .inl rfl

section
variable {P : Value → Prop} {p q : Project} {v : ProjectVariable} {name : String} {value : Value}

def AllValues (P : Value → Prop) (p : Project) : Prop := ∀ v ∈ Dict.values p.entries, P v.value

instance [DecidablePred P] : Decidable (p.AllValues P) :=
  inferInstanceAs (Decidable (∀ v ∈ Dict.values p.entries, P v.value))

-- Integers made floats are of the kind.
variable (hwiden : ∀ i, P (.float (.ofInt64 i)))

include hwiden

theorem holds_of_coerce {type : VarType} {w : Value} (h : coerce name type value = .ok w)
    (hvalue : P value) : P w := by
  obtain rfl | ⟨i, rfl⟩ := coerce_eq h
  · exact hvalue
  · exact hwiden i

theorem AllValues.add (h : p.AllValues P) (hadd : p.add v = (.ok (), q)) (hv : P v.value) :
    q.AllValues P := by
  obtain ⟨-, -, w, hw, rfl⟩ := add_eq_ok hadd
  intro u hu
  rcases Dict.mem_values_insert hu with rfl | hu
  · exact holds_of_coerce hwiden hw hv
  · exact h u hu

theorem AllValues.update (h : p.AllValues P) (hupdate : p.update name value = (.ok (), q))
    (hvalue : P value) : q.AllValues P := by
  obtain ⟨v, w, -, -, hw, rfl⟩ := update_eq_ok hupdate
  intro u hu
  rcases Dict.mem_values_insert hu with rfl | hu
  · exact holds_of_coerce hwiden hw hvalue
  · exact h u hu

omit hwiden in
theorem AllValues.remove (h : p.AllValues P) (hremove : p.remove name = (.ok v, q)) :
    q.AllValues P := by
  obtain ⟨-, -, rfl⟩ := remove_eq_ok hremove
  intro u hu
  obtain ⟨e, he, rfl⟩ := List.mem_map.mp hu
  exact h e.2 (List.mem_map_of_mem (Dict.mem_erase he))

theorem AllValues.after (h : p.AllValues P) {edit : Edit} (hedit : ∀ w ∈ edit.value?, P w) :
    (p.after edit).AllValues P := by
  refine holds_after h fun q hq => ?_
  cases edit with
  | add v => exact h.add hwiden hq (hedit v.value rfl)
  | update name value => exact h.update hwiden hq (hedit value rfl)
  | remove name =>
    obtain ⟨v, hremove⟩ := edited_remove_eq_ok hq
    exact h.remove hremove
  | clear =>
    cases hq
    nofun

theorem forall_values_run (h : p.AllValues P) {edits : List Edit}
    (hedits : ∀ edit ∈ edits, ∀ w ∈ edit.value?, P w) : (p.run edits).AllValues P := by
  induction edits generalizing p with
  | nil => exact h
  | cons edit rest ih =>
    exact ih (h.after hwiden (hedits edit List.mem_cons_self)) fun e he =>
      hedits e (List.mem_cons_of_mem _ he)

end

-- ---------------------------------------------------------------------------
-- What is read
-- ---------------------------------------------------------------------------

section
variable {P : Value → Prop} {p q : Project}

theorem value_of_definition? {j : Json} {d : Definition} (h : definition? j = some d) :
    ∃ k, j.Part k ∧ value? k = some d.value := by
  simp only [definition?, Option.bind_eq_bind, Option.bind_eq_some_iff] at h
  obtain ⟨f, hfields, type, -, value, hvalue, h⟩ := h
  obtain ⟨description, -, category, -, unit, -, tags, -, readonly, -, hd⟩ := h
  cases hd
  obtain ⟨k, hfield, hk⟩ := Option.bind_eq_some_iff.mp hvalue
  exact ⟨k, Json.part_of_field hfields hfield, hk⟩

theorem value_of_document? {text version name : String} {definitions : Dict Definition}
    (h : document? text = some (version, name, definitions)) :
    ∀ d ∈ Dict.values definitions, ∃ j all one k, Json.ofText? text = some j ∧
      j.Part all ∧ all.Part one ∧ one.Part k ∧ value? k = some d.value := by
  simp only [document?, Option.bind_eq_bind, Option.bind_eq_some_iff] at h
  obtain ⟨j, htext, f, hfields, version, -, name, -, entries, hentries, h⟩ := h
  cases h
  intro d hd
  obtain ⟨e, he, rfl⟩ := List.mem_map.mp (Dict.mem_values_ofList hd)
  unfold Json.Fields.withDefault at hentries
  split at hentries
  · cases hentries
    cases he
  · rename_i all hfield
    unfold Json.asMembers? at hentries
    split at hentries
    · obtain ⟨m, hmem, hm⟩ := List.exists_of_mem_mapM hentries he
      obtain ⟨c, hc, rfl⟩ := Option.map_eq_some_iff.mp hm
      obtain ⟨k, hpart, hk⟩ := value_of_definition? hc
      exact ⟨j, _, m.2, k, htext, Json.part_of_field hfields hfield, .member hmem, hpart, hk⟩
    · cases hentries

theorem AllValues.addDefinition (hwiden : ∀ i, P (.float (.ofInt64 i))) (h : p.AllValues P)
    {entry : String × Definition} (hadd : p.addDefinition entry = .ok q) (hvalue : P entry.2.value) :
    q.AllValues P := by
  simp only [Project.addDefinition] at hadd
  split at hadd
  · cases hadd
  · obtain ⟨v, hv, hadd⟩ := Except.bind_eq_ok.mp hadd
    obtain ⟨w, hw, rfl⟩ := Except.map_eq_ok.mp hv
    obtain ⟨_, hadd⟩ := accepted_eq_ok.mp hadd
    exact h.add hwiden hadd (holds_of_coerce hwiden hw hvalue)

/-- What is true of the values that stand in the document is true of those that the project holds. -/
theorem forall_values_of_document (hwiden : ∀ i, P (.float (.ofInt64 i))) {text : String}
    (hread : ∀ version name definitions, document? text = some (version, name, definitions) →
      ∀ d ∈ Dict.values definitions, P d.value) (h : ofText text = .ok p) : p.AllValues P := by
  unfold ofText at h
  split at h
  · cases h
  rename_i version name definitions hdocument
  split at h
  · cases h
  have hvalues := hread version name definitions hdocument
  have hempty : AllValues P ⟨version, name, []⟩ := nofun
  generalize (⟨version, name, []⟩ : Project) = start at h hempty
  clear hdocument
  induction definitions generalizing start with
  | nil =>
    cases Except.pure_eq_ok.mp h
    exact hempty
  | cons entry rest ih =>
    obtain ⟨next, hfirst, hrest⟩ := Except.bind_eq_ok.mp h
    exact ih (fun d hd => hvalues d (List.mem_cons_of_mem _ hd)) next hrest
      (hempty.addDefinition hwiden hfirst (hvalues entry.2 List.mem_cons_self))

theorem value?_eq_some {j : Json} {v : Value} (h : value? j = some v) :
    j.depth + 3 ≤ Json.maxDepth ∧ v = Value.ofJson j := by
  unfold value? at h
  split at h
  · rename_i hgood
    cases h
    exact ⟨of_decide_eq_true (Bool.and_eq_true_iff.mp hgood).2, rfl⟩
  · cases h

theorem forall_values_ofText (hwiden : ∀ i, P (.float (.ofInt64 i)))
    (hread : ∀ j, P (Value.ofJson j)) {text : String} (h : ofText text = .ok p) : p.AllValues P := by
  refine forall_values_of_document hwiden (fun version name definitions hdocument d hd => ?_) h
  obtain ⟨_, _, _, k, -, -, -, -, hk⟩ := value_of_document? hdocument d hd
  rw [(value?_eq_some hk).2]
  exact hread k

end

-- ---------------------------------------------------------------------------
-- The round trip
-- ---------------------------------------------------------------------------

/-- A project that edits lead to is read back from its text, if all its floats are finite and no value
is nested too deep; if one is, the text is refused as malformed. -/
theorem ofText_text_run {start : Project} {edits : List Edit}
    (hstart : (∃ name, start = empty name) ∨ ∃ text, ofText text = .ok start)
    (hedits : ∀ edit ∈ edits, ∀ w ∈ edit.value?, w.InNameOrder)
    (hfinite : (start.run edits).AllValues Value.AllFinite) :
    ((start.run edits).AllShallow → ofText (start.run edits).text = .ok (start.run edits)) ∧
    (¬(start.run edits).AllShallow →
      ofText (start.run edits).text = .error ⟨none, none, .malformed⟩) := by
  have hordered : start.AllValues Value.InNameOrder := by
    obtain ⟨name, rfl⟩ | ⟨text, htext⟩ := hstart
    · nofun
    · exact forall_values_ofText (fun _ => trivial) Value.inNameOrder_ofJson htext
  have hstorable : (start.run edits).Storable := fun v hv =>
    Value.storable_of_finite v.value (hfinite v hv)
      (forall_values_run (fun _ => trivial) hordered hedits v hv)
  have hsound : (start.run edits).Sound := Reached.sound ⟨start, edits, hstart, rfl⟩
  exact ⟨ofText_text hsound hstorable, ofText_text_of_deep hstorable⟩

def levelEdits : List Edit := [
  .add ⟨"risk", .float, .int 1, "Risk per \"trade\"", "risk", some "%", ["sizing", "risk"], false⟩,
  .add ⟨"levels", .list, .list [.int 90000, .float (.ofInt64 95000), .list [.str "a\n"]], "",
    ProjectVariable.defaultCategory, none, [], true⟩,
  .add ⟨"max", .int, .int 5, "", ProjectVariable.defaultCategory, none, [], false⟩,
  .remove "levels", .update "max" (.str "five"), .update "max" (.int 7)]

theorem ofText_text_run_levels :
    let p := (empty "demo").run levelEdits
    (∀ edit ∈ levelEdits, ∀ w ∈ edit.value?, w.InNameOrder) ∧ p.AllValues Value.AllFinite ∧
      p.AllShallow ∧ p.names = ["levels", "max", "risk"] ∧ ofText p.text = .ok p := by
  have hedits : ∀ edit ∈ levelEdits, ∀ w ∈ edit.value?, w.InNameOrder := by decide
  have hfinite : ((empty "demo").run levelEdits).AllValues Value.AllFinite := by decide +kernel
  have hshallow : ((empty "demo").run levelEdits).AllValues Shallow := by decide +kernel
  exact ⟨hedits, hfinite, hshallow, by decide +kernel,
    (ofText_text_run (.inl ⟨"demo", rfl⟩) hedits hfinite).1 hshallow⟩

end Project

end TradingRules
