import TradingRules.Proofs.Dict
import TradingRules.Proofs.Eval.Paths
import TradingRules.Proofs.Source.Origin

/-!
# Folded namespaces

The names below a root, taken apart at their points, are places in a map of maps. Where no name goes on
below one that holds a map, each place holds the namespace of its own name, or else the value of that name
(`find?_fold`), and the entries may be folded in any order (`fold_perm`).
-/

namespace TradingRules

open TradingRules.Field (qualified)

-- ---------------------------------------------------------------------------
-- Names and their parts
-- ---------------------------------------------------------------------------

namespace Text

variable {s : Char} {part x text : List Char} {more : List (List Char)}

theorem splitCore_cons (s : Char) (part : List Char) (c : Char) (rest : List Char) :
    splitCore s [] part (c :: rest) =
      if c = s then part.reverse :: splitCore s [] [] rest else splitCore s [] (c :: part) rest := by
  rw [splitCore]
  by_cases h : c = s
  · simp [h]
  · simp [h, Ne.symm h]

theorem splitCore_append (hx : s ∉ x) (hmore : ∀ y ∈ more, s ∉ y) :
    splitCore s [] part (x ++ more.flatMap (s :: ·)) = (part.reverse ++ x) :: more := by
  induction more generalizing part x with
  | nil =>
    induction x generalizing part with
    | nil => simp [splitCore]
    | cons c x ih =>
      obtain ⟨hc, hx⟩ := List.ne_and_not_mem_of_not_mem_cons hx
      rw [List.cons_append, splitCore_cons, if_neg hc.symm, ih hx]
      simp
  | cons y more ihmore =>
    obtain ⟨hy, hmore⟩ := List.forall_mem_cons.mp hmore
    induction x generalizing part with
    | nil =>
      rw [List.nil_append, List.flatMap_cons, List.cons_append, splitCore_cons, if_pos rfl, ihmore hy hmore]
      simp
    | cons c x ih =>
      obtain ⟨hc, hx⟩ := List.ne_and_not_mem_of_not_mem_cons hx
      rw [List.cons_append, splitCore_cons, if_neg hc.symm, ih hx]
      simp

theorem splitCore_eq (s : Char) (part text : List Char) : ∃ x more,
    splitCore s [] part text = (part.reverse ++ x) :: more ∧ s ∉ x ∧ (∀ y ∈ more, s ∉ y) ∧
      text = x ++ more.flatMap (s :: ·) := by
  induction text generalizing part with
  | nil => exact ⟨[], [], by simp [splitCore], by simp, by simp, rfl⟩
  | cons c rest ih =>
    rw [splitCore_cons]
    by_cases hc : c = s
    · obtain ⟨x, more, hsplit, hx, hmore, rfl⟩ := ih []
      refine ⟨[], x :: more, ?_, by simp, List.forall_mem_cons.mpr ⟨hx, hmore⟩, by simp [hc]⟩
      rw [if_pos hc, hsplit]
      simp
    · obtain ⟨x, more, hsplit, hx, hmore, rfl⟩ := ih (c :: part)
      refine ⟨c :: x, more, ?_, List.not_mem_cons_of_ne_of_not_mem (Ne.symm hc) hx, hmore, rfl⟩
      rw [if_neg hc, hsplit]
      simp

end Text

def components (name : String) : List String := (Text.splitOn ['.'] name.toList).map String.ofList

section
variable {root name field : String} {fields place : List String}

theorem toList_dotted (root : String) (fields : List String) :
    (dotted root fields).toList = root.toList ++ fields.flatMap fun field => '.' :: field.toList := by
  induction fields generalizing root with
  | nil => simp
  | cons field fields ih => simp [dotted_cons, ih]

theorem dotted_qualified (root field : String) (fields : List String) :
    dotted (qualified root field) fields = qualified root (dotted field fields) := by
  simp [qualified, String.ext_iff, toList_dotted]

theorem isBelow_iff : IsBelow root name ↔ ∃ rest, name = qualified root rest := by
  constructor
  · rintro ⟨rest, hrest⟩
    refine ⟨String.ofList rest, ?_⟩
    simp [qualified, String.ext_iff, ← hrest]
  · rintro ⟨rest, rfl⟩
    exact isBelow_qualified root rest

theorem isBelow_trans {lower : String} (h : IsBelow root name) (h' : IsBelow name lower) :
    IsBelow root lower := by
  obtain ⟨rest, rfl⟩ := isBelow_iff.mp h
  obtain ⟨more, rfl⟩ := isBelow_iff.mp h'
  exact isBelow_iff.mpr ⟨qualified rest more, by simp [qualified, String.append_assoc]⟩

theorem not_isBelow_self (name : String) : ¬IsBelow name name := by
  intro h
  have hlength := h.length_le
  simp at hlength

theorem isBelow_dotted (root field : String) (fields : List String) :
    IsBelow root (dotted root (field :: fields)) :=
  isBelow_iff.mpr ⟨dotted field fields, dotted_qualified root field fields⟩

theorem isBelow_of_isPrefix {front : List String} (root : String) (h : front <+: fields)
    (hne : front ≠ fields) : IsBelow (dotted root front) (dotted root fields) := by
  obtain ⟨more, rfl⟩ := h
  have hmore : more ≠ [] := fun hnil => hne (by rw [hnil, List.append_nil])
  obtain ⟨field, more, rfl⟩ := List.exists_cons_of_ne_nil hmore
  rw [dotted_append]
  exact isBelow_dotted _ field more

theorem components_dotted (h : ∀ f ∈ field :: fields, '.' ∉ f.toList) :
    components (dotted field fields) = field :: fields := by
  obtain ⟨hfield, hfields⟩ := List.forall_mem_cons.mp h
  have hparts : ∀ y ∈ fields.map String.toList, '.' ∉ y := by simpa using hfields
  have hsplit : Text.splitCore '.' [] [] _ = _ := Text.splitCore_append hfield hparts
  rw [List.flatMap_map] at hsplit
  rw [components, Text.splitOn, toList_dotted, hsplit]
  simp

theorem components_eq (name : String) : ∃ field fields, components name = field :: fields ∧
    (∀ f ∈ field :: fields, '.' ∉ f.toList) ∧ name = dotted field fields := by
  obtain ⟨x, more, hsplit, hx, hmore, hname⟩ := Text.splitCore_eq '.' [] name.toList
  refine ⟨String.ofList x, more.map String.ofList, ?_, ?_, ?_⟩
  · rw [components, Text.splitOn, hsplit]
    simp
  · simpa using ⟨hx, hmore⟩
  · simp [String.ext_iff, toList_dotted, hname, List.flatMap_map]

theorem dotted_components (root name : String) : dotted root (components name) = qualified root name := by
  obtain ⟨field, fields, hparts, -, rfl⟩ := components_eq name
  rw [hparts]
  exact dotted_qualified root field fields

namespace Context

theorem below?_qualified (root rest : String) :
    below? root (qualified root rest) = some (components rest) := by
  have hlist : (qualified root rest).toList = (root.toList ++ ['.']) ++ rest.toList := by simp [qualified]
  simp [below?, hlist, components]

theorem below?_eq_none_iff : below? root name = none ↔ ¬IsBelow root name := by
  simp [below?, IsBelow, List.isPrefixOf_iff_prefix]

theorem below?_eq_some_iff : below? root name = some place ↔
    place ≠ [] ∧ (∀ f ∈ place, '.' ∉ f.toList) ∧ name = dotted root place := by
  constructor
  · intro h
    have hbelow : IsBelow root name := by
      by_contra hnot
      rw [below?_eq_none_iff.mpr hnot] at h
      cases h
    obtain ⟨rest, rfl⟩ := isBelow_iff.mp hbelow
    rw [below?_qualified, Option.some.injEq] at h
    obtain ⟨field, fields, hparts, hplain, rfl⟩ := components_eq rest
    obtain rfl := h.symm.trans hparts
    exact ⟨List.cons_ne_nil _ _, hplain, (dotted_qualified root field fields).symm⟩
  · rintro ⟨hne, hplain, rfl⟩
    obtain ⟨field, fields, rfl⟩ := List.exists_cons_of_ne_nil hne
    have hname : dotted root (field :: fields) = qualified root (dotted field fields) :=
      dotted_qualified root field fields
    rw [hname, below?_qualified, components_dotted hplain]

theorem below?_qualified_eq_some_iff (hplain : '.' ∉ field.toList) :
    below? (qualified root field) name = some place ↔
      place ≠ [] ∧ below? root name = some (field :: place) := by
  have hname : dotted (qualified root field) place = dotted root (field :: place) := rfl
  simp [below?_eq_some_iff, hname, hplain]

theorem below?_eq_singleton_iff (hplain : '.' ∉ field.toList) :
    below? root name = some [field] ↔ name = qualified root field := by
  simp [below?_eq_some_iff, hplain, dotted_cons, qualified]

-- ---------------------------------------------------------------------------
-- Putting in at a place
-- ---------------------------------------------------------------------------

variable {v w : Value} {p q : List String} {m : Dict Value} {entries front : List (String × Value)}

def inner (name : String) (m : Dict Value) : Dict Value :=
  match Dict.find? name m with
  | some (.map fields) => fields
  | _ => []

theorem inner_insert_map (name : String) (fields m : Dict Value) :
    inner name (Dict.insert name (.map fields) m) = fields := by
  rw [inner, Dict.find?_insert_self]

theorem inner_insert_of_ne {name other : String} (hne : name ≠ other) (v : Value) (m : Dict Value) :
    inner name (Dict.insert other v m) = inner name m := by
  rw [inner, Dict.find?_insert_of_ne hne, inner]

theorem insertNested_deeper (name : String) (hne : p ≠ []) (v : Value) (m : Dict Value) :
    insertNested (name :: p) v m = Dict.insert name (.map (insertNested p v (inner name m))) m := by
  cases p with
  | nil => exact absurd rfl hne
  | cons => rfl

/-- A value at a name gives way to a map there. -/
theorem insertNested_last (name : String) (v : Value) (m : Dict Value) :
    (∃ fields, Dict.find? name m = some (.map fields)) ∧ insertNested [name] v m = m ∨
      (∀ fields, Dict.find? name m ≠ some (.map fields)) ∧ insertNested [name] v m = Dict.insert name v m := by
  rw [insertNested]
  split
  · rename_i fields hfind
    exact .inl ⟨⟨fields, hfind⟩, rfl⟩
  · rename_i hfind
    exact .inr ⟨hfind, rfl⟩

theorem find?_insertNested_of_ne {name other : String} (hne : other ≠ name) :
    Dict.find? other (insertNested (name :: p) v m) = Dict.find? other m := by
  cases p with
  | nil =>
    rcases insertNested_last name v m with ⟨-, heq⟩ | ⟨-, heq⟩
    · rw [heq]
    · rw [heq, Dict.find?_insert_of_ne hne]
  | cons => rw [insertNested_deeper _ (List.cons_ne_nil _ _), Dict.find?_insert_of_ne hne]

theorem insertNested_ne_nil (hp : p ≠ []) : insertNested p v m ≠ [] := by
  obtain ⟨name, rest, rfl⟩ := List.exists_cons_of_ne_nil hp
  have hfound : ∃ u, Dict.find? name (insertNested (name :: rest) v m) = some u := by
    cases rest with
    | nil =>
      rcases insertNested_last name v m with ⟨⟨fields, hfind⟩, heq⟩ | ⟨-, heq⟩
      · exact ⟨_, heq ▸ hfind⟩
      · exact ⟨v, by rw [heq, Dict.find?_insert_self]⟩
    | cons => exact ⟨_, by rw [insertNested_deeper _ (List.cons_ne_nil _ _), Dict.find?_insert_self]⟩
  rintro hnil
  obtain ⟨u, hu⟩ := hfound
  rw [hnil] at hu
  cases hu

/-- A value that is no map leaves the way below its name free. -/
theorem inner_insertNested_last {name : String} (hv : ∀ fields, v ≠ .map fields) :
    inner name (insertNested [name] v m) = inner name m := by
  rcases insertNested_last name v m with ⟨-, heq⟩ | ⟨hfind, heq⟩
  · rw [heq]
  · rw [heq, inner, inner, Dict.find?_insert_self]
    grind

theorem insertNested_last_deeper {name : String} (hq : q ≠ []) (hv : ∀ fields, v ≠ .map fields) :
    insertNested [name] v (insertNested (name :: q) w m) =
      insertNested (name :: q) w (insertNested [name] v m) := by
  have hkept (fields d : Dict Value) : insertNested [name] v (Dict.insert name (.map fields) d) =
      Dict.insert name (.map fields) d := by
    rw [insertNested, Dict.find?_insert_self]
  rw [insertNested_deeper name hq w m, insertNested_deeper name hq w (insertNested _ _ _),
    inner_insertNested_last hv, hkept]
  rcases insertNested_last name v m with ⟨-, heq⟩ | ⟨-, heq⟩
  · rw [heq]
  · rw [heq, Dict.insert_insert]

theorem insertNested_insert_of_ne {name other : String} (hne : name ≠ other) (p : List String) (v w : Value)
    (m : Dict Value) : insertNested (name :: p) v (Dict.insert other w m) =
      Dict.insert other w (insertNested (name :: p) v m) := by
  rcases eq_or_ne p [] with rfl | hp
  · rw [insertNested, insertNested, Dict.find?_insert_of_ne hne]
    split
    · rfl
    · exact Dict.insert_comm hne v w m
  · rw [insertNested_deeper _ hp, insertNested_deeper _ hp, inner_insert_of_ne hne, Dict.insert_comm hne]

/-- What is done to a map depends on what stands at the first name alone. -/
theorem insertNested_step (name : String) (p : List String) (v : Value) (m : Dict Value) :
    (∀ d, Dict.find? name d = Dict.find? name m → insertNested (name :: p) v d = d) ∨
      ∃ w, ∀ d, Dict.find? name d = Dict.find? name m → insertNested (name :: p) v d = Dict.insert name w d := by
  rcases eq_or_ne p [] with rfl | hp
  · simp only [insertNested]
    cases hfind : Dict.find? name m with
    | none => exact .inr ⟨v, fun d hd => by rw [hd]⟩
    | some u =>
      cases u with
      | map fields => exact .inl fun d hd => by rw [hd]
      | _ => exact .inr ⟨v, fun d hd => by rw [hd]⟩
  · refine .inr ⟨.map (insertNested p v (inner name m)), fun d hd => ?_⟩
    rw [insertNested_deeper _ hp, inner, hd, inner]

/-- Two different places can be filled in either order, unless one is below a map that is put at the
other. -/
theorem insertNested_comm (hne : p ≠ q) (hv : p <+: q → ∀ fields, v ≠ .map fields)
    (hw : q <+: p → ∀ fields, w ≠ .map fields) (m : Dict Value) :
    insertNested p v (insertNested q w m) = insertNested q w (insertNested p v m) := by
  induction p generalizing q m with
  | nil => rfl
  | cons name p ih =>
    cases q with
    | nil => rfl
    | cons other q =>
      by_cases hname : name = other
      · subst hname
        have hpq : p ≠ q := fun h => hne (h ▸ rfl)
        rcases eq_or_ne p [] with rfl | hp
        · exact insertNested_last_deeper hpq.symm (hv (List.cons_prefix_cons.mpr ⟨rfl, List.nil_prefix⟩))
        rcases eq_or_ne q [] with rfl | hq
        · exact (insertNested_last_deeper hp (hw (List.cons_prefix_cons.mpr ⟨rfl, List.nil_prefix⟩))).symm
        simp only [insertNested_deeper _ hp, insertNested_deeper _ hq, inner_insert_map, Dict.insert_insert]
        rw [ih hpq (fun h => hv (List.cons_prefix_cons.mpr ⟨rfl, h⟩))
          (fun h => hw (List.cons_prefix_cons.mpr ⟨rfl, h⟩))]
      · rcases insertNested_step other q w m with hkeep | ⟨u, hput⟩
        · rw [hkeep m rfl, hkeep _ (find?_insertNested_of_ne (Ne.symm hname))]
        · rw [hput m rfl, hput _ (find?_insertNested_of_ne (Ne.symm hname)), insertNested_insert_of_ne hname]

-- ---------------------------------------------------------------------------
-- Folding
-- ---------------------------------------------------------------------------

theorem fold_concat (root name : String) (v : Value) (front : List (String × Value)) :
    fold root (front ++ [(name, v)]) =
      match below? root name with
      | some place => insertNested place v (fold root front)
      | none => fold root front := List.foldl_append

theorem fold_eq_nil_iff : fold root entries = [] ↔ ∀ e ∈ entries, ¬IsBelow root e.1 := by
  induction entries using List.reverseRecOn with
  | nil => exact iff_of_true rfl nofun
  | append_singleton front e ih =>
    obtain ⟨name, v⟩ := e
    rw [fold_concat]
    simp only [List.mem_append, List.mem_singleton, or_imp, forall_and, forall_eq]
    cases hplace : below? root name with
    | none => exact ih.trans (and_iff_left (below?_eq_none_iff.mp hplace)).symm
    | some place =>
      refine iff_of_false (insertNested_ne_nil (below?_eq_some_iff.mp hplace).1) fun h => ?_
      rw [below?_eq_none_iff.mpr h.2] at hplace
      cases hplace

theorem find?_fold_concat_of_ne (h : ∀ rest, below? root name ≠ some (field :: rest)) (v : Value)
    (front : List (String × Value)) :
    Dict.find? field (fold root (front ++ [(name, v)])) = Dict.find? field (fold root front) := by
  rw [fold_concat]
  cases hplace : below? root name with
  | none => rfl
  | some place =>
    obtain ⟨first, rest, rfl⟩ := List.exists_cons_of_ne_nil (below?_eq_some_iff.mp hplace).1
    exact find?_insertNested_of_ne fun heq => h rest (heq ▸ hplace)

/-- What stands in a folded namespace is at the first part of a name below its root. -/
theorem below_of_find?_fold (h : Dict.find? field (fold root entries) = some v) :
    ∃ e ∈ entries, ∃ rest, below? root e.1 = some (field :: rest) := by
  induction entries using List.reverseRecOn with
  | nil => cases h
  | append_singleton front e ih =>
    obtain ⟨name, w⟩ := e
    by_cases hhead : ∃ rest, below? root name = some (field :: rest)
    · exact ⟨(name, w), List.mem_concat_self, hhead⟩
    · rw [find?_fold_concat_of_ne (not_exists.mp hhead)] at h
      obtain ⟨e, he, hrest⟩ := ih h
      exact ⟨e, List.mem_append_left _ he, hrest⟩

/-- No name comes twice, and none goes on below a name that holds a map. -/
structure Foldable (entries : List (String × Value)) : Prop where
  distinct : (entries.map Prod.fst).Nodup
  leaves : ∀ name fields, (name, Value.map fields) ∈ entries → ∀ e ∈ entries, ¬IsBelow name e.1

theorem Foldable.of_append {last : List (String × Value)} (h : Foldable (front ++ last)) :
    Foldable front where
  distinct := by
    have := h.distinct
    rw [List.map_append] at this
    exact this.of_append_left
  leaves name fields hmem e he :=
    h.leaves name fields (List.mem_append_left _ hmem) e (List.mem_append_left _ he)

theorem find?_of_nodup_concat (h : ((front ++ [(name, v)]).map Prod.fst).Nodup) :
    Dict.find? name front = none := by
  refine Option.eq_none_iff_forall_ne_some.mpr fun u hfound => ?_
  have hmem := List.mem_map_of_mem (f := Prod.fst) (Dict.mem_of_find? hfound)
  rw [List.map_append, List.nodup_append] at h
  exact h.2.2 name hmem name (List.mem_singleton_self _) rfl

theorem Foldable.find?_front (h : Foldable (front ++ [(name, v)])) : Dict.find? name front = none :=
  find?_of_nodup_concat h.distinct

/-- The entries of a namespace can be folded in any order. -/
theorem fold_perm {entries' : List (String × Value)} (h : Foldable entries) (hperm : entries.Perm entries')
    (root : String) : fold root entries = fold root entries' := by
  refine hperm.foldl_eq' ?_ []
  rintro ⟨name, v⟩ hmem ⟨other, w⟩ hmem' m
  dsimp only
  cases hp : below? root name with
  | none => rfl
  | some p =>
    cases hq : below? root other with
    | none => rfl
    | some q =>
      obtain ⟨hpne, -, rfl⟩ := below?_eq_some_iff.mp hp
      obtain ⟨hqne, -, rfl⟩ := below?_eq_some_iff.mp hq
      by_cases hpq : p = q
      · subst hpq
        obtain ⟨-, rfl⟩ := Prod.mk.inj (List.inj_on_of_nodup_map h.distinct hmem hmem' rfl)
        rfl
      refine (insertNested_comm hpq ?_ ?_ m).symm
      · rintro hprefix fields rfl
        exact h.leaves _ fields hmem _ hmem' (isBelow_of_isPrefix root hprefix hpq)
      · rintro hprefix fields rfl
        exact h.leaves _ fields hmem' _ hmem (isBelow_of_isPrefix root hprefix (Ne.symm hpq))

def nonempty? : Dict Value → Option Value
  | [] => none
  | fields => some (.map fields)

theorem nonempty?_eq_none_iff : nonempty? m = none ↔ m = [] := by
  cases m <;> simp [nonempty?]

theorem nonempty?_of_ne_nil (h : m ≠ []) : nonempty? m = some (.map m) := by
  cases m with
  | nil => exact absurd rfl h
  | cons => rfl

theorem namespace?_eq (c : Context) (root : String) : c.namespace? root = nonempty? (fold root c.values) := by
  rw [namespace?]
  cases fold root c.values <;> rfl

theorem find?_append (name : String) (d d' : Dict Value) :
    Dict.find? name (d ++ d') = (Dict.find? name d).or (Dict.find? name d') := by
  induction d with
  | nil => rfl
  | cons e d ih =>
    obtain ⟨key, v⟩ := e
    by_cases h : name = key <;> simp [Dict.find?, h, ih]

theorem find?_insertNested_last {d : Dict Value} (h : Dict.find? field m = nonempty? d) (v : Value) :
    Dict.find? field (insertNested [field] v m) = (nonempty? d).or (some v) := by
  cases d with
  | nil => rw [insertNested, h, nonempty?, Dict.find?_insert_self, Option.none_or]
  | cons =>
    rw [nonempty?_of_ne_nil (List.cons_ne_nil _ _)] at h ⊢
    rw [insertNested, h, Option.some_or]
    exact h

theorem inner_eq {d : Dict Value} {u : Option Value} (h : Dict.find? field m = (nonempty? d).or u)
    (hu : ∀ fields, u ≠ some (.map fields)) : inner field m = d := by
  unfold inner
  cases d with
  | nil =>
    rw [h, nonempty?, Option.none_or]
    split
    · exact absurd rfl (hu _)
    · rfl
  | cons => rw [h, nonempty?_of_ne_nil (List.cons_ne_nil _ _), Option.some_or]

/-- What stands at a name in a folded namespace is the namespace of the whole name, or else its value. -/
theorem find?_fold (h : Foldable entries) (hplain : '.' ∉ field.toList) (root : String) :
    Dict.find? field (fold root entries) =
      (nonempty? (fold (qualified root field) entries)).or (Dict.find? (qualified root field) entries) := by
  induction entries using List.reverseRecOn with
  | nil => rfl
  | append_singleton front e ih =>
    obtain ⟨name, v⟩ := e
    replace ih := ih h.of_append
    have hdeeper (place : List String) : below? (qualified root field) name = some place ↔
        place ≠ [] ∧ below? root name = some (field :: place) := below?_qualified_eq_some_iff hplain
    have hlast : below? root name = some [field] ↔ name = qualified root field :=
      below?_eq_singleton_iff hplain
    rw [find?_append]
    by_cases hhead : ∃ rest, below? root name = some (field :: rest)
    · obtain ⟨rest, hplace⟩ := hhead
      rw [fold_concat, fold_concat, hplace]
      cases rest with
      | nil =>
        obtain rfl := hlast.mp hplace
        rw [h.find?_front, Option.or_none] at ih
        rw [below?_eq_none_iff.mpr (not_isBelow_self _), h.find?_front, Option.none_or, Dict.find?, if_pos rfl]
        exact find?_insertNested_last ih v
      | cons next rest =>
        have hplace' : below? (qualified root field) name = some (next :: rest) :=
          (hdeeper _).mpr ⟨List.cons_ne_nil _ _, hplace⟩
        have hinner : inner field (fold root front) = fold (qualified root field) front := by
          refine inner_eq ih fun fields hfound => ?_
          have hmem := List.mem_append_left [(name, v)] (Dict.mem_of_find? hfound)
          have hnot := h.leaves _ fields hmem (name, v) (by simp)
          rw [below?_eq_none_iff.mpr hnot] at hplace'
          cases hplace'
        rw [hplace']
        dsimp only
        rw [insertNested_deeper _ (List.cons_ne_nil _ _), Dict.find?_insert_self, hinner,
          nonempty?_of_ne_nil (insertNested_ne_nil (List.cons_ne_nil _ _)), Option.some_or]
    -- The name is put at another first part and is none that the right side is about.
    · have hnone : below? (qualified root field) name = none :=
        Option.eq_none_iff_forall_ne_some.mpr fun place hsome => hhead ⟨place, ((hdeeper place).mp hsome).2⟩
      have hname : qualified root field ≠ name := fun heq => hhead ⟨[], hlast.mpr heq.symm⟩
      rw [find?_fold_concat_of_ne (not_exists.mp hhead), fold_concat, hnone, Dict.find?, if_neg hname,
        Dict.find?_nil, Option.or_none, ← ih]

theorem find?_fold_of_leaf (hdistinct : (entries.map Prod.fst).Nodup) (hplain : '.' ∉ field.toList)
    (hleaf : ∀ e ∈ entries, ¬IsBelow (qualified root field) e.1) :
    Dict.find? field (fold root entries) = Dict.find? (qualified root field) entries := by
  induction entries using List.reverseRecOn with
  | nil => rfl
  | append_singleton front e ih =>
    obtain ⟨name, v⟩ := e
    have hfront : (front.map Prod.fst).Nodup := by
      rw [List.map_append] at hdistinct
      exact hdistinct.of_append_left
    replace ih := ih hfront fun e he => hleaf e (List.mem_append_left _ he)
    rw [find?_append]
    by_cases hname : name = qualified root field
    · subst hname
      have hnone := find?_of_nodup_concat hdistinct
      rw [hnone] at ih
      rw [fold_concat, (below?_eq_singleton_iff hplain).mpr rfl, hnone]
      simp only [insertNested, ih, Dict.find?_insert_self, Dict.find?, if_pos, Option.none_or]
    · have hapart (rest : List String) : below? root name ≠ some (field :: rest) := by
        intro hplace
        rcases eq_or_ne rest [] with rfl | hrest
        · exact hname ((below?_eq_singleton_iff hplain).mp hplace)
        · have hbelow := (below?_qualified_eq_some_iff hplain).mpr ⟨hrest, hplace⟩
          rw [below?_eq_none_iff.mpr (hleaf (name, v) List.mem_concat_self)] at hbelow
          cases hbelow
      rw [find?_fold_concat_of_ne hapart, ih, Dict.find?, if_neg (Ne.symm hname), Dict.find?_nil, Option.or_none]

-- ---------------------------------------------------------------------------
-- Places
-- ---------------------------------------------------------------------------

variable {c : Context}

theorem namespace?_eq_none_iff :
    c.namespace? root = none ↔ ∀ name ∈ Dict.names c.values, ¬IsBelow root name := by
  rw [namespace?_eq, nonempty?_eq_none_iff, fold_eq_nil_iff, Dict.names, List.forall_mem_map]

theorem namespace?_of_isBelow (hmem : name ∈ Dict.names c.values) (h : IsBelow root name) :
    c.namespace? root = some (.map (fold root c.values)) := by
  rw [namespace?_eq, nonempty?_of_ne_nil]
  intro hnil
  obtain ⟨e, he, rfl⟩ := List.mem_map.mp hmem
  exact fold_eq_nil_iff.mp hnil e he h

theorem namespace?_eq_some (h : c.namespace? root = some v) : v = .map (fold root c.values) := by
  rw [namespace?_eq] at h
  cases hfold : fold root c.values with
  | nil => rw [hfold] at h; cases h
  | cons => rw [hfold] at h; exact (Option.some.inj h).symm

theorem lookup?_eq (c : Context) (path : String) :
    c.lookup? path = (c.find? path).or (c.namespace? path) := by
  rw [lookup?]
  cases c.find? path <;> rfl

theorem lookup?_ne_none_of_below {e : String × Value} {rest : List String} (he : e ∈ c.values)
    (h : below? root e.1 = some (field :: rest)) : c.lookup? (qualified root field) ≠ none := by
  have hname : e.1 = dotted (qualified root field) rest := (below?_eq_some_iff.mp h).2.2
  have hmem : e.1 ∈ Dict.names c.values := List.mem_map_of_mem he
  rw [lookup?_eq]
  cases rest with
  | nil =>
    obtain ⟨v, hv⟩ := Dict.find?_of_mem_names hmem
    have hfind : c.find? (qualified root field) = some v := by rwa [hname] at hv
    rw [hfind, Option.some_or]
    exact Option.some_ne_none v
  | cons next rest =>
    rw [namespace?_of_isBelow hmem (hname ▸ isBelow_dotted _ next rest)]
    cases c.find? (qualified root field) <;> exact Option.some_ne_none _

/-- Where a path leads below a root, its names begin below that root. -/
theorem namespace?_of_place (hne : place ≠ [])
    (h : (c.namespace? (dotted root place)).or (c.find? (dotted root place)) = some v) :
    c.namespace? root = some (.map (fold root c.values)) := by
  obtain ⟨field, rest, rfl⟩ := List.exists_cons_of_ne_nil hne
  have hbelow : IsBelow root (dotted root (field :: rest)) := isBelow_dotted root field rest
  rcases Option.or_eq_some_iff.mp h with hspace | ⟨-, hvalue⟩
  · have hsome : c.namespace? (dotted root (field :: rest)) ≠ none := hspace ▸ Option.some_ne_none v
    obtain ⟨name, hname⟩ := not_forall.mp (mt namespace?_eq_none_iff.mpr hsome)
    obtain ⟨hmem, hdeeper⟩ := Classical.not_imp.mp hname
    exact namespace?_of_isBelow hmem (isBelow_trans hbelow (Decidable.not_not.mp hdeeper))
  · exact namespace?_of_isBelow (List.mem_map_of_mem (f := Prod.fst) (Dict.mem_of_find? hvalue)) hbelow

/-- At the place of a name below a root stands its namespace, or else its value. -/
theorem descend_fold (h : Foldable c.values) (hne : place ≠ []) (hplain : ∀ f ∈ place, '.' ∉ f.toList)
    (hv : (c.namespace? (dotted root place)).or (c.find? (dotted root place)) = some v) :
    (Value.map (fold root c.values)).descend place = .reached v := by
  induction place generalizing root with
  | nil => exact absurd rfl hne
  | cons field rest ih =>
    obtain ⟨hfield, hrest⟩ := List.forall_mem_cons.mp hplain
    have hfind := find?_fold h hfield root
    rw [← namespace?_eq] at hfind
    rcases eq_or_ne rest [] with rfl | hrestne
    · rw [Value.descend_of_find? (hfind.trans hv), Value.descend_nil]
    · have hspace : c.namespace? (qualified root field) = _ := namespace?_of_place hrestne hv
      rw [hspace, Option.some_or] at hfind
      rw [Value.descend_of_find? hfind]
      exact ih hrestne hrest hv

/-- Nothing else stands in a folded namespace: what is reached is the namespace of a name, or it is
reached from the value of a name that has no namespace. -/
theorem descend_fold_eq_reached (h : Foldable c.values) (hne : place ≠ [])
    (hw : (Value.map (fold root c.values)).descend place = .reached w) :
    ∃ front inside, place = front ++ inside ∧ front ≠ [] ∧ (∀ f ∈ front, '.' ∉ f.toList) ∧
      (inside = [] ∧ c.namespace? (dotted root front) = some w ∨
        c.namespace? (dotted root front) = none ∧
          ∃ v, c.find? (dotted root front) = some v ∧ v.descend inside = .reached w) := by
  induction place generalizing root with
  | nil => exact absurd rfl hne
  | cons field rest ih =>
    obtain ⟨-, u, ⟨⟩, hfind, hrest⟩ := Value.descend_eq_reached hw
    obtain ⟨e, -, more, hbelow⟩ := below_of_find?_fold hfind
    have hfield := (below?_eq_some_iff.mp hbelow).2.1 field List.mem_cons_self
    have hone : [field] ≠ [] ∧ ∀ f ∈ [field], '.' ∉ f.toList :=
      ⟨List.cons_ne_nil _ _, List.forall_mem_singleton.mpr hfield⟩
    rw [find?_fold h hfield, ← namespace?_eq] at hfind
    rcases Option.or_eq_some_iff.mp hfind with hspace | ⟨hnone, hvalue⟩
    · rcases eq_or_ne rest [] with rfl | hrestne
      · rw [Value.descend_nil, Descent.reached.injEq] at hrest
        exact ⟨[field], [], rfl, hone.1, hone.2, .inl ⟨rfl, hrest ▸ hspace⟩⟩
      · rw [namespace?_eq_some hspace] at hrest
        obtain ⟨front, inside, rfl, hfront, hplain, hcases⟩ := ih hrestne hrest
        have hplain : ∀ f ∈ field :: front, '.' ∉ f.toList := List.forall_mem_cons.mpr ⟨hfield, hplain⟩
        exact ⟨field :: front, inside, rfl, List.cons_ne_nil _ _, hplain, hcases⟩
    · exact ⟨[field], rest, rfl, hone.1, hone.2, .inr ⟨hnone, u, hvalue, hrest⟩⟩

/-- Let no name of a context go on below one that holds a map. Then a namespace is the same for every order
of the entries, and there is one exactly if a name goes on below the root. At the parts of a name below
the root stands the namespace of that name, or else its value. Nothing else stands in a namespace: whatever
is reached in it is the namespace of a name, or is reached from the value of a name that has none. -/
theorem namespace?_places (h : Foldable c.values) (root : String) :
    (∀ entries, c.values.Perm entries →
      ({ c with values := entries } : Context).namespace? root = c.namespace? root) ∧
    (c.namespace? root = none ↔ ∀ name ∈ Dict.names c.values, ¬IsBelow root name) ∧
    (∀ rest v, (c.namespace? (qualified root rest)).or (c.find? (qualified root rest)) = some v →
      ∃ space, c.namespace? root = some space ∧ space.descend (components rest) = .reached v) ∧
    ∀ space place w, c.namespace? root = some space → place ≠ [] → space.descend place = .reached w →
      ∃ rest inside, place = components rest ++ inside ∧
        (inside = [] ∧ c.namespace? (qualified root rest) = some w ∨
          c.namespace? (qualified root rest) = none ∧
            ∃ v, c.find? (qualified root rest) = some v ∧ v.descend inside = .reached w) := by
  refine ⟨fun entries hperm => ?_, namespace?_eq_none_iff, fun rest v hv => ?_, ?_⟩
  · rw [namespace?_eq, namespace?_eq, fold_perm h hperm]
  · obtain ⟨field, fields, hparts, hplain, -⟩ := components_eq rest
    rw [← dotted_components] at hv
    have hne : components rest ≠ [] := hparts ▸ List.cons_ne_nil _ _
    exact ⟨_, namespace?_of_place hne hv, descend_fold h hne (hparts ▸ hplain) hv⟩
  · intro space place w hspace hne hw
    rw [namespace?_eq_some hspace] at hw
    obtain ⟨front, inside, rfl, hfront, hplain, hcases⟩ := descend_fold_eq_reached h hne hw
    obtain ⟨field, fields, rfl⟩ := List.exists_cons_of_ne_nil hfront
    refine ⟨dotted field fields, inside, by rw [components_dotted hplain], ?_⟩
    rwa [← dotted_components, components_dotted hplain]

end Context

end

def openTrade : Context :=
  ⟨[("trade.", .null), ("trade.bar", .map [("open", .int 3)]), ("trade.stop", .int 5),
    ("trade.stop.kind", .str "fixed"), ("trader", .bool true)], ⟨1700000000, 0⟩⟩

theorem Context.foldable_openTrade : Foldable openTrade.values where
  distinct := by decide
  leaves name fields hmem := by
    have hname : name = "trade.bar" := by
      simp [openTrade] at hmem
      exact hmem.1
    subst hname
    decide

theorem Context.namespace?_openTrade_stop :
    openTrade.namespace? "trade.stop" = some (.map [("kind", .str "fixed")]) := by
  obtain ⟨h₁, h₂, h₃, h₄, h₅⟩ : below? "trade.stop" "trade." = none ∧ below? "trade.stop" "trade.bar" = none ∧
      below? "trade.stop" "trade.stop" = none ∧ below? "trade.stop" "trade.stop.kind" = some ["kind"] ∧
      below? "trade.stop" "trader" = none := by decide +kernel
  simp only [namespace?, fold, openTrade, List.foldl_cons, List.foldl_nil, h₁, h₂, h₃, h₄, h₅]
  rfl

/-- The value of `trade.stop` gives way to the names below it; the map of `trade.bar` is kept. -/
theorem Context.namespace?_places_openTrade :
    Foldable openTrade.values ∧
      ({ openTrade with values := openTrade.values.reverse } : Context).namespace? "trade" =
        openTrade.namespace? "trade" ∧
      ∃ space, openTrade.namespace? "trade" = some space ∧
        space.descend (components "stop") = .reached (.map [("kind", .str "fixed")]) ∧
        space.descend (components "bar") = .reached (.map [("open", .int 3)]) := by
  obtain ⟨hperm, -, hplaces, -⟩ := namespace?_places foldable_openTrade "trade"
  obtain ⟨space, hspace, hstop⟩ := hplaces "stop" (.map [("kind", .str "fixed")]) <| by
    have hname : qualified "trade" "stop" = "trade.stop" := rfl
    rw [hname, namespace?_openTrade_stop, Option.some_or]
  obtain ⟨space', hspace', hbar⟩ := hplaces "bar" (.map [("open", .int 3)]) <| by
    rw [namespace?_eq_none_iff.mpr (by decide), Option.none_or]
    rfl
  rw [hspace, Option.some.injEq] at hspace'
  subst hspace'
  exact ⟨foldable_openTrade, hperm _ (List.reverse_perm _).symm, space, hspace, hstop, hbar⟩

end TradingRules
