/-!
# Names to things, in the order of the names

A dictionary is a list of entries with ascending names; names are compared by code point. Every
operation keeps the order, and every answer that lists entries shows it.
-/

namespace TradingRules

abbrev Dict (α : Type) := List (String × α)

namespace Dict

variable {α β : Type}

def find? (name : String) : Dict α → Option α
  | [] => none
  | (key, a) :: rest => if name = key then some a else find? name rest

def contains (d : Dict α) (name : String) : Bool := (find? name d).isSome

/-- The entry of an existing name is replaced. -/
def insert (name : String) (a : α) : Dict α → Dict α
  | [] => [(name, a)]
  | (key, b) :: rest =>
    if name = key then (name, a) :: rest
    else if name < key then (name, a) :: (key, b) :: rest
    else (key, b) :: insert name a rest

def erase (name : String) : Dict α → Dict α
  | [] => []
  | (key, b) :: rest => if name = key then rest else (key, b) :: erase name rest

/-- Entries are put in from the left, so that of two with one name the later stays. -/
def ofList (entries : List (String × α)) : Dict α :=
  entries.foldl (fun d (name, a) => insert name a d) []

def names (d : Dict α) : List String := d.map Prod.fst

def values (d : Dict α) : List α := d.map Prod.snd

def mapValues (f : α → β) (d : Dict α) : Dict β := d.map fun (name, a) => (name, f a)

/-- Ascending names, so that no name occurs twice. -/
def Ordered (d : Dict α) : Prop := d.Pairwise fun a b => a.1 < b.1

@[simp] theorem find?_nil (name : String) : find? name ([] : Dict α) = none := rfl

theorem find?_insert_self (name : String) (a : α) (d : Dict α) :
    find? name (insert name a d) = some a := by
  induction d with
  | nil => simp [insert, find?]
  | cons entry rest ih =>
    obtain ⟨key, b⟩ := entry
    by_cases same : name = key
    · simp [insert, find?, same]
    · by_cases before : name < key
      · simp [insert, find?, same, before]
      · simp [insert, find?, same, before, ih]

theorem find?_insert_of_ne {name other : String} (ne : other ≠ name) (a : α) (d : Dict α) :
    find? other (insert name a d) = find? other d := by
  induction d with
  | nil => simp [insert, find?, ne]
  | cons entry rest ih =>
    obtain ⟨key, b⟩ := entry
    by_cases same : name = key
    · subst same; simp [insert, find?, ne]
    · by_cases before : name < key
      · simp [insert, find?, same, before, ne]
      · simp [insert, find?, same, before, ih]

theorem mem_names_insert {name x : String} {a : α} {d : Dict α} :
    x ∈ names (insert name a d) ↔ x = name ∨ x ∈ names d := by
  induction d with
  | nil => simp [insert, names]
  | cons entry rest ih =>
    obtain ⟨key, b⟩ := entry
    simp only [names] at ih ⊢
    by_cases same : name = key
    · simp [insert, same]
    · by_cases before : name < key
      · simp [insert, same, before]
      · simp [insert, same, before, ih, or_left_comm]

theorem mem_values_of_find? {name : String} {a : α} {d : Dict α} (h : find? name d = some a) :
    a ∈ values d := by
  induction d with
  | nil => cases h
  | cons entry rest ih =>
    obtain ⟨key, b⟩ := entry
    by_cases same : name = key
    · simp only [find?, same, ↓reduceIte, Option.some.injEq] at h
      subst h
      exact List.mem_cons_self
    · simp only [find?, same, ↓reduceIte] at h
      exact List.mem_cons_of_mem b (ih h)

theorem mem_values_insert {name : String} {a x : α} {d : Dict α} (h : x ∈ values (insert name a d)) :
    x = a ∨ x ∈ values d := by
  induction d with
  | nil => exact .inl (List.mem_singleton.mp h)
  | cons entry rest ih =>
    obtain ⟨key, b⟩ := entry
    simp only [values, List.map_cons, List.mem_cons] at ih ⊢
    grind [insert, values]

theorem mem_values_foldl_insert {x : α} {entries : List (String × α)} {d : Dict α}
    (h : x ∈ values (entries.foldl (fun d (name, a) => insert name a d) d)) :
    x ∈ values d ∨ x ∈ entries.map Prod.snd := by
  induction entries generalizing d with
  | nil => exact .inl h
  | cons entry rest ih =>
    rcases ih h with hd | hrest
    · rcases mem_values_insert hd with rfl | hd
      · exact .inr List.mem_cons_self
      · exact .inl hd
    · exact .inr (List.mem_cons_of_mem _ hrest)

theorem mem_values_ofList {x : α} {entries : List (String × α)} (h : x ∈ values (ofList entries)) :
    x ∈ entries.map Prod.snd := by
  rcases mem_values_foldl_insert h with hnil | hentries
  · cases hnil
  · exact hentries

end Dict

/-- A set of names in ascending order. -/
abbrev Names := List String

namespace Names

def insert (name : String) : Names → Names
  | [] => [name]
  | other :: rest =>
    if name = other then other :: rest
    else if name < other then name :: other :: rest
    else other :: insert name rest

def ofList (names : List String) : Names := names.foldl (fun s n => insert n s) []

theorem mem_insert {x name : String} {s : Names} : x ∈ insert name s ↔ x = name ∨ x ∈ s := by
  induction s with
  | nil => simp [insert]
  | cons other rest ih =>
    by_cases same : name = other
    · subst same; simp [insert]
    · by_cases before : name < other
      · simp [insert, same, before]
      · simp [insert, same, before, ih, or_left_comm]

theorem mem_foldl_insert {x : String} {names : List String} {s : Names} :
    x ∈ names.foldl (fun s n => insert n s) s ↔ x ∈ s ∨ x ∈ names := by
  induction names generalizing s with
  | nil => simp
  | cons name rest ih => rw [List.foldl_cons, ih, mem_insert, List.mem_cons, or_assoc, or_left_comm]

theorem mem_ofList {x : String} {names : List String} : x ∈ ofList names ↔ x ∈ names := by
  simp [ofList, mem_foldl_insert]

end Names

end TradingRules
