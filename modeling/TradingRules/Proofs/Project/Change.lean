import TradingRules.Proofs.Project.RoundTrip

/-!
# What an edit changes

An edit that is refused changes nothing, an update changes one value, and a protected variable stays as
it is until all variables are taken away (`edits_of_reached`).
-/

namespace TradingRules

namespace Dict

variable {α : Type} {name other : String} {a b : α} {d : Dict α}

theorem find?_erase_of_ne (hne : other ≠ name) : find? other (erase name d) = find? other d := by
  induction d with
  | nil => rfl
  | cons first rest ih =>
    obtain ⟨key, c⟩ := first
    by_cases hkey : name = key
    · subst hkey
      rw [erase, if_pos rfl, find?, if_neg hne]
    · rw [erase, if_neg hkey, find?, find?, ih]

theorem names_insert_of_find? (hordered : Ordered d) (hfind : find? name d = some b) :
    names (insert name a d) = names d := by
  induction d with
  | nil => cases hfind
  | cons first rest ih =>
    obtain ⟨key, c⟩ := first
    obtain ⟨hfirst, hrest⟩ := List.pairwise_cons.mp hordered
    by_cases hkey : name = key
    · subst hkey
      rw [insert, if_pos rfl]
      rfl
    · rw [find?, if_neg hkey] at hfind
      have hlater : key < name := hfirst _ (mem_of_find? hfind)
      rw [insert, if_neg hkey, if_neg hlater.asymm, names, List.map_cons]
      exact congrArg (key :: ·) (ih hrest hfind)

end Dict

namespace Project

variable {p q : Project} {v : ProjectVariable} {name : String} {value : Value} {edit : Edit}

-- ---------------------------------------------------------------------------
-- One edit
-- ---------------------------------------------------------------------------

theorem Sound.update_changes (h : p.Sound) (hupdate : p.update name value = (.ok (), q)) :
    ∃ v w, p.find? name = some v ∧ coerce name v.type value = .ok w ∧
      q.version = p.version ∧ q.name = p.name ∧ q.names = p.names ∧
      ∀ other, q.find? other = if other = name then some { v with value := w } else p.find? other := by
  obtain ⟨v, w, hfind, -, hw, rfl⟩ := update_eq_ok hupdate
  refine ⟨v, w, hfind, hw, rfl, rfl, Dict.names_insert_of_find? h.ordered hfind, fun other => ?_⟩
  by_cases hother : other = name
  · subst hother
    rw [if_pos rfl]
    exact Dict.find?_insert_self _ _ _
  · rw [if_neg hother]
    exact Dict.find?_insert_of_ne hother _ _

-- ---------------------------------------------------------------------------
-- Protected variables
-- ---------------------------------------------------------------------------

/-- Edits of other names and refused edits are all there are for a protected variable. -/
theorem find?_edited_of_readonly (hfind : p.find? name = some v) (hreadonly : v.readonly = true)
    (hedit : edit ≠ .clear) (h : p.edited edit = (.ok (), q)) : q.find? name = some v := by
  cases edit with
  | add u =>
    obtain ⟨-, hfree, w, -, rfl⟩ := add_eq_ok h
    have hne : name ≠ u.name := by
      rintro rfl
      rw [hfree] at hfind
      cases hfind
    exact (Dict.find?_insert_of_ne hne _ _).trans hfind
  | update other value =>
    obtain ⟨u, w, hu, hfree, -, rfl⟩ := update_eq_ok h
    have hne : name ≠ other := by
      rintro rfl
      cases hfind.symm.trans hu
      rw [hreadonly] at hfree
      cases hfree
    exact (Dict.find?_insert_of_ne hne _ _).trans hfind
  | remove other =>
    obtain ⟨u, hremove⟩ := edited_remove_eq_ok h
    obtain ⟨hu, hfree, rfl⟩ := remove_eq_ok hremove
    have hne : name ≠ other := by
      rintro rfl
      cases hfind.symm.trans hu
      rw [hreadonly] at hfree
      cases hfree
    exact (Dict.find?_erase_of_ne hne).trans hfind
  | clear => exact absurd rfl hedit

theorem find?_after_of_readonly (hfind : p.find? name = some v) (hreadonly : v.readonly = true)
    (hedit : edit ≠ .clear) : (p.after edit).find? name = some v :=
  holds_after (P := fun p => p.find? name = some v) hfind fun _ hq =>
    find?_edited_of_readonly hfind hreadonly hedit hq

theorem find?_run_of_readonly (hfind : p.find? name = some v) (hreadonly : v.readonly = true)
    {edits : List Edit} (hedits : Edit.clear ∉ edits) : (p.run edits).find? name = some v := by
  induction edits generalizing p with
  | nil => exact hfind
  | cons edit rest ih =>
    obtain ⟨hne, hrest⟩ := not_or.mp (List.mem_cons.not.mp hedits)
    exact ih (find?_after_of_readonly hfind hreadonly (Ne.symm hne)) hrest

-- ---------------------------------------------------------------------------
-- Edited projects
-- ---------------------------------------------------------------------------

/-- In a project that edits lead to, every variable stands under its own name, which is a plain one,
and its value has the declared type. An edit that is refused changes nothing, an update changes one
value and nothing else, and a protected variable stays as it is until all are taken away. -/
theorem edits_of_reached (h : p.Reached) :
    (∀ e ∈ p.entries,
      e.2.name = e.1 ∧ checkName e.1 = .ok () ∧ e.2.value.varType? = some e.2.type) ∧
    (∀ edit r, (p.edited edit).1 = .error r → (p.edited edit).2 = p) ∧
    (∀ name value q, p.update name value = (.ok (), q) →
      ∃ v w, p.find? name = some v ∧ coerce name v.type value = .ok w ∧
        q.version = p.version ∧ q.name = p.name ∧ q.names = p.names ∧
        ∀ other, q.find? other = if other = name then some { v with value := w } else p.find? other) ∧
    (∀ name v edits, p.find? name = some v → v.readonly = true → Edit.clear ∉ edits →
      (p.run edits).find? name = some v) := by
  have hsound := h.sound
  refine ⟨fun e he => ?_, fun _ _ => after_of_refused, fun _ _ _ => hsound.update_changes,
    fun _ _ _ hfind hreadonly => find?_run_of_readonly hfind hreadonly⟩
  exact ⟨hsound.named e he, hsound.plain e he, (hsound.settled e he).typed⟩

/-- The protected list stays through edits that aim at it. -/
theorem edits_of_reached_levels :
    let p := (empty "demo").run levelEdits
    p.Reached ∧ (∃ v, p.find? "levels" = some v ∧ v.readonly = true ∧
      (p.run [.remove "levels", .update "levels" (.list []), .add v, .update "risk" (.int 2)]).find?
        "levels" = some v) ∧
    ∃ q, p.update "risk" (.int 2) = (.ok (), q) ∧ q.names = ["levels", "max", "risk"] := by
  have hreached : ((empty "demo").run levelEdits).Reached := ⟨_, _, .inl ⟨_, rfl⟩, rfl⟩
  obtain ⟨-, -, hupdate, hprotected⟩ := edits_of_reached hreached
  have hfound : (((empty "demo").run levelEdits).find? "levels").map ProjectVariable.readonly =
      some true := by decide +kernel
  have htaken : (((empty "demo").run levelEdits).update "risk" (.int 2)).1.isOk = true := by
    decide +kernel
  obtain ⟨v, hfind, hreadonly⟩ := Option.map_eq_some_iff.mp hfound
  obtain ⟨_, hanswer⟩ := Except.isOk_iff.mp htaken
  have hupdated := Prod.ext hanswer rfl
  obtain ⟨-, -, -, -, -, -, hnames, -⟩ := hupdate _ _ _ hupdated
  exact ⟨hreached, ⟨v, hfind, hreadonly, hprotected _ _ _ hfind hreadonly (by simp)⟩, _, hupdated,
    hnames.trans (by decide +kernel)⟩

end Project

end TradingRules
