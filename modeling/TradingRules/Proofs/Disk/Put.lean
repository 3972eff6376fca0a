import TradingRules.Disk.Basic
import TradingRules.Proofs.Outcome

/-!
# A file that was put somewhere is found there

Putting or deleting a file changes no other file (`file?_put_of_ne`, `file?_delete_of_ne`). Putting one
changes no folder and blocks no way, so every path that led somewhere still leads to the same place
(`foldlM_step_put`), and the path of the new file leads to it (`resolve_put_of_destination`).
-/

namespace TradingRules.Disk

variable {d : Disk} {path : String} {place : Place}

@[simp] theorem isFolder_put (d : Disk) (place : Place) (f : File) (p : Place) :
    (d.put place f).isFolder p = d.isFolder p := rfl

@[simp] theorem file?_put_self (d : Disk) (place : Place) (f : File) :
    (d.put place f).file? place = some f := by
  simp [file?, put]

theorem file?_delete_self (d : Disk) (place : Place) : (d.delete place).file? place = none := by
  rw [file?, delete, List.lookup_eq_none_iff]
  intro e he
  have hne : e.1 ≠ place := by simpa using (List.mem_filter.mp he).2
  simpa using hne.symm

theorem file?_delete_of_ne {p : Place} (hne : p ≠ place) (d : Disk) :
    (d.delete place).file? p = d.file? p := by
  obtain ⟨here, folders, files⟩ := d
  simp only [file?, delete]
  induction files with
  | nil => rfl
  | cons e rest ih =>
    obtain ⟨q, file⟩ := e
    by_cases hq : q = place
    · have hdrop : (q != place) = false := by simpa using hq
      have hother : (p == q) = false := by simpa [hq] using hne
      simp only [List.filter_cons, hdrop, Bool.false_eq_true, ↓reduceIte, List.lookup_cons, hother, ih]
    · have hkeep : (q != place) = true := by simpa using hq
      simp only [List.filter_cons, hkeep, ↓reduceIte, List.lookup_cons, ih]

theorem file?_of_delete {p : Place} {f : File} (h : (d.delete place).file? p = some f) :
    d.file? p = some f := by
  by_cases hp : p = place
  · rw [hp, file?_delete_self] at h
    cases h
  · rwa [file?_delete_of_ne hp] at h

theorem file?_put_of_ne {p : Place} (hne : p ≠ place) (d : Disk) (f : File) :
    (d.put place f).file? p = d.file? p := by
  have hbeq : (p == place) = false := by simpa using hne
  refine Eq.trans ?_ (file?_delete_of_ne hne d)
  simp only [file?, put, delete, List.lookup_cons, hbeq]

theorem fileAt_put_self (d : Disk) (place : Place) (f : File) :
    (d.put place f).fileAt place = .ok f := by
  simp [fileAt]

theorem file?_of_fileAt {f : File} (h : d.fileAt place = .ok f) : d.file? place = some f := by
  unfold fileAt at h
  split at h
  · cases h
    assumption
  · cases h

theorem file?_put_isSome {p : Place} (h : (d.file? p).isSome) (f : File) :
    ((d.put place f).file? p).isSome := by
  by_cases hp : p = place
  · subst hp; simp
  · rwa [file?_put_of_ne hp]

theorem there_put {p : Place} (h : (d.isFolder p || (d.file? p).isSome) = true) (f : File) :
    (d.isFolder p || ((d.put place f).file? p).isSome) = true := by
  rw [Bool.or_eq_true] at h ⊢
  exact h.imp_right fun hfile => file?_put_isSome hfile f

theorem step_put {present next : Place} {part : String} (h : d.step present part = .ok next)
    (f : File) : (d.put place f).step present part = .ok next := by
  simp only [step, isFolder_put] at h ⊢
  by_cases hfolder : (!d.isFolder present) = true
  · simp [hfolder] at h
  by_cases hself : (part = "" || part = ".") = true
  · simpa only [hfolder, hself, ↓reduceIte] using h
  by_cases hup : part = ".."
  · simpa only [hfolder, hself, hup, ↓reduceIte] using h
  by_cases hlong : longestName < part.utf8ByteSize
  · simp [hfolder, hself, hup, hlong] at h
  by_cases hthere : (d.isFolder (present ++ [part]) || (d.file? (present ++ [part])).isSome) = true
  · simpa only [hfolder, hself, hup, hlong, hthere, there_put hthere f, ↓reduceIte] using h
  · simp [hfolder, hself, hup, hlong, hthere] at h

theorem foldlM_step_put {parts : List String} {present next : Place}
    (h : parts.foldlM d.step present = .ok next) (f : File) :
    parts.foldlM (d.put place f).step present = .ok next := by
  induction parts generalizing present with
  | nil => exact h
  | cons part rest ih =>
    rw [List.foldlM_cons, Except.bind_eq_ok] at h ⊢
    obtain ⟨p, hstep, hrest⟩ := h
    exact ⟨p, step_put hstep f, ih hrest⟩

/-- What a path looks like that a file can be moved to: a way to a folder and a name in it. -/
structure Target (d : Disk) (path : String) (folder : Place) (name : String) : Prop where
  noNul : ¬hasNul path = true
  nonempty : ¬path = ""
  short : ¬longestPath < path.utf8ByteSize
  way : ∃ front, Path.parts path = front ++ [name] ∧
    front.foldlM d.step (d.start path) = .ok folder
  isFolder : d.isFolder folder = true
  named : name ≠ "" ∧ name ≠ "." ∧ name ≠ ".."
  nameShort : ¬longestName < name.utf8ByteSize

theorem destination_eq_ok (h : d.destination path = .ok place) :
    ∃ folder name, d.Target path folder name ∧ place = folder ++ [name] := by
  unfold destination at h
  simp only [Except.guarded_eq_ok] at h
  obtain ⟨hnul, hempty, hshort, h⟩ := h
  split at h
  · simp at h
  rename_i name front hparts
  simp only [Except.bind_eq_ok, Except.guarded_eq_ok, Except.pure_eq_ok] at h
  obtain ⟨folder, hway, hfolder, hdots, hname, htrailing, -, rfl⟩ := h
  have hdots : name ≠ "." ∧ name ≠ ".." := by simpa using hdots
  -- no slash stands at the end, so nothing was dropped from the parts
  have hlast : (Path.parts path).reverse = name :: front := by
    cases hrev : (Path.parts path).reverse with
    | nil => simp [hrev] at hparts
    | cons last before =>
      have hne : last ≠ "" := fun he => htrailing (by simp [hrev, he])
      simpa [hrev, hne] using hparts
  refine ⟨folder, name, ⟨hnul, hempty, hshort, ⟨front.reverse, ?_, hway⟩, by simpa using hfolder,
    ⟨?_, hdots⟩, hname⟩, rfl⟩
  · rw [← List.reverse_reverse (Path.parts path), hlast, List.reverse_cons]
  · intro he
    exact htrailing (by simp [hlast, he])

/-- A file that is moved to a path is what the path leads to. -/
theorem resolve_put_of_destination (h : d.destination path = .ok place) (f : File) :
    (d.put place f).resolve path = .ok place := by
  obtain ⟨folder, name, ht, rfl⟩ := destination_eq_ok h
  obtain ⟨front, hparts, hway⟩ := ht.way
  obtain ⟨hne, hdot, hdots⟩ := ht.named
  have hlast : (d.put (folder ++ [name]) f).step folder name = .ok (folder ++ [name]) := by
    simp [step, ht.isFolder, hne, hdot, hdots, ht.nameShort]
  simp only [resolve, if_neg ht.noNul, if_neg ht.nonempty, if_neg ht.short, hparts]
  rw [List.foldlM_append, Except.bind_eq_ok]
  refine ⟨folder, foldlM_step_put hway f, ?_⟩
  rw [List.foldlM_cons, Except.bind_eq_ok]
  exact ⟨_, hlast, rfl⟩

end TradingRules.Disk
