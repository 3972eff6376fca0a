import TradingRules.Proofs.Project.History

/-!
# A load after a save

A load that follows a save finds the file as old as what the store remembers of it, so it never reads
the disk: it answers what `keep` left in memory (`load_save`). That is the saved project, unless the
store remembered the file with a time of change that is later than the save; then the older project
stays and is answered. A file that is dated in the future and loaded once is enough for that.
-/

namespace TradingRules.Project.Store

variable {s : Store} {disk : Disk} {path : String} {place : Place} {p : Project}

def remembered? (s : Store) (disk : Disk) (path : String) : Option Kept :=
  match disk.resolve path with
  | .ok place => s.store.peek? place
  | .error _ => none

def newer (known : Option Kept) (kept : Kept) : Kept :=
  match known with
  | some known => if kept.modified < known.modified then known else kept
  | none => kept

theorem le_modified_newer (known : Option Kept) (kept : Kept) :
    kept.modified ≤ (newer known kept).modified := by
  unfold newer
  split
  · split
    · omega
    · exact Int.le_refl _
  · exact Int.le_refl _

theorem peek?_keep (h : s.store.Sound) (place : Place) (kept : Kept) :
    (keep s place kept).store.peek? place = some (newer (s.store.peek? place) kept) := by
  cases hknown : s.store.peek? place with
  | none =>
    simp only [keep, newer, hknown]
    exact Recency.peek?_insert_self h place kept
  | some known =>
    simp only [keep, newer, hknown]
    split
    · exact hknown
    · exact Recency.peek?_insert_self h place kept

theorem load_of_fresh {file : File} {kept : Kept} (hres : disk.resolve path = .ok place)
    (hfile : disk.fileAt place = .ok file) (hknown : s.store.peek? place = some kept)
    (hfresh : file.modified ≤ kept.modified) : (s.load disk path).1 = .ok kept.project := by
  have hreq : (s.request place (isFresh (.ok file))).1 = some kept := by
    rw [Counted.request_fst, hknown]
    simp [isFresh, hfresh]
  simp only [load, hres, hfile]
  split
  · rename_i heq
    rw [heq] at hreq
    cases hreq
    rfl
  · rename_i heq
    rw [heq] at hreq
    cases hreq

theorem load_save (h : s.store.Sound) {now : Int} {s' : Store} {disk' : Disk}
    (hsave : s.save disk now path p = (.ok (), s', disk')) :
    (s'.load disk' path).1 = .ok (newer (s.remembered? disk' path) ⟨p, now⟩).project := by
  obtain ⟨place, hdest, rfl, rfl⟩ := save_eq_ok hsave
  have hres := Disk.resolve_put_of_destination hdest ⟨p.text, now⟩
  have hrem : s.remembered? (disk.put place ⟨p.text, now⟩) path = s.store.peek? place := by
    simp only [remembered?, hres]
  rw [hrem]
  exact load_of_fresh hres (Disk.fileAt_put_self _ _ _) (peek?_keep h place ⟨p, now⟩)
    (le_modified_newer _ ⟨p, now⟩)

/-- In every state that a history reaches, a load right after a save answers the saved project exactly
if nothing else was remembered of the file with a later time of change. What was remembered so is
answered in its place. -/
theorem load_save_iff {s : Scene} (hs : s.Reached) (path : String) (p : Project) (now : Int)
    (s' : Store) (disk' : Disk) (hsave : s.store.save s.disk now path p = (.ok (), s', disk')) :
    ((s'.load disk' path).1 = .ok p ↔
      ∀ known, s.store.remembered? disk' path = some known → now < known.modified →
        known.project = p) ∧
    ∀ known, s.store.remembered? disk' path = some known → now < known.modified →
      (s'.load disk' path).1 = .ok known.project := by
  rw [load_save hs.sound hsave]
  cases s.store.remembered? disk' path with
  | none => simp [newer]
  | some known =>
    by_cases hlater : now < known.modified
    · simp [newer, hlater]
    · simp [newer, hlater]

def Scene.withLoaded (modified : Int) : Scene :=
  (Scene.initial 64 ⟨["demo"], [["demo"]], []⟩).run
    [.write ["demo", "a.cel_variables.json"] ⟨(empty "old").text, modified⟩,
      .load "a.cel_variables.json"]

theorem Scene.withLoaded_reached (modified : Int) : (Scene.withLoaded modified).Reached :=
  ⟨_, _, _, rfl⟩

theorem load_save_of_past_file :
    ∃ s' disk', (Scene.withLoaded 1000).Reached ∧
      (Scene.withLoaded 1000).store.save (Scene.withLoaded 1000).disk 1700000000
        "/demo/a.cel_variables.json" (empty "new") = (.ok (), s', disk') ∧
      ((s'.load disk' "/demo/a.cel_variables.json").1 = .ok (empty "new") ↔
        ∀ known, (Scene.withLoaded 1000).store.remembered? disk' "/demo/a.cel_variables.json" =
          some known → 1700000000 < known.modified → known.project = empty "new") := by
  have hsaved : ((Scene.withLoaded 1000).store.save (Scene.withLoaded 1000).disk 1700000000
      "/demo/a.cel_variables.json" (empty "new")).1.isOk = true := by decide +kernel
  obtain ⟨_, hanswer⟩ := Except.isOk_iff.mp hsaved
  have hs := Scene.withLoaded_reached 1000
  have hload := load_save_iff hs _ _ _ _ _ (Prod.ext hanswer rfl)
  exact ⟨_, _, hs, Prod.ext hanswer rfl, hload.1⟩

/-- A file dated in the future and loaded once hides every save before that time. -/
theorem load_save_of_future_file :
    ∃ s' disk', (Scene.withLoaded 4000000001).store.save (Scene.withLoaded 4000000001).disk 1700000000
        "/demo/a.cel_variables.json" (empty "new") = (.ok (), s', disk') ∧
      (s'.load disk' "/demo/a.cel_variables.json").1 ≠ .ok (empty "new") := by
  let r := (Scene.withLoaded 4000000001).store.save (Scene.withLoaded 4000000001).disk 1700000000
    "/demo/a.cel_variables.json" (empty "new")
  obtain ⟨hsaved, hold⟩ : r.1.isOk = true ∧
      (r.2.1.load r.2.2 "/demo/a.cel_variables.json").1.toOption.map Project.name = some "old" := by
    decide +kernel
  obtain ⟨_, hanswer⟩ := Except.isOk_iff.mp hsaved
  refine ⟨r.2.1, r.2.2, Prod.ext hanswer rfl, fun hnew => ?_⟩
  rw [hnew] at hold
  exact absurd hold (by decide)

end TradingRules.Project.Store
