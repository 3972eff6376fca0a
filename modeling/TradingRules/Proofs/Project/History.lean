import TradingRules.Project.Store
import TradingRules.Proofs.Cache.Recency
import TradingRules.Proofs.Disk.Put

/-!
# The history of a store

A store and the disk change by the store's own operations and by others who write and delete files
and give them any time of change. In every state that such a history reaches, the store's memory is
sound (`Scene.Reached.sound`).
-/

namespace TradingRules.Project.Store

structure Scene where
  store : Store
  disk : Disk

/-- `now` is the time of change that a saved file gets. The last two are done by others. -/
inductive Event where
  | load (path : String)
  | save (path : String) (p : Project) (now : Int)
  | validate (path : String)
  | invalidate (path : String)
  | clear
  | write (place : Place) (file : File)
  | delete (place : Place)

namespace Scene

def initial (capacity : Nat) (disk : Disk) : Scene := ⟨Counted.empty capacity, disk⟩

def after (s : Scene) : Event → Scene
  | .load path => { s with store := (s.store.load s.disk path).2 }
  | .save path p now =>
    let (_, store, disk) := s.store.save s.disk now path p
    ⟨store, disk⟩
  | .validate _ => s
  | .invalidate path => { s with store := (s.store.invalidate s.disk path).2 }
  | .clear => { s with store := s.store.clear }
  | .write place file => { s with disk := s.disk.put place file }
  | .delete place => { s with disk := s.disk.delete place }

def run (s : Scene) (events : List Event) : Scene := events.foldl after s

/-- A state that a history leads to from an empty store and some disk. -/
def Reached (s : Scene) : Prop :=
  ∃ (capacity : Nat) (disk : Disk) (events : List Event), (initial capacity disk).run events = s

end Scene

variable {s : Store} {disk : Disk} {path : String} {place : Place} {p : Project}

theorem keep_sound (h : s.store.Sound) (place : Place) (kept : Kept) :
    (keep s place kept).store.Sound := by
  unfold keep
  split
  · split
    · exact h
    · exact h.insert place kept
  · exact h.insert place kept

theorem request_sound (h : s.store.Sound) (place : Place) (good : Kept → Bool) :
    (s.request place good).2.store.Sound := by
  rw [Counted.request_store]
  exact h.get place

theorem load_sound (h : s.store.Sound) (disk : Disk) (path : String) :
    (s.load disk path).2.store.Sound := by
  unfold load
  split
  · exact h
  · rename_i place _
    have hreq := request_sound h place (isFresh (disk.fileAt place))
    simp only
    split
    · rename_i heq; rwa [heq] at hreq
    · rename_i heq
      rw [heq] at hreq
      split
      · exact keep_sound hreq _ _
      · exact hreq
      · exact hreq

section
variable {now : Int} {s' : Store} {disk' : Disk} {fault : StoreFault}

theorem destination_of_target (h : target disk path = .ok place) :
    disk.destination path = .ok place := by
  simp only [target, Except.bind_eq_ok, Except.mapError_eq_ok] at h
  obtain ⟨_, -, h⟩ := h
  exact Except.mapError_eq_ok.mp (Except.guarded_eq_ok.mp h).2

theorem stat_put (h : disk.destination path = .ok place) (file : File) :
    stat (disk.put place file) path = .ok (place, file.modified) := by
  rw [stat, Disk.resolve_put_of_destination h, Except.mapError_ok]
  simp only [bind, Except.bind, Disk.fileAt_put_self]
  rfl

theorem save_of_target (h : target disk path = .ok place) :
    s.save disk now path p = (.ok (), s.keep place ⟨p, now⟩, disk.put place ⟨p.text, now⟩) := by
  simp only [save, h, stat_put (destination_of_target h)]

theorem save_of_target_error (h : target disk path = .error fault) :
    s.save disk now path p = (.error fault, s, disk) := by
  simp only [save, h]

theorem save_eq_ok (h : s.save disk now path p = (.ok (), s', disk')) :
    ∃ place, disk.destination path = .ok place ∧ s' = s.keep place ⟨p, now⟩ ∧
      disk' = disk.put place ⟨p.text, now⟩ := by
  cases htarget : target disk path with
  | error =>
    rw [save_of_target_error htarget] at h
    cases h
  | ok place =>
    rw [save_of_target htarget] at h
    cases h
    exact ⟨place, destination_of_target htarget, rfl, rfl⟩

end

theorem invalidate_sound (h : s.store.Sound) (disk : Disk) (path : String) :
    (s.invalidate disk path).2.store.Sound := by
  unfold invalidate
  simp only
  split
  · exact h
  · rename_i place _
    exact h.remove place

theorem Scene.after_save_of_target {s : Scene} {now : Int} (h : target s.disk path = .ok place) :
    s.after (.save path p now) =
      ⟨s.store.keep place ⟨p, now⟩, s.disk.put place ⟨p.text, now⟩⟩ := by
  simp only [after, save_of_target h]

theorem Scene.after_save_of_target_error {s : Scene} {now : Int} {fault : StoreFault}
    (h : target s.disk path = .error fault) : s.after (.save path p now) = s := by
  simp only [after, save_of_target_error h]

theorem Scene.sound_after {s : Scene} (h : s.store.store.Sound) (e : Event) :
    (s.after e).store.store.Sound := by
  cases e with
  | load path => exact load_sound h s.disk path
  | save path p now =>
    cases htarget : target s.disk path with
    | error => rwa [after_save_of_target_error htarget]
    | ok place =>
      rw [after_save_of_target htarget]
      exact keep_sound h place _
  | validate path => exact h
  | invalidate path => exact invalidate_sound h s.disk path
  | clear => exact h.clear
  | write place file => exact h
  | delete place => exact h

theorem Scene.sound_run {s : Scene} (h : s.store.store.Sound) (events : List Event) :
    (s.run events).store.store.Sound := by
  induction events generalizing s with
  | nil => exact h
  | cons e rest ih => exact ih (Scene.sound_after h e)

theorem Scene.Reached.sound {s : Scene} (h : s.Reached) : s.store.store.Sound := by
  obtain ⟨capacity, disk, events, rfl⟩ := h
  exact Scene.sound_run (Recency.sound_empty capacity) events

end TradingRules.Project.Store
