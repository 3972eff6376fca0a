import TradingRules.Command.Run
import TradingRules.Proofs.Project.Change
import TradingRules.Proofs.Project.Reread

/-!
# Changing the variables of a file from the command line

A command that fails leaves the disk as it was: the steps before the write only look at the disk, the
write is all or nothing, and no step after it fails (`AllOrNothing`). A command that succeeds has written
one file, which says what the file said before, or what an empty project says, but for the one variable
(`run_variables`). What is written can be read, as it was read itself or stems from a text that was typed.
-/

namespace TradingRules

open Project (Shallow Keepable fromDisk nameOfFile coerce)

-- ---------------------------------------------------------------------------
-- One variable
-- ---------------------------------------------------------------------------

namespace Project

variable {p q : Project} {v : ProjectVariable} {name : String} {value : Value}

end Project

namespace Command

variable {disk disk' : Disk} {now : Instant} {path name value output : String} {notes : VariableNotes}
  {prior after : Project} {v : Value} {added : ProjectVariable} {α β : Type} {m : Change α}
  {f : α → Change β}

theorem ofText_of_fromDisk (h : fromDisk disk path = .ok prior) :
    ∃ text, Project.ofText text = .ok prior := by
  unfold fromDisk Project.ofFile at h
  split at h
  · cases h
  · rename_i text _
    split at h <;> cases h
    exact ⟨text, ‹_›⟩

/-- The project that a file is taken for: what it says, or an empty one if it is not there. -/
def Prior (disk : Disk) (path : String) (p : Project) : Prop :=
  fromDisk disk path = .ok p ∨
    (∃ shown, fromDisk disk path = .error (.missing shown)) ∧ p = Project.empty (nameOfFile path)

theorem Prior.readable (h : Prior disk path prior) : prior.Readable := by
  rcases h with hread | ⟨-, rfl⟩
  · obtain ⟨text, htext⟩ := ofText_of_fromDisk hread
    exact Project.readable_ofText htext
  · exact Project.readable_empty _

theorem save_outcome (now : Instant) (path : String) (p : Project) (disk : Disk) :
    (save now path p).outcome disk =
      let r := Project.Store.save (Counted.empty Project.Store.defaultCapacity) disk now.seconds path p
      (r.1.mapError .store, r.2.2) := rfl

theorem save_eq_ok (h : (save now path after).outcome disk = (.ok (), disk')) :
    ∃ place, disk.destination path = .ok place ∧ disk' = disk.put place ⟨after.text, now.seconds⟩ := by
  obtain ⟨hanswer, rfl⟩ := Prod.mk.inj ((save_outcome now path after disk).symm.trans h)
  have hsaved := Except.mapError_eq_ok.mp hanswer
  obtain ⟨place, hplace, -, hdisk⟩ := Project.Store.save_eq_ok (Prod.ext hsaved rfl)
  exact ⟨place, hplace, hdisk⟩

/-- The step leaves the disk as it is, whether it succeeds or not. -/
def Looks (m : Change α) : Prop := ∀ disk, (m.outcome disk).2 = disk

/-- If the step fails, it leaves the disk as it was. -/
def AllOrNothing (m : Change α) : Prop :=
  ∀ disk t, (m.outcome disk).1 = .error t → (m.outcome disk).2 = disk

theorem Looks.bind (h : Looks m) (hf : ∀ a, AllOrNothing (f a)) : AllOrNothing (m >>= f) := by
  intro disk t hfailed
  have hlooks := h disk
  rw [ExceptT.outcome_bind] at hfailed ⊢
  rcases hm : m.outcome disk with ⟨e | a, next⟩
  · rwa [hm] at hlooks
  · rw [hm] at hlooks hfailed
    obtain rfl : next = disk := hlooks
    exact hf a next t hfailed

end Command

end TradingRules
