import TradingRules.Proofs.Cache.Latest
import TradingRules.Proofs.Project.Freshness
import TradingRules.Proofs.Project.ReadBack

/-!
# A store answers what its files say

The times of change are all that a store asks its files for before it answers from memory. If they only
go forward, and the saved projects can be read back, every load answers what a look at the disk would
(`run_coherent`). It does not matter what was forgotten, what could not be read, or which files were
deleted and written again in between.
-/

namespace TradingRules.Project

def StoreFault.shownAs (path : String) : StoreFault → StoreFault
  | .missing _ => .missing path
  | .unreadable _ fault => .unreadable path fault
  | .invalid refusal => .invalid (refusal.inFile path)

theorem StoreFault.shownAs_ofDisk (path shown : String) (fault : Disk.Fault) :
    (ofDisk shown fault).shownAs path = ofDisk path fault := by
  cases fault <;> rfl

theorem ofFile_shownAs (path shown : String) (file : Except Disk.Fault String) :
    (ofFile shown file).mapError (StoreFault.shownAs path) = ofFile path file := by
  cases file with
  | error fault => exact congrArg Except.error (StoreFault.shownAs_ofDisk path shown fault)
  | ok content =>
    simp only [ofFile]
    cases ofText content <;> rfl

structure Readable (p : Project) : Prop where
  sound : p.Sound
  storable : p.Storable
  shallow : p.AllShallow

theorem Readable.ofText_text {p : Project} (h : p.Readable) : ofText p.text = .ok p :=
  Project.ofText_text h.sound h.storable h.shallow

namespace Store

variable {s : Store} {disk : Disk} {path : String} {place : Place}

-- ---------------------------------------------------------------------------
-- One load
-- ---------------------------------------------------------------------------

/-- What a load answers and leaves, by what it finds. -/
inductive Loaded (s : Store) (disk : Disk) (path : String) : Except StoreFault Project → Store → Prop
  | astray {fault : Disk.Fault} (hres : disk.resolve path = .error fault) :
    Loaded s disk path (.error (.ofDisk path fault)) s
  | remembered {place : Place} {kept : Kept} (hres : disk.resolve path = .ok place)
    (hreq : (s.request place (isFresh (disk.fileAt place))).1 = some kept) :
    Loaded s disk path (.ok kept.project) (s.request place (isFresh (disk.fileAt place))).2
  | read {place : Place} {file : File} {p : Project} (hres : disk.resolve path = .ok place)
    (hfile : disk.fileAt place = .ok file) (htext : ofText file.content = .ok p) :
    Loaded s disk path (.ok p)
      (keep (s.request place (isFresh (disk.fileAt place))).2 place ⟨p, file.modified⟩)
  | unread {place : Place} {fault : StoreFault} (hres : disk.resolve path = .ok place)
    (hfault : ofFile place.path ((disk.fileAt place).map File.content) = .error fault) :
    Loaded s disk path (.error fault) (s.request place (isFresh (disk.fileAt place))).2

theorem ofFile_eq_ok {file : Except Disk.Fault File} {p : Project}
    (h : ofFile path (file.map File.content) = .ok p) :
    ∃ f, file = .ok f ∧ ofText f.content = .ok p := by
  cases file with
  | error fault => cases h
  | ok f =>
    refine ⟨f, rfl, ?_⟩
    simp only [ofFile, Except.map] at h
    split at h
    · rename_i heq
      cases h
      exact heq
    · cases h

theorem loaded (s : Store) (disk : Disk) (path : String) :
    Loaded s disk path (s.load disk path).1 (s.load disk path).2 := by
  unfold load
  split
  · exact .astray ‹_›
  rename_i place hres
  simp only
  split
  · rename_i kept next hreq
    have hkept : (s.request place (isFresh (disk.fileAt place))).1 = some kept := by rw [hreq]
    have hfound := Loaded.remembered hres hkept
    rwa [hreq] at hfound
  · rename_i next hreq
    split
    · rename_i p file heq hfile
      obtain ⟨f, hf, htext⟩ := ofFile_eq_ok heq
      cases hf.symm.trans hfile
      have hread := Loaded.read (s := s) hres hfile htext
      rwa [hreq] at hread
    · rename_i p fault heq hfile
      obtain ⟨f, hf, -⟩ := ofFile_eq_ok heq
      cases hf.symm.trans hfile
    · rename_i fault heq
      have hunread := Loaded.unread (s := s) hres heq
      rwa [hreq] at hunread

theorem fromDisk_of_resolve (hres : disk.resolve path = .ok place) :
    fromDisk disk path = ofFile path ((disk.fileAt place).map File.content) := by
  simp only [fromDisk, Disk.read, hres, bind, Except.bind]
  cases disk.fileAt place <;> rfl

/-- Where the store remembers nothing that is as new as its file but not what its file says, a load
answers what a look at the disk does. -/
theorem load_eq_fromDisk
    (h : ∀ place kept file, s.store.peek? place = some kept → disk.file? place = some file →
      file.modified ≤ kept.modified → ofText file.content = .ok kept.project) :
    (s.load disk path).1.mapError (StoreFault.shownAs path) = fromDisk disk path := by
  have hloaded := loaded s disk path
  generalize (s.load disk path).1 = answer, (s.load disk path).2 = next at hloaded ⊢
  cases hloaded with
  | astray hres =>
    simp only [fromDisk, Disk.read, hres]
    exact congrArg Except.error (StoreFault.shownAs_ofDisk _ _ _)
  | @remembered place kept hres hreq =>
    rw [Counted.request_fst, Option.filter_eq_some_iff] at hreq
    obtain ⟨hpeek, hfresh⟩ := hreq
    rw [fromDisk_of_resolve hres]
    cases hfile : disk.fileAt place with
    | error fault =>
      rw [hfile] at hfresh
      cases hfresh
    | ok file =>
      have hfresh : file.modified ≤ kept.modified := by simpa [hfile, isFresh] using hfresh
      have hthere : disk.file? place = some file := Disk.file?_of_fileAt hfile
      simp only [Except.map, ofFile, h place kept file hpeek hthere hfresh]
      rfl
  | read hres hfile htext =>
    rw [fromDisk_of_resolve hres, hfile]
    simp only [Except.map, ofFile, htext]
    rfl
  | unread hres hfault =>
    rw [fromDisk_of_resolve hres, ← ofFile_shownAs path, hfault]

-- ---------------------------------------------------------------------------
-- What is remembered
-- ---------------------------------------------------------------------------

/-- The file at a place had the time of change of what is remembered of it, on the disk or a past one.
As long as it is no newer, it says what is remembered. -/
structure Held (past : List Disk) (disk : Disk) (place : Place) (kept : Kept) : Prop where
  dated : ∃ d ∈ disk :: past, ∃ file ∈ d.file? place, file.modified = kept.modified
  current : ∀ file ∈ disk.file? place, file.modified ≤ kept.modified →
    ofText file.content = .ok kept.project

namespace Scene

variable {s : Scene} {past : List Disk} {e : Event} {kept : Kept}

def written? (s : Scene) : Event → Option (Place × File)
  | .save path p now => (target s.disk path).toOption.map fun place => (place, ⟨p.text, now⟩)
  | .write place file => some (place, file)
  | _ => none

/-- What the event writes is later than what the place had on the disk and the past ones. -/
def Later (past : List Disk) (s : Scene) (e : Event) : Prop :=
  ∀ change ∈ s.written? e, ∀ disk ∈ s.disk :: past, ∀ old ∈ disk.file? change.1,
    old.modified < change.2.modified

def Forward (past : List Disk) (s : Scene) : List Event → Prop
  | [] => True
  | e :: rest => Later past s e ∧ Forward (s.disk :: past) (s.after e) rest

theorem disk_after_of_written {file : File} (h : s.written? e = some (place, file)) :
    (s.after e).disk = s.disk.put place file := by
  cases e with
  | save path p now =>
    simp only [written?] at h
    cases htarget : target s.disk path with
    | error fault => simp [htarget, Except.toOption] at h
    | ok place =>
      simp only [htarget, Except.toOption, Option.map_some, Option.some.injEq] at h
      cases h
      rw [after_save_of_target htarget]
  | write => cases h; rfl
  | _ => cases h

theorem file?_after_of_not_written {file : File} (h : s.written? e = none)
    (hfile : (s.after e).disk.file? place = some file) : s.disk.file? place = some file := by
  cases e with
  | save path p now =>
    simp only [written?] at h
    cases htarget : target s.disk path with
    | error fault => simpa [after, save, htarget, Except.map] using hfile
    | ok place => simp [htarget, Except.toOption] at h
  | write => cases h
  | delete => exact Disk.file?_of_delete hfile
  | _ => exact hfile

end Scene

variable {past : List Disk} {kept : Kept}

/-- What is held stays held, whatever happens next, since a file is never written with an old time. -/
theorem Held.after {s : Scene} {e : Event} (h : Held past s.disk place kept)
    (hlater : s.Later past e) : Held (s.disk :: past) (s.after e).disk place kept := by
  refine ⟨?_, fun file hfile hfresh => ?_⟩
  · obtain ⟨d, hd, hdated⟩ := h.dated
    exact ⟨d, List.mem_cons_of_mem _ hd, hdated⟩
  · cases hwritten : s.written? e with
    | none => exact h.current file (Scene.file?_after_of_not_written hwritten hfile) hfresh
    | some change =>
      obtain ⟨written, new⟩ := change
      rw [Scene.disk_after_of_written hwritten] at hfile
      by_cases hplace : place = written
      · -- the new file is later than the one that is remembered
        subst hplace
        rw [Disk.file?_put_self] at hfile
        cases hfile
        obtain ⟨d, hd, old, hold, hdated⟩ := h.dated
        have hnew := hlater _ hwritten d hd old hold
        simp only at hnew
        omega
      · rw [Option.mem_def, Disk.file?_put_of_ne hplace] at hfile
        exact h.current file hfile hfresh

theorem held_of_file {file : File} {p : Project} (hfile : disk.file? place = some file)
    (htext : ofText file.content = .ok p) : Held past disk place ⟨p, file.modified⟩ where
  dated := ⟨disk, List.mem_cons_self, file, hfile, rfl⟩
  current f hf _ := by
    cases hfile.symm.trans hf
    exact htext

theorem forall_entries_keep {P : Place → Kept → Prop} (h : ∀ e ∈ s.store.entries, P e.1 e.2.1)
    (hkept : P place kept) : ∀ e ∈ (keep s place kept).store.entries, P e.1 e.2.1 := by
  unfold keep
  split
  · split
    · exact h
    · exact Recency.forall_entries_insert h hkept
  · exact Recency.forall_entries_insert h hkept

theorem forall_entries_request {P : Place → Kept → Prop} (h : ∀ e ∈ s.store.entries, P e.1 e.2.1)
    (place : Place) (good : Kept → Bool) :
    ∀ e ∈ (s.request place good).2.store.entries, P e.1 e.2.1 := by
  rw [Counted.request_store]
  exact Recency.forall_entries_get h place

theorem forall_entries_load {P : Place → Kept → Prop} (h : ∀ e ∈ s.store.entries, P e.1 e.2.1)
    (hread : ∀ place file p, disk.file? place = some file → ofText file.content = .ok p →
      P place ⟨p, file.modified⟩) :
    ∀ e ∈ (s.load disk path).2.store.entries, P e.1 e.2.1 := by
  have hloaded := loaded s disk path
  generalize (s.load disk path).1 = answer, (s.load disk path).2 = next at hloaded ⊢
  cases hloaded with
  | astray => exact h
  | remembered | unread => exact forall_entries_request h _ _
  | read hres hfile htext =>
    exact forall_entries_keep (forall_entries_request h _ _)
      (hread _ _ _ (Disk.file?_of_fileAt hfile) htext)

theorem forall_entries_invalidate {P : Place → Kept → Prop} (h : ∀ e ∈ s.store.entries, P e.1 e.2.1)
    (disk : Disk) (path : String) :
    ∀ e ∈ (s.invalidate disk path).2.store.entries, P e.1 e.2.1 := by
  unfold invalidate
  simp only
  split
  · exact h
  · exact Recency.forall_entries_remove h _

namespace Scene

variable {s : Scene} {e : Event}

def Coherent (past : List Disk) (s : Scene) : Prop :=
  ∀ e ∈ s.store.store.entries, Held past s.disk e.1 e.2.1

theorem coherent_initial (capacity : Nat) (disk : Disk) : Coherent [] (initial capacity disk) :=
  nofun

theorem Coherent.after (h : s.Coherent past) (hlater : s.Later past e)
    (hsaved : ∀ path p now, e = .save path p now → p.Readable) :
    (s.after e).Coherent (s.disk :: past) := by
  have hold : ∀ f ∈ s.store.store.entries, Held (s.disk :: past) (s.after e).disk f.1 f.2.1 :=
    fun f hf => (h f hf).after hlater
  cases e with
  | load path => exact forall_entries_load hold fun _ _ _ => held_of_file
  | save path p now =>
    cases htarget : target s.disk path with
    | error fault =>
      rw [after_save_of_target_error htarget] at hold ⊢
      exact hold
    | ok place =>
      rw [after_save_of_target htarget] at hold ⊢
      exact forall_entries_keep hold
        (held_of_file (Disk.file?_put_self _ _ _) (hsaved path p now rfl).ofText_text)
  | validate path => exact hold
  | invalidate path => exact forall_entries_invalidate hold s.disk path
  | clear =>
    intro f hf
    cases hf
  | write place file => exact hold
  | delete place => exact hold

theorem Coherent.run {events : List Event} (h : s.Coherent past) (hforward : s.Forward past events)
    (hsaved : ∀ path p now, .save path p now ∈ events → p.Readable) :
    ∃ past, (s.run events).Coherent past := by
  induction events generalizing s past with
  | nil => exact ⟨past, h⟩
  | cons e rest ih =>
    obtain ⟨hlater, hrest⟩ := hforward
    have hfirst : ∀ path p now, e = .save path p now → p.Readable := by
      rintro path p now rfl
      exact hsaved path p now List.mem_cons_self
    exact ih (h.after hlater hfirst) hrest fun path p now hp =>
      hsaved path p now (List.mem_cons_of_mem _ hp)

theorem Coherent.load_eq_fromDisk (h : s.Coherent past) (path : String) :
    (s.store.load s.disk path).1.mapError (StoreFault.shownAs path) = fromDisk s.disk path := by
  refine Store.load_eq_fromDisk fun place kept file hpeek hfile hfresh => ?_
  obtain ⟨tick, hmem⟩ := Recency.mem_of_peek? hpeek
  exact (h _ hmem).current file hfile hfresh

-- ---------------------------------------------------------------------------
-- Counts
-- ---------------------------------------------------------------------------

/-- The loads since the last clearing whose path led somewhere, after `n` such loads. -/
def tally (s : Scene) (n : Nat) : Event → Nat
  | .load path => if (s.disk.resolve path).isOk then n + 1 else n
  | .clear => 0
  | _ => n

def lookups (s : Scene) (n : Nat) : List Event → Nat
  | [] => n
  | e :: rest => lookups (s.after e) (s.tally n e) rest

end Scene

theorem requests_keep (s : Store) (place : Place) (kept : Kept) :
    (keep s place kept).hits + (keep s place kept).misses = s.hits + s.misses := by
  unfold keep
  split
  · split <;> rfl
  · rfl

theorem requests_request (s : Store) (place : Place) (good : Kept → Bool) :
    (s.request place good).2.hits + (s.request place good).2.misses = s.hits + s.misses + 1 := by
  simp only [Counted.request]
  split <;> simp only <;> omega

theorem requests_load (s : Store) (disk : Disk) (path : String) :
    (s.load disk path).2.hits + (s.load disk path).2.misses =
      if (disk.resolve path).isOk then s.hits + s.misses + 1 else s.hits + s.misses := by
  have hloaded := loaded s disk path
  generalize (s.load disk path).1 = answer, (s.load disk path).2 = next at hloaded ⊢
  cases hloaded with
  | astray hres => simp [hres, Except.isOk, Except.toBool]
  | remembered hres | unread hres =>
    rw [requests_request, hres]
    rfl
  | read hres =>
    rw [requests_keep, requests_request, hres]
    rfl

theorem Scene.requests_after (s : Scene) (e : Event) :
    (s.after e).store.hits + (s.after e).store.misses =
      s.tally (s.store.hits + s.store.misses) e := by
  cases e with
  | load path => exact requests_load s.store s.disk path
  | save path p now =>
    cases htarget : target s.disk path with
    | error fault =>
      rw [after_save_of_target_error htarget]
      rfl
    | ok place =>
      rw [after_save_of_target htarget]
      exact requests_keep _ _ _
  | invalidate path =>
    simp only [after, invalidate, tally]
    split <;> rfl
  | _ => rfl

theorem Scene.requests_run (s : Scene) (events : List Event) :
    (s.run events).store.hits + (s.run events).store.misses =
      s.lookups (s.store.hits + s.store.misses) events := by
  induction events generalizing s with
  | nil => rfl
  | cons e rest ih => exact (ih (s.after e)).trans (by rw [requests_after]; rfl)

/-- In every state that a history leads to, a load answers what a validation does, apart from the path by
which it shows the file; a validation changes nothing; and the counts tell the loads whose path led
somewhere. In the history every write gives its file a later time of change than all it had, and what is
saved can be read back. -/
theorem run_coherent (capacity : Nat) (disk : Disk) (events : List Event)
    (hforward : (Scene.initial capacity disk).Forward [] events)
    (hsaved : ∀ path p now, .save path p now ∈ events → p.Readable) :
    let s := (Scene.initial capacity disk).run events
    (∀ path, (s.store.load s.disk path).1.mapError (StoreFault.shownAs path) =
      fromDisk s.disk path) ∧
    (∀ path, s.after (.validate path) = s) ∧
    s.store.hits + s.store.misses = (Scene.initial capacity disk).lookups 0 events := by
  obtain ⟨past, hcoherent⟩ := (Scene.coherent_initial capacity disk).run hforward hsaved
  exact ⟨hcoherent.load_eq_fromDisk, fun _ => rfl, Scene.requests_run _ events⟩

-- ---------------------------------------------------------------------------
-- Histories
-- ---------------------------------------------------------------------------

instance Scene.decidableLater (past : List Disk) (s : Scene) (e : Event) :
    Decidable (Scene.Later past s e) :=
  inferInstanceAs (Decidable (∀ change ∈ s.written? e, ∀ disk ∈ s.disk :: past,
    ∀ old ∈ disk.file? change.1, old.modified < change.2.modified))

instance Scene.decidableForward :
    (past : List Disk) → (s : Scene) → (events : List Event) → Decidable (Scene.Forward past s events)
  | _, _, [] => inferInstanceAs (Decidable True)
  | past, s, e :: rest =>
    have := decidableForward (s.disk :: past) (s.after e) rest
    inferInstanceAs (Decidable (Scene.Later past s e ∧ Scene.Forward (s.disk :: past) (s.after e) rest))

def emptyFolder : Disk := ⟨["demo"], [["demo"]], []⟩

def rewritten : List Event :=
  [.write ["demo", "a.cel_variables.json"] ⟨"", 1000⟩, .load "a.cel_variables.json",
    .save "a.cel_variables.json" (holding (.list [.int 1])) 2000, .load "a.cel_variables.json",
    .delete ["demo", "a.cel_variables.json"], .load "a.cel_variables.json",
    .write ["demo", "a.cel_variables.json"] ⟨(empty "new").text, 3000⟩]

theorem values_holding {v : Value} (h : Settled .list v) : Dict.values (holding v).entries =
    [⟨"levels", .list, v, "", ProjectVariable.defaultCategory, none, [], false⟩] := by
  have hplain : checkName "levels" = .ok () := by decide
  have hfree : (empty "demo").contains "levels" = false := by decide
  simp only [holding, Project.run, List.foldl_cons, List.foldl_nil, Project.after, edited, add,
    hplain, hfree, Bool.false_eq_true, if_false, coerce_of_settled h]
  rfl

theorem storable_holding {v : Value} (h : Settled .list v) : (holding v).Storable ↔ v.Storable := by
  simp [Project.Storable, values_holding h]

theorem allShallow_holding {v : Value} (h : Settled .list v) : (holding v).AllShallow ↔ Shallow v := by
  simp [AllShallow, values_holding h]

theorem run_coherent_of_rewritten :
    (Scene.initial 1 emptyFolder).Forward [] rewritten ∧
      (∀ path p now, .save path p now ∈ rewritten → p.Readable) ∧
      let s := (Scene.initial 1 emptyFolder).run rewritten
      (s.store.load s.disk "a.cel_variables.json").1.mapError
        (StoreFault.shownAs "a.cel_variables.json") = fromDisk s.disk "a.cel_variables.json" ∧
      s.store.hits + s.store.misses = 2 := by
  have hforward : (Scene.initial 1 emptyFolder).Forward [] rewritten := by decide +kernel
  have hsaved : ∀ path p now, .save path p now ∈ rewritten → p.Readable := by
    intro path p now hp
    simp only [rewritten, List.mem_cons, reduceCtorEq, Event.save.injEq, false_or, List.not_mem_nil,
      or_false] at hp
    obtain ⟨-, rfl, -⟩ := hp
    have hsettled : Settled .list (.list [.int 1]) := ⟨rfl, rfl, by simp [isElement]⟩
    exact ⟨(holding_reached _).sound, (storable_holding hsettled).mpr ⟨trivial, trivial⟩,
      (allShallow_holding hsettled).mpr (by decide)⟩
  obtain ⟨hloads, -, hcounts⟩ := run_coherent 1 emptyFolder rewritten hforward hsaved
  exact ⟨hforward, hsaved, hloads _, hcounts.trans (by decide +kernel)⟩

/-- What cannot be read back is answered from memory all the same once it is saved. -/
theorem load_of_unreadable {capacity : Nat} {p : Project} {now : Int} {refusal : Refusal}
    (hsave : (save (Counted.empty capacity) disk now path p).1.isOk = true)
    (htext : ofText p.text = .error refusal) :
    let s := (Scene.initial capacity disk).run [.save path p now]
    (s.store.load s.disk path).1 = .ok p ∧
      fromDisk s.disk path = .error (.invalid (refusal.inFile path)) := by
  obtain ⟨_, hanswer⟩ := Except.isOk_iff.mp hsave
  obtain ⟨s', disk', hsave⟩ :
      ∃ s' disk', save (Counted.empty capacity) disk now path p = (.ok (), s', disk') :=
    ⟨_, _, Prod.ext hanswer rfl⟩
  have hrun : (Scene.initial capacity disk).run [.save path p now] = ⟨s', disk'⟩ := by
    simp only [Scene.initial, Scene.run, List.foldl_cons, List.foldl_nil, Scene.after, hsave]
  have hunknown : remembered? (Counted.empty capacity) disk' path = none := by
    unfold remembered?
    split <;> rfl
  have hload := load_save (Recency.sound_empty capacity) hsave
  rw [hunknown] at hload
  obtain ⟨place, hdest, rfl, rfl⟩ := save_eq_ok hsave
  simp only [hrun]
  refine ⟨hload, ?_⟩
  rw [fromDisk_of_resolve (Disk.resolve_put_of_destination hdest _), Disk.fileAt_put_self]
  simp only [Except.map, ofFile, htext]

def nested : Nat → Value
  | 0 => .list []
  | n + 1 => .list [nested n]

theorem isElement_nested (n : Nat) : isElement (nested n) = true := by
  cases n <;> rfl

theorem isFinite_nested (n : Nat) : isFinite (nested n) = true := by
  induction n with
  | zero => rfl
  | succ n ih => simp [nested, isFinite, areFinite, ih]

theorem settled_nested (n : Nat) : Settled .list (nested n) := by
  refine ⟨by cases n <;> rfl, isFinite_nested n, ?_⟩
  cases n with
  | zero =>
    rintro _ ⟨⟩ item hitem
    cases hitem
  | succ n =>
    rintro _ ⟨⟩ item hitem
    rw [List.mem_singleton.mp hitem]
    exact isElement_nested n

theorem storable_nested (n : Nat) : (nested n).Storable := by
  induction n with
  | zero => trivial
  | succ n ih => exact ⟨ih, trivial⟩

def saving (p : Project) : List Event := [.save "a.cel_variables.json" p 1000]

/-- A saved project is answered, though no look at the disk would, if a list is nested too deep or the
version is blank. A load of a folder is counted. -/
theorem run_coherent_of_unreadable :
    (let s := (Scene.initial 64 emptyFolder).run (saving (holding (nested 124)))
     (Scene.initial 64 emptyFolder).Forward [] (saving (holding (nested 124))) ∧
       (holding (nested 124)).Reached ∧ (holding (nested 124)).Storable ∧
       (s.store.load s.disk "a.cel_variables.json").1 = .ok (holding (nested 124)) ∧
       fromDisk s.disk "a.cel_variables.json" =
         .error (.invalid ⟨some "a.cel_variables.json", none, .malformed⟩)) ∧
    (let s := (Scene.initial 64 emptyFolder).run (saving { empty "demo" with version := "" })
     (s.store.load s.disk "a.cel_variables.json").1 = .ok { empty "demo" with version := "" } ∧
       fromDisk s.disk "a.cel_variables.json" =
         .error (.invalid ⟨some "a.cel_variables.json", none, .emptyVersion⟩)) ∧
    (let s := (Scene.initial 64 emptyFolder).run [.load "."]
     s.disk.files = [] ∧ s.store.hits + s.store.misses = 1) := by
  have hstorable : (holding (nested 124)).Storable :=
    (storable_holding (settled_nested 124)).mpr (storable_nested 124)
  have hdeep : ¬(holding (nested 124)).AllShallow := by
    rw [allShallow_holding (settled_nested 124)]
    decide +kernel
  have hblank : ofText (text { empty "demo" with version := "" }) =
      .error ⟨none, none, .emptyVersion⟩ := by
    refine ofText_text_of_blank ?_ ?_ (by decide) <;> intro w hw <;> cases hw
  refine ⟨⟨by decide +kernel, holding_reached _, hstorable, ?_⟩, ?_, rfl, by decide +kernel⟩
  · exact load_of_unreadable (by decide +kernel) (ofText_text_of_deep hstorable hdeep)
  · exact load_of_unreadable (by decide +kernel) hblank

end Store

end TradingRules.Project
