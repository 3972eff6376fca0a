import TradingRules.Project.Document
import TradingRules.Cache.Counted
import TradingRules.Disk.Basic

/-!
# A store of project files

The store remembers projects by the place of their file, with the time of change the file had when it
was read. A remembered project is used as long as its file is not newer.
-/

namespace TradingRules.Project

inductive StoreFault where
  | missing (path : String)
  | unreadable (path : String) (fault : Disk.Fault)
  | invalid (refusal : Refusal)
  deriving DecidableEq, Repr

namespace StoreFault

def message : StoreFault → String
  | .missing path => "project variable file not found: " ++ path
  | .unreadable path fault => "i/o error on " ++ path ++ ": " ++ fault.text
  | .invalid refusal => refusal.message

def ofDisk (path : String) : Disk.Fault → StoreFault
  | .missing => .missing path
  | fault => .unreadable path fault

end StoreFault

/-- The project in a file that is shown as `path`. -/
def ofFile (path : String) (file : Except Disk.Fault String) : Except StoreFault Project :=
  match file with
  | .error fault => .error (.ofDisk path fault)
  | .ok content =>
    match ofText content with
    | .ok p => .ok p
    | .error refusal => .error (.invalid (refusal.inFile path))

/-- Reads a file without any memory. -/
def fromDisk (disk : Disk) (path : String) : Except StoreFault Project :=
  ofFile path (disk.read path)

def isFileName (path : String) : Bool :=
  match Path.fileName? path with
  | some name => fileEnding.toList.isSuffixOf name.toList
  | none => false

def checkFileName (path : String) : Except Refusal Unit :=
  if isFileName path then .ok () else .error ⟨some path, none, .fileName⟩

/-- The file of a project in a folder. -/
def filePath (folder name : String) : String := Path.join folder (name ++ fileEnding)

/-- The name of a project that is to be kept in a file. -/
def nameOfFile (path : String) : String :=
  let name := ((Path.fileName? path).getD "").toList
  if fileEnding.toList.isSuffixOf name then
    String.ofList (name.take (name.length - fileEnding.length))
  else String.ofList name

/-- A project as it was in its file, and when that file had been changed. -/
structure Kept where
  project : Project
  modified : Int

abbrev Store := Counted Place Kept

namespace Store

def defaultCapacity : Nat := 64

/-- What is known of a file that is newer is not replaced. -/
def keep (s : Store) (place : Place) (kept : Kept) : Store :=
  match s.store.peek? place with
  | some known => if kept.modified < known.modified then s else s.insert place kept
  | none => s.insert place kept

/-- Whether a remembered project is as new as its file. -/
def isFresh (file : Except Disk.Fault File) (kept : Kept) : Bool :=
  match file with
  | .ok file => file.modified ≤ kept.modified
  | .error _ => false

def load (s : Store) (disk : Disk) (path : String) : Except StoreFault Project × Store :=
  match disk.resolve path with
  | .error fault => (.error (.ofDisk path fault), s)
  | .ok place =>
    let file := disk.fileAt place
    match s.request place (isFresh file) with
    | (some kept, s) => (.ok kept.project, s)
    | (none, s) =>
      match ofFile place.path (file.map File.content), file with
      | .ok p, .ok file => (.ok p, Store.keep s place ⟨p, file.modified⟩)
      | .ok p, .error _ => (.ok p, s)
      | .error fault, _ => (.error fault, s)

/-- Where a file at a path would be put. It is written in the folder of the path first and then moved
to the path; if it cannot be moved, nothing of it is left. -/
def target (disk : Disk) (path : String) : Except StoreFault Place := do
  let folder := Disk.folderOf path
  let place ← (disk.resolve folder).mapError (.ofDisk folder)
  if !disk.isFolder place then throw (.unreadable folder .notFolder)
  (disk.destination path).mapError (.ofDisk path)

/-- Where a path leads, and when the file there was changed. -/
def stat (disk : Disk) (path : String) : Except StoreFault (Place × Int) := do
  let place ← (disk.resolve path).mapError (.ofDisk path)
  let file ← (disk.fileAt place).mapError (.ofDisk place.path)
  return (place, file.modified)

/-- Writes a project to a file, changed at the time `now`, and looks the file up again to remember it.
The store and the disk are those it leaves, whether it succeeds or not. -/
def save (s : Store) (disk : Disk) (now : Int) (path : String) (p : Project) :
    Except StoreFault Unit × Store × Disk :=
  match target disk path with
  | .error fault => (.error fault, s, disk)
  | .ok place =>
    let disk := disk.put place ⟨p.text, now⟩
    match stat disk path with
    | .error fault => (.error fault, s, disk)
    | .ok (place, modified) => (.ok (), s.keep place ⟨p, modified⟩, disk)

/-- Forgets a file; whether it was known. A path that leads nowhere is taken by its spelling. -/
def invalidate (s : Store) (disk : Disk) (path : String) : Bool × Store :=
  let place? := match disk.resolve path with
    | .ok place => some place
    | .error _ => Place.ofPath? path
  match place? with
  | none => (false, s)
  | some place =>
    let (found, store) := s.store.remove place
    (found.isSome, { s with store })

def isKept (s : Store) (disk : Disk) (path : String) : Bool :=
  match disk.resolve path with
  | .ok place => s.store.contains place
  | .error _ => false

end Store

end TradingRules.Project
