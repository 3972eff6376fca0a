import TradingRules.Disk.Path

/-!
# A disk as a value

Folders and files by their place, which is the list of names from the root. A path is followed name
by name from the root or from the present folder. Every file carries the time of its last change.
There are no links, access rights or full disks.
-/

namespace TradingRules

abbrev Place := List String

namespace Place

/-- The absolute path of a place. -/
def path (p : Place) : String := "/" ++ String.intercalate "/" p

/-- The place an absolute path spells, without looking at a disk. -/
def ofPath? (path : String) : Option Place :=
  if Path.isAbsolute path then some (Path.components path) else none

end Place

structure File where
  content : String
  modified : Int
  deriving DecidableEq, Repr, Inhabited

structure Disk where
  here : Place
  folders : List Place
  files : List (Place × File)
  deriving DecidableEq, Repr

namespace Disk

inductive Fault where
  | missing
  | busy
  | notFolder
  | isFolder
  | invalid
  | nameTooLong
  | nulByte
  deriving DecidableEq, Repr

def Fault.text : Fault → String
  | .missing => "No such file or directory (os error 2)"
  | .busy => "Device or resource busy (os error 16)"
  | .notFolder => "Not a directory (os error 20)"
  | .isFolder => "Is a directory (os error 21)"
  | .invalid => "Invalid argument (os error 22)"
  | .nameTooLong => "File name too long (os error 36)"
  | .nulByte => "file name contained an unexpected NUL byte"

/-- The most bytes of a name. -/
def longestName : Nat := 255

/-- The most bytes of a path. -/
def longestPath : Nat := 4095

def isFolder (d : Disk) (p : Place) : Bool := p.isEmpty || d.folders.contains p

def file? (d : Disk) (p : Place) : Option File := d.files.lookup p

def step (d : Disk) (present : Place) (part : String) : Except Fault Place :=
  if !d.isFolder present then .error .notFolder
  else if part = "" || part = "." then .ok present
  else if part = ".." then .ok present.dropLast
  else if longestName < part.utf8ByteSize then .error .nameTooLong
  else
    let next := present ++ [part]
    if d.isFolder next || (d.file? next).isSome then .ok next else .error .missing

/-- Where the parts of a path are followed from. -/
def start (d : Disk) (path : String) : Place := if Path.isAbsolute path then [] else d.here

def hasNul (path : String) : Bool := path.toList.any fun c => c.toNat == 0

/-- The place a path leads to. -/
def resolve (d : Disk) (path : String) : Except Fault Place :=
  if hasNul path then .error .nulByte
  else if path = "" then .error .missing
  else if longestPath < path.utf8ByteSize then .error .nameTooLong
  else (Path.parts path).foldlM d.step (d.start path)

/-- The place of a file that is moved to a path. A slash at the end asks for a folder, and there is
none to be moved. -/
def destination (d : Disk) (path : String) : Except Fault Place := do
  if hasNul path then throw .invalid
  if path = "" then throw .missing
  if longestPath < path.utf8ByteSize then throw .nameTooLong
  let backwards := (Path.parts path).reverse
  match backwards.dropWhile (· == "") with
  | [] => throw .busy
  | name :: front =>
    let folder ← front.reverse.foldlM d.step (d.start path)
    if !d.isFolder folder then throw .notFolder
    if name = "." || name = ".." then throw .busy
    if longestName < name.utf8ByteSize then throw .nameTooLong
    if backwards.head? = some "" then throw .notFolder
    if d.isFolder (folder ++ [name]) then throw .isFolder
    return folder ++ [name]

def fileAt (d : Disk) (p : Place) : Except Fault File :=
  match d.file? p with
  | some f => .ok f
  | none => .error (if d.isFolder p then .isFolder else .missing)

/-- The content of the file a path leads to. -/
def read (d : Disk) (path : String) : Except Fault String := do
  return (← d.fileAt (← d.resolve path)).content

/-- Puts a file at a place, over any file there. -/
def put (d : Disk) (p : Place) (f : File) : Disk :=
  { d with files := (p, f) :: d.files.filter fun e => e.1 != p }

def delete (d : Disk) (p : Place) : Disk :=
  { d with files := d.files.filter fun e => e.1 != p }

/-- The folder that a new file at a path would be in. -/
def folderOf (path : String) : String :=
  match Path.parent? path with
  | none | some "" => "."
  | some folder => folder

/-- The names of the files in a folder. -/
def listing (d : Disk) (p : Place) : List String :=
  (d.files.map Prod.fst).filterMap fun q =>
    match q.getLast? with
    | some name => if q.dropLast = p then some name else none
    | none => none

end Disk

end TradingRules
