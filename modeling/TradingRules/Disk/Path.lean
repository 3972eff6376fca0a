import TradingRules.Text.Search

/-!
# Paths as texts

A path is a list of names between slashes. An empty name and a `.` behind another name say nothing;
`..` is the folder around. Nothing here looks at a disk.
-/

namespace TradingRules.Path

def isAbsolute (path : String) : Bool := path.toList.head? == some '/'

/-- All parts between the slashes. -/
def parts (path : String) : List String := (Text.splitOn ['/'] path.toList).map String.ofList

/-- A name, or the folder around. -/
def isTelling (part : String) : Bool := part != "" && part != "."

/-- The parts that say something: a `.` does so only at the start of a relative path. -/
def components (path : String) : List String :=
  match parts path with
  | [] => []
  | first :: rest => (if first = "" then [] else [first]) ++ rest.filter isTelling

/-- The folder part as it is spelled, up to the slashes before the last name; `none` for the root and
the empty path. -/
def parent? (path : String) : Option String :=
  match parts path with
  | [] => none
  | first :: rest =>
    match rest.reverse.dropWhile fun part => !isTelling part with
    | [] => if first = "" then none else some ""
    | _ :: before =>
      match (before.dropWhile fun part => !isTelling part).reverse with
      | [] => some (if first = "" then "/" else first)
      | front => some (String.intercalate "/" (first :: front))

/-- The last name, unless it is no name of a file. -/
def fileName? (path : String) : Option String :=
  match (components path).getLast? with
  | some "." | some ".." | none => none
  | some name => some name

/-- The file name without what follows its last point; a point at the start belongs to the name. -/
def stem (path : String) : String :=
  match fileName? path with
  | none => ""
  | some name =>
    let reversed := name.toList.reverse
    match (reversed.dropWhile (· != '.')).drop 1 with
    | [] => name
    | before => String.ofList before.reverse

def join (folder name : String) : String :=
  if isAbsolute name then name
  else if folder = "" || folder.toList.getLast? == some '/' then folder ++ name
  else folder ++ "/" ++ name

end TradingRules.Path
