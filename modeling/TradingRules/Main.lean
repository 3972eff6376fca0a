import TradingRules.Command.Run
import Std.Time.DateTime.Timestamp

/-!
# The command line

Reads the files that a command names, runs it, prints its report and writes back what it changed.
-/

namespace TradingRules.CommandLine

def usage : String :=
  Report.lines [
    "Trading rule expression toolkit",
    "",
    "Usage: tradingrules <command>",
    "",
    "Commands:",
    "  validate <expression> [--function <name>]...",
    "  eval [<expression>] [<sources>]",
    "  variables [<sources>]",
    "  vars check <path>",
    "  vars show <path> [--category <name>]",
    "  vars set <path> <name> <value> [<notes>]",
    "  vars remove <path> <name>",
    "  functions [--category <name>]",
    "  regime --candles <path> [--rules <path>]",
    "",
    "Sources: --config, --candles, --vars, --indicators with a path; --set <name>=<value>",
    "Notes: --type, --description, --category, --unit with a text"]

/-- Takes over a file, or a folder, and the folders on the way. -/
def loadPath (disk : Disk) (path : String) : IO Disk := do
  let mut disk := disk
  let mut place : Place := if Path.isAbsolute path then [] else disk.here
  for part in Path.parts path do
    if part = ".." then place := place.dropLast
    else if part ≠ "" ∧ part ≠ "." then place := place ++ [part]
    let file := System.mkFilePath [Place.path place]
    if ← file.isDir then
      disk := { disk with folders := place :: disk.folders }
    else if ← file.pathExists then
      disk := disk.put place ⟨← IO.FS.readFile file, 0⟩
  return disk

/-- Loads what the command looks at, and then what the files loaded make it look at. -/
def load (c : Command) (disk : Disk) : IO Disk := do
  let disk ← (c.paths disk).foldlM loadPath disk
  (c.paths disk).foldlM loadPath disk

/-- Writes a file beside its place and then moves it there. -/
def writeFile (place : Place) (content : String) : IO Unit := do
  let path := Place.path place
  let draft := path ++ ".new"
  IO.FS.writeFile draft content
  IO.FS.rename draft path

/-- Writes the files that are not as they were. -/
def save (before after : Disk) : IO Unit := do
  for (place, file) in after.files do
    if (before.file? place).map File.content ≠ some file.content then
      writeFile place file.content

def present : IO Instant := do
  let t ← Std.Time.Timestamp.now
  return ⟨t.toSecondsSinceUnixEpoch.val, 0⟩

def perform (c : Command) : IO UInt32 := do
  let here := Path.components (← IO.currentDir).toString
  let folders := (List.range (here.length + 1)).map here.take
  let disk ← load c ⟨here, folders, []⟩
  let report := c.run disk (← present)
  save disk report.disk
  IO.print report.output
  IO.eprint report.errors
  match report.trouble with
  | some (.evaluation .abort) => return 101
  | _ => return UInt32.ofNat report.exitCode

end TradingRules.CommandLine

open TradingRules in
def main (arguments : List String) : IO UInt32 := do
  match Command.ofArguments? arguments with
  | some c => CommandLine.perform c
  | none =>
    if arguments.any fun a => a = "-h" || a = "--help" then
      IO.print CommandLine.usage
      return 0
    else
      IO.eprint CommandLine.usage
      return 2
