import TradingRules.Session.Trouble
import TradingRules.Source.Field
import TradingRules.Regime.Classifier
import TradingRules.Validation.Problem
import TradingRules.Value.Text

/-!
# Reports

What a command prints and how it ends. Columns are padded with blanks and never cut.
-/

namespace TradingRules

/-- The lines for the output and for the errors, the trouble if there was one, and the disk as the
command leaves it. -/
structure Report where
  output : String
  errors : String
  exitCode : Nat
  trouble : Option Trouble
  disk : Disk

namespace Report

def line (text : String) : String := text ++ "\n"

/-- The text of lines, each with its end. -/
def lines (texts : List String) : String := String.join (texts.map line)

def done (disk : Disk) (output : String) : Report := ⟨output, "", 0, none, disk⟩

/-- A command that failed; `errors` was printed before the trouble is told. -/
def failed (disk : Disk) (t : Trouble) (errors : String := "") : Report :=
  ⟨"", errors ++ line ("error: " ++ t.message), t.exitCode, some t, disk⟩

def ofExcept (disk : Disk) : Except Trouble String → Report
  | .ok output => done disk output
  | .error t => failed disk t

def padded (width : Nat) (text : String) : String :=
  text ++ String.ofList (List.replicate (width - text.length) ' ')

/-- A row of columns, the last one as it is. -/
def row (columns : List (Nat × String)) (last : String) : String :=
  String.join (columns.map fun (width, text) => padded width text ++ " ") ++ last

/-- A variable in a listing. One without a value has a dash. -/
def variableLine (name : String) (info : VariableInfo) : String :=
  let value := if info.value.isNull then "-" else info.value.text
  row [(32, name), (8, info.type), (10, info.source), (20, value)] (info.unit.getD "")

/-- A variable of a project. Types and values stand without padding. -/
def projectLine (v : ProjectVariable) : String :=
  row [(24, v.name), (0, v.type.name), (0, v.value.text), (8, v.unit.getD ""), (12, v.category)]
    v.description

/-- A problem below the line of the source it is about. -/
def problemLines (source : List String) (p : Validation.Problem) : List String :=
  let quotation := match source[p.line - 1]? with
    | none => []
    | some text => [text, String.ofList (List.replicate (p.column - 1) ' ') ++ "^"]
  quotation ++ [p.text]

def snapshotLine (title : String) (s : Regime.Snapshot) : String :=
  let time := (s.barTime.map Instant.text).getD "-"
  padded 12 title ++ " " ++ s.label ++ " (priority " ++ toString s.priority.toInt ++ ", bar " ++
    time ++ ")"

def indicatorLine (name : String) (x : Double) : String :=
  "  " ++ padded 16 name ++ " " ++ Decimal.fixedText 4 x

end Report

end TradingRules
