/-!
# Tables as text

A table is a list of records of fields between commas. A field may stand in double quotes; inside
them a quote is written twice, and commas and line ends belong to the field. Empty lines are no
records. Every record knows the line at which the reader stood before it.
-/

namespace TradingRules.Table

structure Record where
  line : Nat
  fields : List String
  deriving DecidableEq, Repr

/-- Where the reader is: before a record, before a field, in a field with or without quotes, or
behind a quote inside quotes. -/
inductive Place where
  | recordStart
  | fieldStart
  | plain
  | quoted
  | behindQuote
  deriving DecidableEq, Repr

/-- `field` holds the characters of the present field and `fields` the finished ones, last first. -/
structure Reader where
  place : Place
  field : List Char
  fields : List String
  stood : Nat
  line : Nat
  records : List Record

namespace Reader

def start : Reader := ⟨.recordStart, [], [], 1, 1, []⟩

private def take (r : Reader) (c : Char) (place : Place) : Reader :=
  { r with field := c :: r.field, place := place }

private def endField (r : Reader) : Reader :=
  { r with
    fields := String.ofList r.field.reverse :: r.fields
    field := []
    place := .fieldStart }

private def endRecord (r : Reader) : Reader :=
  let r := r.endField
  { r with
    records := ⟨r.stood, r.fields.reverse⟩ :: r.records
    fields := []
    stood := r.line
    place := .recordStart }

private def isLineEnd (c : Char) : Bool := c == '\n' || c == '\r'

/-- A comma or a line end outside quotes, or a character of a field. -/
private def unquoted (r : Reader) (c : Char) : Reader :=
  if c = ',' then r.endField
  else if isLineEnd c then r.endRecord
  else r.take c .plain

def step (r : Reader) (c : Char) : Reader :=
  let r := if c = '\n' then { r with line := r.line + 1 } else r
  match r.place with
  | .recordStart =>
    if isLineEnd c then r
    else if c = '"' then { r with place := .quoted }
    else r.unquoted c
  | .fieldStart => if c = '"' then { r with place := .quoted } else r.unquoted c
  | .plain => r.unquoted c
  | .quoted => if c = '"' then { r with place := .behindQuote } else r.take c .quoted
  | .behindQuote => if c = '"' then r.take c .quoted else r.unquoted c

/-- The records read; the end of the text ends a record, also inside quotes. -/
def finish (r : Reader) : List Record :=
  match r.place with
  | .recordStart => r.records.reverse
  | _ => r.endRecord.records.reverse

end Reader

/-- A mark of the byte order in front of a text is no part of it. -/
private def unmarked : List Char → List Char
  | '\uFEFF' :: rest => rest
  | text => text

def records (text : String) : List Record :=
  ((unmarked text.toList).foldl Reader.step Reader.start).finish

end TradingRules.Table
