import TradingRules.Dict
import TradingRules.Decimal.Reading
import TradingRules.Text.Blank
import TradingRules.Text.Case
import TradingRules.Text.Search

/-!
# Configuration files

A file is a list of lines: headings in square brackets, keys with values behind `=` or `:`, and
comments behind `;` or `#`. Headings and keys are taken in lower case. Keys before the first heading
belong to the section `default`; a section may be continued further down, and a later value of a key
replaces an earlier one.
-/

namespace TradingRules

/-- The entries of a section; a key may stand alone. -/
abbrev ConfigSection := Dict (Option String)

structure Config where
  source : String
  sections : Dict ConfigSection

namespace Config

/-- What one line says. -/
inductive Line where
  | heading (name : String)
  | entry (key : String) (value : Option String)
  | nothing
  deriving DecidableEq, Repr

private def uncommented (line : List Char) : List Char :=
  line.takeWhile fun c => c != ';' && c != '#'

/-- The text up to the last closing bracket. -/
private def headingOf? (rest : List Char) : Option (List Char) :=
  match rest.reverse.dropWhile (· != ']') with
  | [] => none
  | _ :: before => some before.reverse

private def lowered (text : List Char) : String := Text.lower (String.ofList (Text.trim text))

private def isDelimiter (c : Char) : Bool := c == '=' || c == ':'

/-- `none` is a heading that is not closed, or a value without a key. -/
def lineOf? (line : String) : Option Line :=
  match Text.trim (uncommented line.toList) with
  | [] => some .nothing
  | '[' :: rest => (headingOf? rest).map fun name => .heading (lowered name)
  | text =>
    let key := lowered (text.takeWhile fun c => !isDelimiter c)
    match text.dropWhile fun c => !isDelimiter c with
    | [] => some (.entry key none)
    | _ :: value =>
      if key = "" then none else some (.entry key (some (String.ofList (Text.trim value))))

private structure State where
  present : String
  sections : Dict ConfigSection

private def State.add (s : State) : Line → State
  | .nothing => s
  | .heading name =>
    ⟨name, if Dict.contains s.sections name then s.sections else Dict.insert name [] s.sections⟩
  | .entry key value =>
    let entries := (Dict.find? s.present s.sections).getD []
    { s with sections := Dict.insert s.present (Dict.insert key value entries) s.sections }

/-- The name shown for a text that comes from no file. -/
def inlineSource : String := "<inline>"

def ofText? (source text : String) : Option Config :=
  ((Text.lines text).mapM lineOf?).map fun lines =>
    ⟨source, (lines.foldl State.add ⟨"default", []⟩).sections⟩

/-! ## Reading values -/

def sectionNames (c : Config) : Names := Dict.names c.sections

def keys (c : Config) (heading : String) : Names :=
  Dict.names ((Dict.find? (Text.lower heading) c.sections).getD [])

/-- The value of a key; an empty value counts as none. -/
def string? (c : Config) (heading key : String) : Option String := do
  let entries ← Dict.find? (Text.lower heading) c.sections
  let value ← (← Dict.find? (Text.lower key) entries)
  if value = "" then none else some value

def has (c : Config) (heading key : String) : Bool := (c.string? heading key).isSome

def int? (c : Config) (heading key : String) : Option Int64 :=
  (c.string? heading key).bind fun s => Decimal.readInt64? s.toList

def float? (c : Config) (heading key : String) : Option Double :=
  (c.string? heading key).bind fun s => Decimal.readDouble? s.toList

private def boolOf? (word : String) : Option Bool :=
  match Text.lower word with
  | "true" | "yes" | "on" | "1" => some true
  | "false" | "no" | "off" | "0" => some false
  | _ => none

def bool? (c : Config) (heading key : String) : Option Bool := (c.string? heading key).bind boolOf?

end Config

end TradingRules
