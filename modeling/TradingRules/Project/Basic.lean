import TradingRules.Value.Basic
import TradingRules.Double.Magnitude
import TradingRules.Token.Basic
import TradingRules.Text.CharClass

/-!
# Project variables

A project holds variables under plain names. A variable has a declared type, which its value always
has; it can be protected against changes. Every refusal names its reason and, where it is about one
variable or one file, that variable and that file.
-/

namespace TradingRules

structure ProjectVariable where
  name : String
  type : VarType
  value : Value
  description : String
  category : String
  unit : Option String
  tags : List String
  readonly : Bool

structure Project where
  version : String
  name : String
  entries : Dict ProjectVariable

namespace Project

inductive Reason where
  | noVariableType (found : String)
  | mistyped (declared : VarType) (found : String)
  | notFinite
  | badElement (found : String)
  | badName
  | reservedRoot (name : String)
  | reservedWord (name : String)
  | alreadyDefined
  | noSuchVariable
  | readOnly
  | malformed
  | emptyVersion
  | unknownType (name : String)
  | fileName
  deriving DecidableEq, Repr

/-- The end of the names of files with project variables. -/
def fileEnding : String := ".cel_variables.json"

def Reason.text : Reason → String
  | .noVariableType found => found ++ " is not a storable variable type"
  | .mistyped declared found => "declared type " ++ declared.name ++ " but value is " ++ found
  | .notFinite => "float values must be finite (no NaN or infinity)"
  | .badElement found => "list elements must be scalars, found " ++ found
  | .badName => "name must start with a letter or '_' and contain only letters, digits and '_'"
  | .reservedRoot name => "'" ++ name ++ "' is a reserved namespace prefix"
  | .reservedWord name => "'" ++ name ++ "' is a reserved keyword"
  | .alreadyDefined => "already defined; use update_value to change it"
  | .noSuchVariable => "no such variable"
  | .readOnly => "variable is read-only"
  | .malformed => "malformed JSON"
  | .emptyVersion => "'version' must not be empty"
  | .unknownType name => "unknown type '" ++ name ++ "'"
  | .fileName => "file name must end with " ++ fileEnding

structure Refusal where
  file : Option String
  subject : Option String
  reason : Reason
  deriving DecidableEq, Repr

namespace Refusal

/-- A refusal that concerns one variable. -/
def about (name : String) (reason : Reason) : Refusal := ⟨none, some name, reason⟩

def inFile (r : Refusal) (file : String) : Refusal := { r with file := some file }

def place (r : Refusal) : String :=
  match r.file, r.subject with
  | some file, some name => " in " ++ file ++ " (variable '" ++ name ++ "')"
  | some file, none => " in " ++ file
  | none, some name => " (variable '" ++ name ++ "')"
  | none, none => ""

def message (r : Refusal) : String := "invalid project variables" ++ r.place ++ ": " ++ r.reason.text

end Refusal

/-! ## Names -/

/-- The roots of the names that other sources provide. -/
def reservedRoots : List String := ["chart", "bot", "indicators", "regime", "trade", "cfg"]

/-- Words kept back for expressions, besides its keywords. -/
def reservedWords : List String :=
  ["as", "break", "const", "continue", "else", "for", "function", "if", "import", "let", "loop",
    "package", "namespace", "return", "var", "void", "while"]

def isWord (name : List Char) : Bool :=
  match name with
  | [] => false
  | c :: rest =>
    (Text.isAsciiLetter c || c == '_') &&
      rest.all fun d => Text.isAsciiLetter d || Text.isAsciiDigit d || d == '_'

def checkName (name : String) : Except Refusal Unit :=
  if !isWord name.toList then .error (.about name .badName)
  else if name ∈ reservedRoots then .error (.about name (.reservedRoot name))
  else if name ∈ Token.keywords ∨ name ∈ reservedWords then .error (.about name (.reservedWord name))
  else .ok ()

/-! ## Values -/

mutual

/-- No float inside, at any depth of lists, is infinite or not a number. -/
def isFinite : Value → Bool
  | .float x => x.isFinite
  | .list items => areFinite items
  | _ => true

def areFinite : List Value → Bool
  | [] => true
  | v :: rest => isFinite v && areFinite rest

end

def isElement : Value → Bool
  | .null | .map _ => false
  | _ => true

/-- The value as one of the declared type. -/
def coerce (name : String) (type : VarType) (v : Value) : Except Refusal Value :=
  if !v.fits type then .error (.about name (.mistyped type v.typeName))
  else if !isFinite v then .error (.about name .notFinite)
  else match type, v with
    | .float, .int i => .ok (.float (.ofInt64 i))
    | .list, .list items =>
      match items.find? fun v => !isElement v with
      | some bad => .error (.about name (.badElement bad.typeName))
      | none => .ok (.list items)
    | _, v => .ok v

end Project

namespace ProjectVariable

open Project (Refusal)

def defaultCategory : String := "general"

/-- A plain variable with a declared type. -/
def typed (name : String) (type : VarType) (v : Value) : Except Refusal ProjectVariable :=
  (Project.coerce name type v).map fun v => ⟨name, type, v, "", defaultCategory, none, [], false⟩

/-- A plain variable with the type of its value. -/
def ofValue (name : String) (v : Value) : Except Refusal ProjectVariable :=
  match v.varType? with
  | some type => typed name type v
  | none => .error (.about name (.noVariableType v.typeName))

end ProjectVariable

namespace Project

def currentVersion : String := "1.0"

def empty (name : String) : Project := ⟨currentVersion, name, []⟩

def find? (p : Project) (name : String) : Option ProjectVariable := Dict.find? name p.entries

def contains (p : Project) (name : String) : Bool := Dict.contains p.entries name

/-! A change answers what was asked for, or why it is refused, and the project it leaves in either case. -/

/-- Adds a variable under a name that is free. -/
def add (p : Project) (v : ProjectVariable) : Except Refusal Unit × Project :=
  match checkName v.name with
  | .error r => (.error r, p)
  | .ok () =>
    if p.contains v.name then (.error (.about v.name .alreadyDefined), p)
    else
      match coerce v.name v.type v.value with
      | .error r => (.error r, p)
      | .ok value =>
        (.ok (), { p with entries := Dict.insert v.name { v with value := value } p.entries })

/-- Gives a variable another value of its type. -/
def update (p : Project) (name : String) (value : Value) : Except Refusal Unit × Project :=
  match p.find? name with
  | none => (.error (.about name .noSuchVariable), p)
  | some v =>
    if v.readonly then (.error (.about name .readOnly), p)
    else
      match coerce name v.type value with
      | .error r => (.error r, p)
      | .ok value =>
        (.ok (), { p with entries := Dict.insert name { v with value := value } p.entries })

/-- Takes a variable away and answers it. -/
def remove (p : Project) (name : String) : Except Refusal ProjectVariable × Project :=
  match p.find? name with
  | none => (.error (.about name .noSuchVariable), p)
  | some v =>
    if v.readonly then (.error (.about name .readOnly), p)
    else (.ok v, { p with entries := Dict.erase name p.entries })

/-- The project that a change leaves, for those who go on only if it is not refused. -/
def accepted {α : Type} (change : Except Refusal α × Project) : Except Refusal Project :=
  change.1.map fun _ => change.2

/-- Takes away all variables, protected ones too. -/
def clear (p : Project) : Project := { p with entries := [] }

def names (p : Project) : Names := Dict.names p.entries

def size (p : Project) : Nat := p.entries.length

def values (p : Project) : Dict Value := Dict.mapValues ProjectVariable.value p.entries

def inCategory (p : Project) (category : String) : List ProjectVariable :=
  (Dict.values p.entries).filter fun v => v.category == category

def withTag (p : Project) (tag : String) : List ProjectVariable :=
  (Dict.values p.entries).filter fun v => v.tags.contains tag

end Project

/-- Equality of variables with values compared strictly. -/
def ProjectVariable.same (a b : ProjectVariable) : Bool :=
  a.name == b.name && a.type == b.type && a.value.same b.value && a.description == b.description &&
    a.category == b.category && a.unit == b.unit && a.tags == b.tags && a.readonly == b.readonly

def Project.same (p q : Project) : Bool :=
  p.version == q.version && p.name == q.name && go p.entries q.entries
where
  go : Dict ProjectVariable → Dict ProjectVariable → Bool
    | [], [] => true
    | (j, a) :: as, (k, b) :: bs => j == k && a.same b && go as bs
    | _, _ => false

end TradingRules
