/-!
# Arguments of a command line

Arguments are flags with a value each and texts without a flag, in any order. Behind `--` all are
texts. The value of a flag is the next argument, which must not look like a flag itself, or stands
behind `=`, or directly behind a one-letter flag.
-/

namespace TradingRules.Arguments

/-- A flag that may be given once or, if it `repeats`, any number of times. The value of a flag for a
path is not empty. -/
structure Flag where
  name : String
  letter : Option Char
  repeats : Bool
  isPath : Bool
  deriving DecidableEq, Repr

namespace Flag

def text (name : String) : Flag := ⟨name, none, false, false⟩

def texts (name : String) : Flag := ⟨name, none, true, false⟩

def path (name : String) : Flag := ⟨name, none, false, true⟩

end Flag

/-- What was given: values by the name of their flag, and the texts, both in order. -/
structure Given where
  flags : List (String × String)
  texts : List String
  deriving DecidableEq, Repr

/-- How one argument reads. -/
inductive Shape where
  | rest
  | flag (f : Flag) (value : Option String)
  | text (s : String)
  | unknown

private def longShape (flags : List Flag) (body : List Char) : Shape :=
  let name := String.ofList (body.takeWhile (· != '='))
  let value := match body.dropWhile (· != '=') with
    | [] => none
    | _ :: value => some (String.ofList value)
  match flags.find? fun f => f.name == name with
  | some f => .flag f value
  | none => .unknown

private def shortShape (flags : List Flag) (letter : Char) (rest : List Char) : Shape :=
  let value := match rest with
    | [] => none
    | '=' :: value => some (String.ofList value)
    | value => some (String.ofList value)
  match flags.find? fun f => f.letter == some letter with
  | some f => .flag f value
  | none => .unknown

def shape (flags : List Flag) (argument : String) : Shape :=
  match argument.toList with
  | ['-', '-'] => .rest
  | '-' :: '-' :: body => longShape flags body
  | '-' :: letter :: rest => shortShape flags letter rest
  | _ => .text argument

private def looksLikeFlag (argument : String) : Bool :=
  match argument.toList with
  | '-' :: _ :: _ => true
  | _ => false

private def addFlag (f : Flag) (value : String) (given : Given) : Given :=
  { given with flags := (f.name, value) :: given.flags }

private def addText (s : String) (given : Given) : Given := { given with texts := s :: given.texts }

/-- `none` is a flag that is not known or has no value. -/
def scan? (flags : List Flag) : List String → Option Given
  | [] => some ⟨[], []⟩
  | argument :: rest =>
    match shape flags argument with
    | .rest => some ⟨[], rest⟩
    | .text s => (scan? flags rest).map (addText s)
    | .flag f (some value) => (scan? flags rest).map (addFlag f value)
    | .flag f none =>
      match rest with
      | [] => none
      | value :: rest =>
        if looksLikeFlag value then none else (scan? flags rest).map (addFlag f value)
    | .unknown => none

private def isSound (given : Given) (f : Flag) : Bool :=
  let values := (given.flags.filter fun e => e.1 == f.name).map Prod.snd
  (f.repeats || values.length ≤ 1) && (!f.isPath || values.all (· != ""))

/-- The arguments, if every flag is known, has a value and is not given too often. -/
def read? (flags : List Flag) (arguments : List String) : Option Given :=
  (scan? flags arguments).bind fun given =>
    if flags.all (isSound given) then some given else none

namespace Given

def value? (g : Given) (name : String) : Option String := g.flags.lookup name

def values (g : Given) (name : String) : List String :=
  (g.flags.filter fun e => e.1 == name).map Prod.snd

end Given

end TradingRules.Arguments
