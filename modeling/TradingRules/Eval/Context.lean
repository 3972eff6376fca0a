import TradingRules.Value.Basic
import TradingRules.Calendar.Basic
import TradingRules.Eval.Failure
import TradingRules.Text.Search

/-!
# Contexts

A context maps flat names to values and carries the clock. A name may contain points; all names below
`trade.` together are the namespace `trade`, which is folded into one map when it is looked up.
-/

namespace TradingRules

structure Context where
  values : Dict Value
  clock : Instant

namespace Context

def find? (c : Context) (name : String) : Option Value := Dict.find? name c.values

def insert (c : Context) (name : String) (v : Value) : Context :=
  { c with values := Dict.insert name v c.values }

def extend (c : Context) (entries : List (String × Value)) : Context :=
  entries.foldl (fun c (name, v) => c.insert name v) c

/-- Puts a value at a place below a map. A map that deeper names have made stays; any other value on
the way gives room to a map. -/
def insertNested : List String → Value → Dict Value → Dict Value
  | [], _, fields => fields
  | [name], v, fields =>
    match Dict.find? name fields with
    | some (.map _) => fields
    | _ => Dict.insert name v fields
  | name :: rest, v, fields =>
    let inner := match Dict.find? name fields with
      | some (.map inner) => inner
      | _ => []
    Dict.insert name (.map (insertNested rest v inner)) fields

/-- The components of what stands behind `root.` in a name. -/
def below? (root name : String) : Option (List String) :=
  let lead := root.toList ++ ['.']
  if lead.isPrefixOf name.toList then
    some ((Text.splitOn ['.'] (name.toList.drop lead.length)).map String.ofList)
  else none

/-- The entries below a root as one map, in the order in which they are given. -/
def fold (root : String) (entries : List (String × Value)) : Dict Value :=
  entries.foldl
    (fun fields (name, v) =>
      match below? root name with
      | some place => insertNested place v fields
      | none => fields)
    []

/-- The map of everything below a name, `none` if there is nothing. -/
def namespace? (c : Context) (root : String) : Option Value :=
  match fold root c.values with
  | [] => none
  | fields => some (.map fields)

/-- The value of the name itself comes before the namespace below it. -/
def lookup? (c : Context) (path : String) : Option Value :=
  match c.find? path with
  | some v => some v
  | none => c.namespace? path

end Context

/-- Something that recomputes the market regime on request and reports it. -/
class RegimeHost (σ : Type) where
  /-- Recomputes; false when there is nothing to compute from. -/
  recompute : σ → Bool × σ
  lastClosed : σ → String
  changed : σ → Bool
  current : σ → String

/-- A host that always answers the same. -/
structure FixedHost where
  recomputed : Bool
  lastClosed : String
  changed : Bool
  current : String
  deriving DecidableEq, Repr, Inhabited

instance : RegimeHost FixedHost where
  recompute h := (h.recomputed, h)
  lastClosed := FixedHost.lastClosed
  changed := FixedHost.changed
  current := FixedHost.current

/-- What a host reports at one moment. -/
structure RegimeReport where
  lastClosed : String
  changed : Bool
  current : String

def RegimeHost.report {σ : Type} [RegimeHost σ] (host : σ) : RegimeReport :=
  ⟨lastClosed host, changed host, current host⟩

/-- A run of an evaluation: it may fail, and it hands on the host, which a call may have made
recompute, also when it fails. -/
abbrev Run (σ : Type) := ExceptT Failure (StateM (Option σ))

namespace Run

variable {σ : Type}

def ofExcept {α : Type} : Except Failure α → Run σ α
  | .ok a => pure a
  | .error e => throw e

/-- Recomputes the regime if there is a host. -/
def recompute [RegimeHost σ] : Run σ Bool := do
  match ← get with
  | none => return false
  | some host =>
    let (done, next) := RegimeHost.recompute host
    set (some next)
    return done

end Run

/-- What a function can see besides its arguments: the context and what the host reports. -/
structure View where
  context : Context
  report : Option RegimeReport

end TradingRules
