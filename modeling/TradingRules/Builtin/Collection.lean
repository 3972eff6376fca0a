import TradingRules.Builtin.Math
import TradingRules.Decimal.Reading
import TradingRules.Double.Whole
import TradingRules.Text.Search

/-!
# Lists, maps and membership

`has`, `exists`, `exists_one`, `map` and `filter` are macros of the grammar and stand here by name
only. `all` and `any` are macros too and, over a list of booleans, functions.
-/

namespace TradingRules.Builtin.Collection

def size : Value → Except Failure Value
  | .list items => .ok (.int (Int64.ofNat items.length))
  | .map fields => .ok (.int (Int64.ofNat fields.length))
  | .str s => .ok (.int (Int64.ofNat s.length))
  | v => .error (.typeMismatch "size" "list, map or string" v.typeName)

def bools (name : String) (values : List Value) : Except Failure (List Bool) :=
  values.mapM fun v => match v with
    | .bool b => .ok b
    | v => .error (.typeMismatch name "list of bool" v.typeName)

/-- Integers add exactly; one float makes the sum a float. -/
def sumCore (whole : Int) (fits : Bool) (real : Double) (ints : Bool) :
    List Value → Except Failure Value
  | [] =>
    if !ints then .ok (.float real)
    else if fits then .ok (.int (Int64.ofInt whole))
    else .error (.typeMismatch "sum" "int64 range" "overflow")
  | .int i :: rest =>
    let total := whole + i.toInt
    sumCore total (fits && Decimal.inInt64 total) (real + .ofInt64 i) ints rest
  | .float x :: rest => sumCore whole fits (real + x) false rest
  | v :: _ => .error (.typeMismatch "sum" "list of numbers" v.typeName)

def sum (values : List Value) : Except Failure Value := sumCore 0 true 0 true values

def nonempty (name : String) (values : List Value) : Except Failure (List Value) :=
  if values.isEmpty then .error (.function name "empty list") else .ok values

def average (values : List Value) : Except Failure Value := do
  let values ← nonempty "avg" values
  let total := (← sum values).asDouble?.getD Double.notANumber
  return .float (total / Double.ofNat values.length)

/-- The position of an element or a part, `-1` if there is none. -/
def indexOf (hay needle : Value) : Except Failure Value :=
  let found : Option Nat → Value
    | some i => .int (Int64.ofNat i)
    | none => .int (-1)
  match hay, needle with
  | .list items, needle => .ok (found (items.findIdx? fun v => v.looseEq needle))
  | .str s, .str part => .ok (found (Text.indexOf? part.toList s.toList))
  | hay, _ => .error (.typeMismatch "indexOf" "list or string" hay.typeName)

def contains (hay needle : Value) : Except Failure Value :=
  match hay, needle with
  | .str s, .str part => .ok (.bool (Text.contains s.toList part.toList))
  | .list items, needle => .ok (.bool (items.any fun v => v.looseEq needle))
  | hay, _ => .error (.typeMismatch "contains" "string or list" hay.typeName)

/-- A negative position counts from the end; positions outside are moved to the nearest end. -/
def bound (i : Int64) (length : Nat) : Nat :=
  let place := if i < 0 then length + i.toInt else i.toInt
  min place.toNat length

/-- The elements from `start` up to `stop`, both within the list; none if `stop` is not behind. -/
def slice (values : List Value) (start stop : Nat) : Except Failure Value :=
  if stop ≤ start then .ok (.list []) else do return .list (← Strict.part values start stop)

/-- What a scalar is under loose equality: a float without a fraction is the integer it equals. -/
inductive ScalarKey where
  | null
  | bool (b : Bool)
  | int (i : Int64)
  | float (bits : UInt64)
  | str (s : String)
  deriving DecidableEq

/-- Lists and maps have no key. -/
def scalarKey? : Value → Option ScalarKey
  | .null => some .null
  | .bool b => some (.bool b)
  | .int i => some (.int i)
  | .float x =>
    let whole := x.toInt64
    if x.fractional == 0 && .ofInt64 whole == x then some (.int whole)
    else some (.float x.bits)
  | .str s => some (.str s)
  | .list _ | .map _ => none

def distinctCore (seen : List ScalarKey) (composites : List Value) :
    List Value → List Value
  | [] => []
  | v :: rest =>
    match scalarKey? v with
    | some key =>
      if key ∈ seen then distinctCore seen composites rest
      else v :: distinctCore (key :: seen) composites rest
    | none =>
      if composites.any fun c => c.looseEq v then distinctCore seen composites rest
      else v :: distinctCore seen (v :: composites) rest

/-- The first of the elements that are equal, in order. -/
def distinct (values : List Value) : List Value := distinctCore [] [] values

def rank (v : Value) : Int := (v.asDouble?.getD Double.notANumber).totalRank

def spelling (v : Value) : String := v.asString?.getD ""

/-- Ascending numbers or strings; equal elements keep their order. -/
def sort (values : List Value) : Except Failure (List Value) :=
  if values.all Value.isNumber then .ok (values.mergeSort fun a b => rank a ≤ rank b)
  else if values.all fun v => v.asString?.isSome then
    .ok (values.mergeSort fun a b => spelling a ≤ spelling b)
  else .error (.typeMismatch "sort" "all numbers or all strings" "mixed list")

def count (values : List Value) (needle : Value) : Nat := values.countP fun v => v.looseEq needle

def macroNamed (name description : String) : Function :=
  ⟨⟨name, .collection, .atLeast 0, [], "any", description, false, true⟩, .reads fun _ _ => .ok .null⟩

def functions : List Function := [
  .of .collection "size" [.any] "int" "Length of a list, map or string" fun args _ => do
    size (← argument args 0),
  macroNamed "has" "Field presence test: has(trade.side)",
  macroNamed "exists" "list.exists(x, predicate): any element matches",
  macroNamed "exists_one" "list.exists_one(x, predicate): exactly one element matches",
  macroNamed "map" "list.map(x, expression): transform each element",
  macroNamed "filter" "list.filter(x, predicate): keep matching elements",
  .of .collection "all" [.list] "bool"
    "Every bool in the list is true; also list.all(x, predicate)" fun args _ => do
      return .bool ((← bools "all" (items args 0)).all id),
  .of .collection "any" [.list] "bool"
    "Some bool in the list is true; also list.any(x, predicate)" fun args _ => do
      return .bool ((← bools "any" (items args 0)).any id),
  .of .collection "sum" [.list] "number" "Sum of numbers" fun args _ => sum (items args 0),
  .of .collection "avg" [.list] "double" "Arithmetic mean" fun args _ => average (items args 0),
  .of .collection "first" [.list] "any" "First element" fun args _ => do
    Strict.item (← nonempty "first" (items args 0)) 0,
  .of .collection "last" [.list] "any" "Last element" fun args _ => do
    let values ← nonempty "last" (items args 0)
    Strict.item values (values.length - 1),
  .of .collection "indexOf" [.any, .any] "int"
    "Position of an element or substring, -1 when absent" fun args _ => do
      indexOf (← argument args 0) (← argument args 1),
  (Function.of .collection "slice" [.list, .int, .int] "list"
    "Elements [start, end); negative positions count from the end" fun args _ =>
      let values := items args 0
      let stop :=
        if 2 < args.length then bound (integer args 2) values.length else values.length
      slice values (bound (integer args 1) values.length) stop).withArity (.range 2 3),
  .of .collection "distinct" [.list] "list"
    "Drop repeated elements, keeping first occurrences" fun args _ =>
      .ok (.list (distinct (items args 0))),
  .of .collection "sort" [.list] "list" "Ascending order of numbers or strings" fun args _ =>
    (sort (items args 0)).map .list,
  .of .collection "reverse" [.list] "list" "Reversed copy" fun args _ =>
    .ok (.list (items args 0).reverse),
  .of .collection "highest" [.list] "number" "Largest number in a list" fun args _ =>
    Math.greatest "highest" args,
  .of .collection "lowest" [.list] "number" "Smallest number in a list" fun args _ =>
    Math.least "lowest" args,
  (Function.of .collection "concat" [.list] "list" "Lists joined end to end" fun args _ =>
    .ok (.list (args.flatMap fun v => v.asList?.getD []))).withArity (.atLeast 1),
  .of .collection "count" [.list, .any] "int" "Occurrences of a value in a list" fun args _ => do
    return .int (Int64.ofNat (count (items args 0) (← argument args 1)))]

end TradingRules.Builtin.Collection
