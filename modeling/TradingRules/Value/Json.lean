import TradingRules.Value.Basic
import TradingRules.Json.Reader
import TradingRules.Json.Writer

/-!
# Values as JSON

An integer that does not fit into 64 bits with a sign becomes a float. NaN and the infinities have no
JSON form and are written as `null`.
-/

namespace TradingRules.Value

mutual

def toJson : Value → Json
  | .null => .null
  | .bool b => .bool b
  | .int i => .int i.toInt
  | .float x => if x.isFinite then .float x else .null
  | .str s => .str s
  | .list items => .arr (toJsonItems items)
  | .map fields => .obj (toJsonFields fields)

def toJsonItems : List Value → List Json
  | [] => []
  | v :: rest => toJson v :: toJsonItems rest

def toJsonFields : List (String × Value) → List (String × Json)
  | [] => []
  | (name, v) :: rest => (name, toJson v) :: toJsonFields rest

end

def ofJsonInt (i : Int) : Value :=
  match Decimal.int64? i with
  | some n => .int n
  | none => .float (Decimal.toDouble (decide (i < 0)) i.natAbs 0)

mutual

/-- Of two members with one name the later counts. -/
def ofJson : Json → Value
  | .null | .unreadable => .null
  | .bool b => .bool b
  | .int i => ofJsonInt i
  | .float x => .float x
  | .str s => .str s
  | .arr items => .list (ofJsonItems items)
  | .obj members => .map (Dict.ofList (ofJsonMembers members))

def ofJsonItems : List Json → List Value
  | [] => []
  | j :: rest => ofJson j :: ofJsonItems rest

def ofJsonMembers : List (String × Json) → List (String × Value)
  | [] => []
  | (name, j) :: rest => (name, ofJson j) :: ofJsonMembers rest

end

/-- A document as a value: every literal has one and the nesting is within bounds. -/
def ofJson? (j : Json) : Option Value :=
  if j.readable && j.depth ≤ Json.maxDepth then some (ofJson j) else none

end TradingRules.Value
