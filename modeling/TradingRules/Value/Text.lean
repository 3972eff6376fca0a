import TradingRules.Value.Basic
import TradingRules.Decimal.Layout
import TradingRules.Decimal.Reading
import TradingRules.Text.Blank

/-!
# Values as text

How a value is shown, and how a text typed by a user is taken as a value.
-/

namespace TradingRules.Value

mutual

/-- Strings are bare at the top and inside maps, and quoted without escapes inside lists. -/
def text : Value → String
  | .null => "null"
  | .bool b => if b then "true" else "false"
  | .int i => toString i.toInt
  | .float x => Decimal.text x
  | .str s => s
  | .list items => "[" ++ textItems items ++ "]"
  | .map fields => "\x7b" ++ textFields fields ++ "\x7d"

def textItem : Value → String
  | .str s => "\"" ++ s ++ "\""
  | v => text v

def textItems : List Value → String
  | [] => ""
  | [v] => textItem v
  | v :: rest => textItem v ++ ", " ++ textItems rest

def textFields : List (String × Value) → String
  | [] => ""
  | [(name, v)] => name ++ ": " ++ text v
  | (name, v) :: rest => name ++ ": " ++ text v ++ ", " ++ textFields rest

end

/-- An integer, a float, `true`, `false` or `null` between blanks; any other text is a string, blanks
included. -/
def ofLiteral (text : String) : Value :=
  let word := Text.trim text.toList
  match Decimal.readInt64? word, Decimal.readDouble? word with
  | some i, _ => .int i
  | none, some x => .float x
  | none, none =>
    match String.ofList word with
    | "true" => .bool true
    | "false" => .bool false
    | "null" => .null
    | _ => .str text

end TradingRules.Value
