import TradingRules.Builtin.Collection
import TradingRules.Value.Text
import TradingRules.Text.Case

/-!
# Strings and conversions

Positions in strings count characters.
-/

namespace TradingRules.Builtin.Text

open TradingRules

def cannot (name : String) (what : String) : Except Failure Value :=
  .error (.function name ("cannot convert " ++ what))

/-- A float loses its fraction; beyond `9.2e18` it is refused. -/
def toInt : Value → Except Failure Value
  | .int i => .ok (.int i)
  | .float x =>
    if x.isFinite && x.abs < 9.2e18 then .ok (.int (x.truncate.toInt64))
    else cannot "int" "double"
  | .bool b => .ok (.int (if b then 1 else 0))
  | .str s =>
    match Decimal.readInt64? (TradingRules.Text.trim s.toList) with
    | some i => .ok (.int i)
    | none => cannot "int" ("'" ++ s ++ "'")
  | v => cannot "int" v.typeName

def toDouble : Value → Except Failure Value
  | .int i => .ok (.float (.ofInt64 i))
  | .float x => .ok (.float x)
  | .str s =>
    match Decimal.readDouble? (TradingRules.Text.trim s.toList) with
    | some x => .ok (.float x)
    | none => cannot "double" ("'" ++ s ++ "'")
  | v => cannot "double" v.typeName

def toBool : Value → Except Failure Value
  | .bool b => .ok (.bool b)
  | .int i => .ok (.bool (i != 0))
  | .str s =>
    match TradingRules.Text.asciiLower (TradingRules.Text.trimmed s) with
    | "true" | "1" | "yes" => .ok (.bool true)
    | "false" | "0" | "no" => .ok (.bool false)
    | _ => cannot "bool" ("'" ++ s ++ "'")
  | v => cannot "bool" v.typeName

/-- The characters from `start` up to `stop`, both within the string. -/
def substring (text : List Char) (start stop : Int) : Except Failure Value :=
  if start < 0 ∨ (text.length : Int) < stop ∨ stop < start then
    .error <| .function "substring" <|
      "range [" ++ toString start ++ ", " ++ toString stop ++ ") out of bounds for length " ++
        toString text.length
  else do return .str (String.ofList (← Strict.part text start.toNat stop.toNat))

def split (text separator : String) : Except Failure Value :=
  if separator = "" then .error (.function "split" "separator must not be empty")
  else
    .ok <| .list <|
      (TradingRules.Text.splitOn separator.toList text.toList).map fun part =>
        .str (String.ofList part)

def functions : List Function := [
  .of .str "type" [.any] "string" "Type name of a value" fun args _ => do
    return .str (← argument args 0).typeName,
  .of .str "string" [.any] "string" "Display form of a value" fun args _ => do
    return .str (← argument args 0).text,
  .of .str "int" [.any] "int" "Convert to int, truncating floats" fun args _ => do
    toInt (← argument args 0),
  .of .str "double" [.any] "double" "Convert to double" fun args _ => do
    toDouble (← argument args 0),
  .of .str "bool" [.any] "bool" "Convert to bool" fun args _ => do
    toBool (← argument args 0),
  .of .str "contains" [.any, .any] "bool" "Substring test, or element test for a list"
    fun args _ => do Collection.contains (← argument args 0) (← argument args 1),
  .of .str "startsWith" [.str, .str] "bool" "Prefix test" fun args _ =>
    .ok (.bool ((string args 1).toList.isPrefixOf (string args 0).toList)),
  .of .str "endsWith" [.str, .str] "bool" "Suffix test" fun args _ =>
    .ok (.bool ((string args 1).toList.isSuffixOf (string args 0).toList)),
  .of .str "toLowerCase" [.str] "string" "Lowercase copy" fun args _ =>
    .ok (.str (TradingRules.Text.lower (string args 0))),
  .of .str "toUpperCase" [.str] "string" "Uppercase copy" fun args _ =>
    .ok (.str (TradingRules.Text.upper (string args 0))),
  .of .str "trim" [.str] "string" "Strip surrounding whitespace" fun args _ =>
    .ok (.str (TradingRules.Text.trimmed (string args 0))),
  (Function.of .str "substring" [.str, .int, .int] "string" "Characters [start, end) of a string"
    fun args _ =>
      let text := (string args 0).toList
      let stop : Int := if 2 < args.length then (integer args 2).toInt else text.length
      substring text (integer args 1).toInt stop).withArity (.range 2 3),
  .of .str "split" [.str, .str] "list" "Split a string on a separator" fun args _ =>
    split (string args 0) (string args 1),
  (Function.of .str "join" [.list, .str] "string"
    "Join list elements with a separator (default empty)" fun args _ =>
      .ok (.str (String.intercalate (string args 1) ((items args 0).map Value.text)))).withArity
    (.range 1 2),
  .of .str "replace" [.str, .str, .str] "string" "Replace every occurrence of a substring"
    fun args _ =>
      .ok <| .str <| String.ofList <|
        TradingRules.Text.replace (string args 1).toList (string args 2).toList
          (string args 0).toList]

end TradingRules.Builtin.Text
