/-!
# Why data cannot be used
-/

namespace TradingRules

inductive DataFault where
  | malformedTable
  | missingColumn (line : Nat) (column : String)
  | badTime (line : Nat) (text : String)
  | noNumber (line : Nat) (column : String)
  | badNumber (line : Nat) (column : String)
  | unreadable (path reason : String)
  | noCandles (path : String)
  | noJson (path : String)
  | noObject (path : String)
  deriving DecidableEq, Repr

namespace DataFault

private def atLine (line : Nat) : String := "line " ++ toString line ++ ": "

def text : DataFault → String
  | .malformedTable => "CSV parse error"
  | .missingColumn line column => atLine line ++ "missing " ++ column ++ " column"
  | .badTime line text => atLine line ++ "invalid time '" ++ text ++ "'"
  | .noNumber line column =>
    atLine line ++ "invalid " ++ column ++ " value: cannot parse float from empty string"
  | .badNumber line column => atLine line ++ "invalid " ++ column ++ " value: invalid float literal"
  | .unreadable path reason => "failed to read " ++ path ++ ": " ++ reason
  | .noCandles path => "no candles in " ++ path
  | .noJson path => path ++ ": malformed document"
  | .noObject path => path ++ ": expected a JSON object"

def message (f : DataFault) : String := "data error: " ++ f.text

end DataFault

end TradingRules
