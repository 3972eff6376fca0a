import TradingRules.Candle.Basic
import TradingRules.Candle.Fault
import TradingRules.Candle.Table
import TradingRules.Calendar.Reading
import TradingRules.Dict
import TradingRules.Disk.Basic

/-!
# Candle files

The first record of a table names the columns and is not looked at; every further record is a candle.
A series is in the order of time. A folder holds one file for each symbol and length of bars.
-/

namespace TradingRules.Candle

private def number (line : Nat) (column : String) : List String → Except DataFault (Double × List String)
  | [] => .error (.missingColumn line column)
  | field :: rest =>
    match Text.trim field.toList with
    | [] => .error (.noNumber line column)
    | word =>
      match Decimal.readDouble? word with
      | some x => .ok (x, rest)
      | none => .error (.badNumber line column)

/-- The columns are read in their order, so that the first fault is reported. -/
def ofRecord (r : Table.Record) : Except DataFault Candle :=
  match r.fields with
  | [] => .error (.missingColumn r.line "time")
  | first :: rest =>
    match Calendar.readBarTime? first with
    | none => .error (.badTime r.line first)
    | some time => do
      let (opening, rest) ← number r.line "open" rest
      let (high, rest) ← number r.line "high" rest
      let (low, rest) ← number r.line "low" rest
      let (closing, rest) ← number r.line "close" rest
      let (volume, _) ← number r.line "volume" rest
      return ⟨time, opening, high, low, closing, volume⟩

private def ofRecords (width : Nat) (records : List Table.Record) : Except DataFault (List Candle) :=
  records.mapM fun r => if r.fields.length = width then ofRecord r else .error .malformedTable

/-- Candles of one time keep the order of the table. -/
def seriesOfText (text : String) : Except DataFault (List Candle) :=
  match Table.records text with
  | [] => .ok []
  | heading :: rest =>
    (ofRecords heading.fields.length rest).map fun candles =>
      candles.mergeSort fun c d => !d.time.before c.time

def seriesOfFile (disk : Disk) (path : String) : Except DataFault (List Candle) :=
  match disk.read path with
  | .error fault => .error (.unreadable path fault.text)
  | .ok text => seriesOfText text

private def fileEnding (timeframe : String) : String := "_" ++ timeframe ++ ".csv"

/-- The series of a symbol in a folder. -/
def seriesIn (disk : Disk) (folder symbol timeframe : String) : Except DataFault (List Candle) :=
  seriesOfFile disk (Path.join folder (symbol ++ fileEnding timeframe))

/-- The symbols that a folder has files for, in order. -/
def symbolsIn (disk : Disk) (folder timeframe : String) : Names :=
  let ending := (fileEnding timeframe).toList
  match disk.resolve folder with
  | .error _ => []
  | .ok place =>
    Names.ofList <| (disk.listing place).filterMap fun name =>
      let chars := name.toList
      if ending.isSuffixOf chars then some (String.ofList (chars.take (chars.length - ending.length)))
      else none

end TradingRules.Candle
