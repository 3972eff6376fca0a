import TradingRules.Calendar.Basic
import TradingRules.Decimal.Reading
import TradingRules.Text.Blank

/-!
# Reading dates and times

The internet format is strict about widths and needs an offset. The looser formats, a date, a date
with a time, an hour with minutes, allow fewer digits and blanks in front of a number.
-/

namespace TradingRules.Calendar

open TradingRules.Text (isAsciiDigit trimStart)
open TradingRules.Decimal (digitsValue tenTo)

/-- Up to `most` digits, at least one. -/
private def digitsUpTo? (most : Nat) (text : List Char) : Option (Nat × List Char) :=
  let run := (text.take most).takeWhile isAsciiDigit
  if run.isEmpty then none else some (digitsValue 0 run, text.drop run.length)

private def digitsExactly? (count : Nat) (text : List Char) : Option (Nat × List Char) :=
  let run := (text.take count).takeWhile isAsciiDigit
  if run.length = count then some (digitsValue 0 run, text.drop count) else none

private def mark? (c : Char) : List Char → Option (List Char)
  | d :: rest => if d = c then some rest else none
  | [] => none

/-- A second of a day; second 60 is a leap second. -/
private def clock? (hour minute second nanos : Nat) : Option (Nat × Nat) :=
  if hour ≤ 23 ∧ minute ≤ 59 ∧ second ≤ 60 then
    if second = 60 then some (hour * 3600 + minute * 60 + 59, 1000000000 + nanos)
    else some (hour * 3600 + minute * 60 + second, nanos)
  else none

/-- A date that the calendar covers can still be outside it in universal time. -/
private def instantOf? (date : Date) (clock : Nat × Nat) (offset : Int) : Option Instant :=
  Instant.covered? ⟨date.toDay * 86400 + clock.1 - offset, clock.2⟩

/-- Nine digits count; further ones are read over. -/
private def fraction? : List Char → Option (Nat × List Char)
  | '.' :: rest =>
    let run := rest.takeWhile isAsciiDigit
    if run.isEmpty then none
    else
      let kept := run.take 9
      some (digitsValue 0 kept * tenTo (9 - kept.length), rest.drop run.length)
  | text => some (0, text)

/-- `Z` or a signed offset in hours and minutes, less than a day, in seconds. -/
private def offset? : List Char → Option (Int × List Char)
  | 'Z' :: rest | 'z' :: rest => some (0, rest)
  | sign :: rest => do
    let negative ←
      if sign = '+' then some false else if sign = '-' ∨ sign = '−' then some true else none
    let (hours, rest) ← digitsExactly? 2 rest
    let rest ← mark? ':' rest
    let (minutes, rest) ← digitsExactly? 2 rest
    if hours ≤ 23 ∧ minutes ≤ 59 then
      let seconds : Int := hours * 3600 + minutes * 60
      some (if negative then -seconds else seconds, rest)
    else none
  | [] => none

/-- The internet format, `2024-01-15T09:30:00.5+02:00`. -/
def readInternet? (text : List Char) : Option Instant := do
  let (year, text) ← digitsExactly? 4 text
  let text ← mark? '-' text
  let (month, text) ← digitsExactly? 2 text
  let text ← mark? '-' text
  let (day, text) ← digitsExactly? 2 text
  let text ← match text with
    | 'T' :: rest | 't' :: rest | ' ' :: rest => some rest
    | _ => none
  let (hour, text) ← digitsExactly? 2 text
  let text ← mark? ':' text
  let (minute, text) ← digitsExactly? 2 text
  let text ← mark? ':' text
  let (second, text) ← digitsExactly? 2 text
  let (nanos, text) ← fraction? text
  let (offset, text) ← offset? text
  let date ← Date.ofParts? year month day
  let clock ← clock? hour minute second nanos
  if text.isEmpty then instantOf? date clock offset else none

/-- A year of up to four digits, or of any number behind a sign. -/
private def year? (text : List Char) : Option (Int × List Char) :=
  match trimStart text with
  | '-' :: rest => (digitsUpTo? rest.length rest).map fun (n, rest) => (-(n : Int), rest)
  | '+' :: rest => (digitsUpTo? rest.length rest).map fun (n, rest) => ((n : Int), rest)
  | text => (digitsUpTo? 4 text).map fun (n, rest) => ((n : Int), rest)

private def small? (text : List Char) : Option (Nat × List Char) := digitsUpTo? 2 (trimStart text)

private def datePart? (text : List Char) : Option (Date × List Char) := do
  let (year, text) ← year? text
  let text ← mark? '-' text
  let (month, text) ← small? text
  let text ← mark? '-' text
  let (day, text) ← small? text
  some (← Date.ofParts? year month day, text)

private def hourMinutePart? (text : List Char) : Option (Nat × Nat × List Char) := do
  let (hour, text) ← small? text
  let text ← mark? ':' text
  let (minute, text) ← small? text
  some (hour, minute, text)

def readDate? (text : List Char) : Option Instant := do
  let (date, text) ← datePart? text
  if text.isEmpty then instantOf? date (0, 0) 0 else none

def readDateTime? (text : List Char) : Option Instant := do
  let (date, text) ← datePart? text
  let (hour, minute, text) ← hourMinutePart? text
  let text ← mark? ':' text
  let (second, text) ← small? text
  let clock ← clock? hour minute second 0
  if text.isEmpty then instantOf? date clock 0 else none

/-- The second of the day of an hour with minutes. -/
def readHourMinute? (text : List Char) : Option Nat := do
  let (hour, minute, text) ← hourMinutePart? text
  let clock ← clock? hour minute 0 0
  if text.isEmpty then some clock.1 else none

/-- An offset that may have blanks around its parts; `UTC` is one. -/
private def looseOffset? (text : List Char) : Option (Int × List Char) :=
  match (text.take 3).map Char.toLower with
  | ['u', 't', 'c'] => some (0, text.drop 3)
  | _ =>
    match text with
    | 'Z' :: rest | 'z' :: rest => some (0, rest)
    | sign :: rest => do
      let negative ←
        if sign = '+' then some false else if sign = '-' ∨ sign = '−' then some true else none
      let (hours, rest) ← digitsExactly? 2 rest
      let (minutes, rest) ← digitsExactly? 2 (rest.dropWhile fun c => c == ':' || Text.isBlank c)
      if hours ≤ 23 ∧ minutes ≤ 59 then
        let seconds : Int := hours * 3600 + minutes * 60
        some (if negative then -seconds else seconds, rest)
      else none
    | [] => none

/-- The internet format with fewer digits and with blanks around the parts. -/
def readLooseInternet? (text : List Char) : Option Instant := do
  let (year, text) ← year? text
  let text ← mark? '-' (trimStart text)
  let (month, text) ← small? text
  let text ← mark? '-' (trimStart text)
  let (day, text) ← small? text
  let text ← match text with
    | 'T' :: rest | 't' :: rest | ' ' :: rest => some rest
    | _ => none
  let (hour, text) ← small? text
  let text ← mark? ':' (trimStart text)
  let (minute, text) ← small? text
  let text ← mark? ':' (trimStart text)
  let (second, text) ← small? text
  let (nanos, text) ← fraction? text
  let (offset, text) ← looseOffset? (trimStart text)
  let date ← Date.ofParts? year month day
  let clock ← clock? hour minute second nanos
  if (trimStart text).isEmpty then instantOf? date clock offset else none

/-- The time of a bar: seconds, the internet format, a date with a time, or a date. -/
def readBarTime? (text : String) : Option Instant :=
  let word := Text.trim text.toList
  match Decimal.readInt64? word with
  | some seconds => Instant.ofSeconds? seconds.toInt
  | none => (readInternet? word).orElse fun _ => (readDateTime? word).orElse fun _ => readDate? word

end TradingRules.Calendar
