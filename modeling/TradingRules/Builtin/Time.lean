import TradingRules.Builtin.Function
import TradingRules.Calendar.Reading
import TradingRules.Double.Whole

/-!
# Times and durations

A time is a number of seconds; the clock is that of the context.
-/

namespace TradingRules.Builtin.Time

def unitSeconds? : Char → Option Nat
  | 's' => some 1
  | 'm' => some 60
  | 'h' => some 3600
  | 'd' => some 86400
  | 'w' => some 604800
  | _ => none

/-- `digits` are those read since the last unit, last first. -/
def durationCore? (total : Int) (digits : List Char) : List Char → Option Int
  | [] => if digits.isEmpty then some total else none
  | c :: rest =>
    if Text.isAsciiDigit c then durationCore? total (c :: digits) rest
    else do
      let unit ← unitSeconds? c
      let amount ← (Decimal.readNat? digits.reverse).bind fun n => Decimal.int64? n
      let part ← Decimal.int64? (amount.toInt * unit)
      let total ← Decimal.int64? (total + part.toInt)
      durationCore? total.toInt [] rest

/-- The seconds of amounts with their units, as in `1h30m`. -/
def duration? (text : String) : Option Int :=
  match Text.trim text.toList with
  | [] => none
  | word => durationCore? 0 [] word

def instant (name : String) (seconds : Int64) : Except Failure Instant :=
  match Instant.ofSeconds? seconds.toInt with
  | some t => .ok t
  | none =>
    .error (.function name ("timestamp " ++ toString seconds.toInt ++ " out of range"))

/-- The time of an argument, or that of the clock. -/
def timeOr (name : String) (arg : Option Value) (view : View) : Except Failure Instant :=
  match arg with
  | some (.int seconds) => instant name seconds
  | _ => .ok view.context.clock

/-- Seconds from a time to the clock. -/
def elapsed (name : String) (since : Int64) (view : View) : Except Failure Int64 :=
  match Decimal.int64? (view.context.clock.seconds - since.toInt) with
  | some n => .ok n
  | none => .error (.function name ("time " ++ toString since.toInt ++ " out of range"))

def hourMinute (name text : String) : Except Failure Nat :=
  match Calendar.readHourMinute? text.toList with
  | some t => .ok t
  | none => .error (.function name ("expected HH:MM, got '" ++ text ++ "'"))

/-- Whether a second of the day is in a window, which passes midnight unless it begins before it
ends. -/
def inWindow (t start stop : Nat) : Bool :=
  if start < stop then start ≤ t && t < stop else start ≤ t || t < stop

def timestamp : Value → Except Failure Value
  | .int i => .ok (.int i)
  | .float x =>
    if x.isFinite then .ok (.int (x.toInt64))
    else .error (.typeMismatch "timestamp" "string or int" "double")
  | .str s =>
    match Calendar.readInternet? s.toList with
    | some t => .ok (.int (Int64.ofInt t.seconds))
    -- the reason is a text of the library that reads times, and left out
    | none => .error (.function "timestamp" "")
  | v => .error (.typeMismatch "timestamp" "string or int" v.typeName)

/-- The length of a bar in seconds. -/
def timeframe : Value → Except Failure Int64
  | .int seconds => .ok seconds
  | .str text => .ok (Int64.ofInt ((duration? text).getD 0))
  | v => .error (.typeMismatch "bars_since" "int or duration string" v.typeName)

def barsSince (since : Int64) (bar : Value) (view : View) : Except Failure Value := do
  let length ← timeframe bar
  if length ≤ 0 then throw (.function "bars_since" "timeframe must be positive")
  let seconds ← elapsed "bars_since" since view
  return .int (← Strict.quotient seconds length)

/-- Whether two times are in different hours. -/
def isNewHour (before now : Int64) : Except Failure Value := do
  return .bool ((← Strict.quotient before 3600) != (← Strict.quotient now 3600))

def inSession (args : List Value) (view : View) : Except Failure Value := do
  let start ← hourMinute "in_session" (string args 0)
  let stop ← hourMinute "in_session" (string args 1)
  let t ← timeOr "in_session" (← Strict.rest args 2)[0]? view
  return .bool (inWindow t.secondOfDay start stop)

def clockPart (name description : String) (part : Instant → Nat) : Function :=
  (Function.of .time name [.int] "int" description fun args view => do
    return .int (Int64.ofNat (part (← timeOr name args[0]? view)))).withArity (.range 0 1)

def functions : List Function := [
  .of .time "now" [] "int" "Current time as epoch seconds" fun _ view =>
    .ok (.int (Int64.ofInt view.context.clock.seconds)),
  .of .time "timestamp" [.any] "int" "Epoch seconds from an RFC 3339 string or an int"
    fun args _ => do timestamp (← argument args 0),
  .of .time "bar_age" [.int] "int" "Seconds elapsed since the given bar time" fun args view =>
    (elapsed "bar_age" (integer args 0) view).map .int,
  .of .time "bars_since" [.int, .any] "int"
    "Whole bars elapsed since a time, for a timeframe in seconds or '15m' form" fun args view => do
      barsSince (integer args 0) (← argument args 1) view,
  .of .time "is_new_day" [.int, .int] "bool" "(prev_time, time) fall on different UTC dates"
    fun args _ => do
      let before ← instant "is_new_day" (integer args 0)
      let now ← instant "is_new_day" (integer args 1)
      return .bool (before.day != now.day),
  .of .time "is_new_hour" [.int, .int] "bool" "(prev_time, time) fall in different UTC hours"
    fun args _ => isNewHour (integer args 0) (integer args 1),
  clockPart "hour" "UTC hour of a time (default now)" Instant.hour,
  clockPart "minute" "UTC minute of a time (default now)" Instant.minute,
  clockPart "day_of_week" "0 = Monday .. 6 = Sunday (default now)" Instant.weekday,
  (Function.of .time "date" [.int] "string" "UTC date YYYY-MM-DD (default now)" fun args view => do
    return .str (← timeOr "date" args[0]? view).date.text).withArity (.range 0 1),
  .of .time "duration" [.str] "int" "Seconds in a duration such as '15m' or '1h30m'" fun args _ =>
    match duration? (string args 0) with
    | some seconds => .ok (.int (Int64.ofInt seconds))
    | none => .error (.function "duration" ("invalid duration '" ++ string args 0 ++ "'")),
  (Function.of .time "in_session" [.str, .str, .int] "bool"
    "Time (default now) is within the UTC HH:MM session, wrapping midnight" inSession).withArity
    (.range 2 3)]

end TradingRules.Builtin.Time
