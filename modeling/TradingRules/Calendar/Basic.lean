/-!
# Instants and the calendar

Instants count seconds since the first day of 1970 in universal time; the calendar is the proleptic
Gregorian one. A leap second is the second before it with more than a thousand million nanoseconds.
-/

namespace TradingRules

structure Instant where
  seconds : Int
  nanos : Nat
  deriving DecidableEq, Repr, Inhabited

namespace Instant

def least : Int := -8334601228800

def greatest : Int := 8210266876799

/-- The instant, if it is within the years that the calendar covers. -/
def covered? (t : Instant) : Option Instant :=
  if least ≤ t.seconds ∧ t.seconds ≤ greatest then some t else none

def ofSeconds? (seconds : Int) : Option Instant := covered? ⟨seconds, 0⟩

/-- Strictly earlier. -/
def before (a b : Instant) : Bool :=
  decide (a.seconds < b.seconds) || (a.seconds == b.seconds && decide (a.nanos < b.nanos))

theorem before_iff {a b : Instant} :
    a.before b = true ↔ a.seconds < b.seconds ∨ a.seconds = b.seconds ∧ a.nanos < b.nanos := by
  simp [before]

@[simp] theorem before_self (a : Instant) : a.before a = false := by
  simp [before]

theorem before_trans {a b c : Instant} (hab : a.before b = true) (hbc : b.before c = true) :
    a.before c = true := by
  rw [before_iff] at *
  omega

/-- What is not later than an instant is earlier than all that is later than it. -/
theorem before_of_not_before {a b c : Instant} (hab : a.before b = false)
    (hac : a.before c = true) : b.before c = true := by
  rw [← Bool.not_eq_true] at hab
  rw [before_iff] at *
  omega

/-- Days since the first day of 1970. -/
def day (t : Instant) : Int := t.seconds / 86400

def secondOfDay (t : Instant) : Nat := (t.seconds % 86400).toNat

def hour (t : Instant) : Nat := t.secondOfDay / 3600

def minute (t : Instant) : Nat := t.secondOfDay / 60 % 60

/-- Monday is 0. The first day of 1970 was a Thursday. -/
def weekday (t : Instant) : Nat := ((t.day + 3) % 7).toNat

end Instant

/-- A day of the Gregorian calendar. -/
structure Date where
  year : Int
  month : Nat
  day : Nat
  deriving DecidableEq, Repr

namespace Date

def isLeap (year : Int) : Bool := year % 4 == 0 && (year % 100 != 0 || year % 400 == 0)

def monthLength (year : Int) (month : Nat) : Nat :=
  if month = 2 then if isLeap year then 29 else 28
  else if month ∈ [4, 6, 9, 11] then 30 else 31

/-- A year is counted from March, so that the leap day is its last. An era has 400 years. -/
def toDay (d : Date) : Int :=
  let year := if d.month ≤ 2 then d.year - 1 else d.year
  let era := year / 400
  let yearOfEra := year - era * 400
  let monthFromMarch : Int := (d.month + 9) % 12
  let dayOfYear := (153 * monthFromMarch + 2) / 5 + d.day - 1
  era * 146097 + yearOfEra * 365 + yearOfEra / 4 - yearOfEra / 100 + dayOfYear - 719468

def ofDay (day : Int) : Date :=
  let z := day + 719468
  let era := z / 146097
  let dayOfEra := z - era * 146097
  let yearOfEra := (dayOfEra - dayOfEra / 1460 + dayOfEra / 36524 - dayOfEra / 146096) / 365
  let dayOfYear := dayOfEra - (365 * yearOfEra + yearOfEra / 4 - yearOfEra / 100)
  let monthFromMarch := (5 * dayOfYear + 2) / 153
  let dayOfMonth := dayOfYear - (153 * monthFromMarch + 2) / 5 + 1
  let month := if monthFromMarch < 10 then monthFromMarch + 3 else monthFromMarch - 9
  let year := yearOfEra + era * 400
  ⟨if month ≤ 2 then year + 1 else year, month.toNat, dayOfMonth.toNat⟩

def ofParts? (year : Int) (month day : Nat) : Option Date :=
  if -262143 ≤ year ∧ year ≤ 262142 ∧ 1 ≤ month ∧ month ≤ 12 ∧ 1 ≤ day ∧
      day ≤ monthLength year month then some ⟨year, month, day⟩
  else none

/-- At least the given number of digits. -/
def padded (width n : Nat) : String :=
  let digits := toString n
  String.ofList (List.replicate (width - digits.length) '0') ++ digits

/-- Year, month and day; a year outside four digits carries its sign. -/
def text (d : Date) : String :=
  let year :=
    if d.year < 0 then "-" ++ padded 4 d.year.natAbs
    else if 9999 < d.year then "+" ++ toString d.year.natAbs
    else padded 4 d.year.natAbs
  year ++ "-" ++ padded 2 d.month ++ "-" ++ padded 2 d.day

end Date

namespace Instant

def date (t : Instant) : Date := Date.ofDay t.day

/-- Thousandths, millionths or thousand-millionths, whichever tells all. -/
private def fractionText (nanos : Nat) : String :=
  if nanos = 0 then ""
  else if nanos % 1000000 = 0 then "." ++ Date.padded 3 (nanos / 1000000)
  else if nanos % 1000 = 0 then "." ++ Date.padded 6 (nanos / 1000)
  else "." ++ Date.padded 9 nanos

/-- The internet format in universal time. A leap second is second 60. -/
def text (t : Instant) : String :=
  let leap := 1000000000 ≤ t.nanos
  let second := t.secondOfDay % 60 + if leap then 1 else 0
  t.date.text ++ "T" ++ Date.padded 2 t.hour ++ ":" ++ Date.padded 2 t.minute ++ ":" ++
    Date.padded 2 second ++ fractionText (t.nanos % 1000000000) ++ "+00:00"

end Instant

end TradingRules
