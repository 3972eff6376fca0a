import TradingRules.Builtin.Time
import TradingRules.Proofs.Decimal.Digits
import TradingRules.Proofs.Eval.Arithmetic

/-!
# Durations

A duration is one segment or more, each an amount with a unit. A text between blanks is read exactly if it
is such a sequence whose seconds fit a machine integer, and it is read as their sum
(`duration?_eq_some_iff`): after any segments the reading goes on with the exact sum so far, or it has
stopped because that does not fit (`durationCore?_segments`).
-/

namespace TradingRules

namespace Decimal

variable {n : Nat}

theorem exists_int64?_of_lt (h : n < 2 ^ 63) : ∃ i, int64? n = some i ∧ i.toInt = n := by
  have hvalue : (Int64.ofNat n).toInt = n := Int64.toInt_ofNat_of_lt h
  exact ⟨Int64.ofNat n, int64?_eq_some_iff.mpr hvalue, hvalue⟩

theorem int64?_of_le (h : 2 ^ 63 ≤ n) : int64? n = none := by
  refine int64?_eq_none_iff.mpr fun i hi => ?_
  have hlt := i.toInt_lt
  omega

/-- The amount, the product and the sum are checked one after another; only the sum matters, as it is the
greatest of them. -/
theorem int64?_add_mul (total amount : Nat) {unit : Nat} (hunit : 0 < unit) :
    ((int64? amount).bind fun i => (int64? (i.toInt * unit)).bind fun part => int64? (total + part.toInt)) =
      int64? (total + amount * unit : Nat) := by
  have hle : amount ≤ amount * unit := Nat.le_mul_of_pos_right amount hunit
  by_cases hamount : amount < 2 ^ 63
  · obtain ⟨i, hsome, hi⟩ := exists_int64?_of_lt hamount
    rw [hsome, Option.bind_some, hi, ← Int.natCast_mul]
    by_cases hproduct : amount * unit < 2 ^ 63
    · obtain ⟨part, hsome, hpart⟩ := exists_int64?_of_lt hproduct
      rw [hsome, Option.bind_some, hpart, Int.natCast_add]
    · rw [int64?_of_le (Nat.le_of_not_lt hproduct), int64?_of_le (by omega), Option.bind_none]
  · rw [int64?_of_le (Nat.le_of_not_lt hamount), int64?_of_le (by omega), Option.bind_none]

end Decimal

open Text (isAsciiDigit trim)

namespace Builtin.Time

open Decimal (Digits int64? exists_int64?_of_lt int64?_of_le int64?_add_mul)

-- ---------------------------------------------------------------------------
-- Segments
-- ---------------------------------------------------------------------------

inductive TimeUnit where
  | second
  | minute
  | hour
  | day
  | week

namespace TimeUnit

def letter : TimeUnit → Char
  | .second => 's'
  | .minute => 'm'
  | .hour => 'h'
  | .day => 'd'
  | .week => 'w'

def seconds : TimeUnit → Nat
  | .second => 1
  | .minute => 60
  | .hour => 3600
  | .day => 86400
  | .week => 604800

theorem seconds_pos (u : TimeUnit) : 0 < u.seconds := by cases u <;> decide

theorem letter_not_digit (u : TimeUnit) : isAsciiDigit u.letter = false := by cases u <;> decide

@[simp] theorem unitSeconds?_letter (u : TimeUnit) : unitSeconds? u.letter = some u.seconds := by
  cases u <;> rfl

theorem exists_of_unitSeconds? {c : Char} {n : Nat} (h : unitSeconds? c = some n) :
    ∃ u : TimeUnit, u.letter = c := by
  unfold unitSeconds? at h
  split at h
  · exact ⟨.second, rfl⟩
  · exact ⟨.minute, rfl⟩
  · exact ⟨.hour, rfl⟩
  · exact ⟨.day, rfl⟩
  · exact ⟨.week, rfl⟩
  · cases h

end TimeUnit

structure Segment where
  digits : List Char
  unit : TimeUnit
  isDigits : Digits digits

namespace Segment

def text (s : Segment) : List Char := s.digits ++ [s.unit.letter]

def amount (s : Segment) : Nat := Nat.ofDigitChars 10 s.digits 0

def seconds (s : Segment) : Nat := s.amount * s.unit.seconds

end Segment

def totalSeconds (segments : List Segment) : Nat := (segments.map Segment.seconds).sum

-- ---------------------------------------------------------------------------
-- Reading
-- ---------------------------------------------------------------------------

variable {digits : List Char} {total : Nat}

theorem durationCore?_digits (h : ∀ c ∈ digits, isAsciiDigit c = true) (total : Int) (before rest : List Char) :
    durationCore? total before (digits ++ rest) = durationCore? total (digits.reverse ++ before) rest := by
  induction digits generalizing before with
  | nil => rfl
  | cons c digits ih =>
    obtain ⟨hc, hdigits⟩ := List.forall_mem_cons.mp h
    rw [List.cons_append, durationCore?, if_pos hc, ih hdigits]
    simp

theorem durationCore?_unit (total : Int) (digits rest : List Char) (u : TimeUnit) :
    durationCore? total digits (u.letter :: rest) =
      ((Decimal.readNat? digits.reverse).bind fun n => int64? n).bind fun amount =>
        (int64? (amount.toInt * u.seconds)).bind fun part =>
          (int64? (total + part.toInt)).bind fun total => durationCore? total.toInt [] rest := by
  rw [durationCore?, if_neg (Bool.eq_false_iff.mp u.letter_not_digit), u.unitSeconds?_letter]
  rfl

theorem durationCore?_segment (s : Segment) (total : Nat) (rest : List Char) :
    durationCore? total [] (s.text ++ rest) =
      if total + s.seconds < 2 ^ 63 then durationCore? (total + s.seconds : Nat) [] rest else none := by
  have hread : Decimal.readNat? s.digits = some s.amount := Decimal.readNat?_digits s.isDigits
  have hchecked := int64?_add_mul total s.amount s.unit.seconds_pos
  have hstep : durationCore? total [] (s.text ++ rest) =
      (int64? (total + s.seconds : Nat)).bind fun total => durationCore? total.toInt [] rest := by
    rw [Segment.text, List.append_assoc, durationCore?_digits s.isDigits.isDigit, List.singleton_append,
      durationCore?_unit, List.append_nil, List.reverse_reverse, hread, Option.bind_some, Segment.seconds,
      ← hchecked]
    simp only [Option.bind_assoc]
  rw [hstep]
  by_cases hsum : total + s.seconds < 2 ^ 63
  · obtain ⟨sum, hsome, hvalue⟩ := exists_int64?_of_lt hsum
    rw [hsome, Option.bind_some, hvalue, if_pos hsum]
  · rw [int64?_of_le (Nat.le_of_not_lt hsum), Option.bind_none, if_neg hsum]

/-- After segments the reading goes on with their exact sum, or has stopped because it does not fit. -/
theorem durationCore?_segments (segments : List Segment) (h : total < 2 ^ 63) (rest : List Char) :
    durationCore? total [] (segments.flatMap Segment.text ++ rest) =
      if total + totalSeconds segments < 2 ^ 63 then
        durationCore? (total + totalSeconds segments : Nat) [] rest
      else none := by
  induction segments generalizing total with
  | nil => rw [totalSeconds, List.map_nil, List.sum_nil, Nat.add_zero, if_pos h]; rfl
  | cons s segments ih =>
    have hsum : total + totalSeconds (s :: segments) = total + s.seconds + totalSeconds segments := by
      simp [totalSeconds, Nat.add_assoc]
    rw [List.flatMap_cons, List.append_assoc, durationCore?_segment, hsum]
    by_cases hfirst : total + s.seconds < 2 ^ 63
    · rw [if_pos hfirst, ih hfirst]
    · rw [if_neg hfirst, if_neg (by omega)]

/-- Only segments are read to the end. -/
theorem segments_of_durationCore? {total n : Int} {word : List Char}
    (h : durationCore? total digits word = some n) (hdigits : ∀ c ∈ digits, isAsciiDigit c = true) :
    ∃ segments : List Segment, digits.reverse ++ word = segments.flatMap Segment.text := by
  fun_induction durationCore? total digits word with
  | case1 total digits hempty =>
    exact ⟨[], by simp [List.isEmpty_iff.mp hempty]⟩
  | case2 => cases h
  | case3 total digits c rest hc ih =>
    obtain ⟨segments, hsegments⟩ := ih h (List.forall_mem_cons.mpr ⟨hc, hdigits⟩)
    exact ⟨segments, by simpa using hsegments⟩
  | case4 total digits c rest hc ih =>
    simp only [Option.bind_eq_bind, Option.bind_eq_some_iff] at h
    obtain ⟨unit, hunit, amount, ⟨value, hvalue, -⟩, part, -, sum, -, hrest⟩ := h
    obtain ⟨unit, rfl⟩ := TimeUnit.exists_of_unitSeconds? hunit
    have hread : Digits digits.reverse := by
      simp only [Decimal.readNat?, Option.ite_none_left_eq_some] at hvalue
      exact ⟨by grind, by simpa using hdigits⟩
    obtain ⟨segments, hsegments⟩ := ih sum hrest (List.forall_mem_nil _)
    refine ⟨⟨digits.reverse, unit, hread⟩ :: segments, ?_⟩
    rw [List.flatMap_cons, ← hsegments]
    simp [Segment.text]

theorem durationCore?_whole (segments : List Segment) :
    durationCore? 0 [] (segments.flatMap Segment.text) =
      if totalSeconds segments < 2 ^ 63 then some (totalSeconds segments : Int) else none := by
  have hrun := durationCore?_segments segments (Nat.two_pow_pos 63) []
  rw [List.append_nil, Nat.zero_add] at hrun
  exact hrun

theorem flatMap_text_eq_nil_iff {segments : List Segment} :
    segments.flatMap Segment.text = [] ↔ segments = [] := by
  cases segments with
  | nil => simp
  | cons s segments => simp [Segment.text]

/-- A text between blanks is a duration exactly if it is one segment or more whose seconds fit a machine
integer, and then it is their sum; every other text is none. On the way nothing wraps: whatever follows
some segments, the reading goes on with their exact sum, or has stopped because that does not fit. -/
theorem duration?_eq_some_iff (text : String) (total : Int) :
    (duration? text = some total ↔ ∃ segments : List Segment, segments ≠ [] ∧
      trim text.toList = segments.flatMap Segment.text ∧
      totalSeconds segments < 2 ^ 63 ∧ total = totalSeconds segments) ∧
    ∀ (segments : List Segment) (rest : List Char),
      durationCore? 0 [] (segments.flatMap Segment.text ++ rest) =
        if totalSeconds segments < 2 ^ 63 then durationCore? (totalSeconds segments) [] rest else none := by
  refine ⟨?_, fun segments rest => ?_⟩
  · cases hword : trim text.toList with
    | nil =>
      have hnone : duration? text = none := by rw [duration?, hword]
      rw [hnone]
      refine iff_of_false nofun ?_
      rintro ⟨segments, hne, hnil, -⟩
      exact hne (flatMap_text_eq_nil_iff.mp hnil.symm)
    | cons c rest =>
      have hread : duration? text = durationCore? 0 [] (c :: rest) := by rw [duration?, hword]
      rw [hread]
      constructor
      · intro h
        obtain ⟨segments, hsegments⟩ := segments_of_durationCore? h nofun
        rw [List.reverse_nil, List.nil_append] at hsegments
        rw [hsegments, durationCore?_whole, Option.ite_none_right_eq_some, Option.some.injEq] at h
        have hne : segments ≠ [] := fun hnil => List.cons_ne_nil c rest (by rw [hsegments, hnil]; rfl)
        exact ⟨segments, hne, hsegments, h.1, h.2.symm⟩
      · rintro ⟨segments, -, hsegments, hfits, rfl⟩
        rw [hsegments, durationCore?_whole, if_pos hfits]
  · have hrun := durationCore?_segments segments (Nat.two_pow_pos 63) rest
    rw [Nat.zero_add] at hrun
    exact hrun

example : duration? " 1h030m" = some 5400 ∧ duration? "15" = none ∧ duration? "1h 30m" = none := by decide

/-- The sum may be as large as a machine integer, and no larger. -/
example : duration? "9223372036854775806s1s" = some (2 ^ 63 - 1) ∧
    duration? "9223372036854775807s1s" = none := by decide +kernel

end Builtin.Time

end TradingRules
