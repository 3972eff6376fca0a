import TradingRules.Decimal.Layout
import TradingRules.Decimal.Reading
import Mathlib.Data.Nat.Digits.Defs

/-!
# Digits read back

The digits of a natural number are read as the number (`readNat?_digits`), and a number laid out with
a point has the digits of its significand around the point (`positional_of_neg`).
-/

namespace TradingRules.Decimal

open Text (isAsciiDigit)

structure Digits (text : List Char) : Prop where
  ne_nil : text ≠ []
  isDigit : ∀ c ∈ text, isAsciiDigit c = true

structure Whole (text : List Char) : Prop extends Digits text where
  eq_zero : text.head? = some '0' → text = ['0']

def EndsDigits (rest : List Char) : Prop := ∀ c ∈ rest.head?, isAsciiDigit c = false

variable {text whole fraction rest : List Char} {n : Nat}

theorem EndsDigits.nil : EndsDigits [] := nofun

theorem EndsDigits.point : EndsDigits ('.' :: rest) := by
  rintro c ⟨rfl⟩
  rfl

theorem takeWhile_digits (h : ∀ c ∈ text, isAsciiDigit c = true) (hrest : EndsDigits rest) :
    (text ++ rest).takeWhile isAsciiDigit = text := by
  rw [List.takeWhile_append_of_pos h]
  cases rest with
  | nil => simp
  | cons c rest => simp [hrest c rfl]

theorem dropWhile_digits (h : ∀ c ∈ text, isAsciiDigit c = true) (hrest : EndsDigits rest) :
    (text ++ rest).dropWhile isAsciiDigit = rest := by
  rw [List.dropWhile_append_of_pos h]
  cases rest with
  | nil => rfl
  | cons c rest => simp [hrest c rfl]

theorem Digits.append (h : Digits text) (h' : ∀ c ∈ rest, isAsciiDigit c = true) :
    Digits (text ++ rest) where
  ne_nil := List.append_ne_nil_of_left_ne_nil h.ne_nil rest
  isDigit c hc := (List.mem_append.mp hc).elim (h.isDigit c) (h' c)

theorem Digits.head_append (h : Digits text) (rest : List Char) :
    ∃ c ∈ (text ++ rest).head?, isAsciiDigit c = true := by
  obtain ⟨c, tail, rfl⟩ := List.exists_cons_of_ne_nil h.ne_nil
  exact ⟨c, rfl, h.isDigit c List.mem_cons_self⟩

theorem Digits.zero : Digits ['0'] := ⟨nofun, by simp; rfl⟩

theorem Whole.zero : Whole ['0'] := ⟨.zero, fun _ => rfl⟩

-- ---------------------------------------------------------------------------
-- Natural numbers
-- ---------------------------------------------------------------------------

theorem digits_toString (n : Nat) : Digits (toString n).toList := by
  rw [Nat.toString_eq_repr, Nat.toList_repr]
  refine ⟨Nat.toDigits_ne_nil, fun c hc => ?_⟩
  have hdigit : c.isDigit = true := Nat.isDigit_of_mem_toDigits (by decide) (by decide) hc
  simpa [Char.isDigit, isAsciiDigit, Char.le_def] using hdigit

theorem head?_toDigits_ne (n : Nat) (h : 0 < n) : (Nat.toDigits 10 n).head? ≠ some '0' := by
  induction n using Nat.strongRecOn with
  | ind n ih =>
    rcases Nat.lt_or_ge n 10 with hsmall | hlarge
    · rw [Nat.toDigits_of_lt_base hsmall]
      simpa using h.ne'
    · obtain ⟨c, tail, hfront⟩ := List.exists_cons_of_ne_nil (Nat.toDigits_ne_nil (n := n / 10) (b := 10))
      have hhead := ih (n / 10) (by omega) (by omega)
      rw [Nat.toDigits_of_base_le (by decide) hlarge]
      rw [hfront] at hhead ⊢
      exact hhead

theorem head?_toString_ne {n : Nat} (h : 0 < n) : (toString n).toList.head? ≠ some '0' := by
  rw [Nat.toString_eq_repr, Nat.toList_repr]
  exact head?_toDigits_ne n h

theorem whole_toString (n : Nat) : Whole (toString n).toList := by
  refine ⟨digits_toString n, fun hhead => ?_⟩
  rcases Nat.eq_zero_or_pos n with rfl | hpos
  · rfl
  · exact absurd hhead (head?_toString_ne hpos)

theorem toString_int (i : Int) :
    toString i = (if decide (i < 0) then "-" else "") ++ toString i.natAbs := by
  cases i with
  | ofNat n =>
    have hnonneg : ¬Int.ofNat n < 0 := Int.not_lt.mpr (Int.natCast_nonneg n)
    simp only [hnonneg, decide_false, Bool.false_eq_true, ↓reduceIte, String.empty_append]
    rfl
  | negSucc n => simp [Int.repr_eq_if]

theorem isDigit_of_mem_zeros {c : Char} (h : c ∈ (zeros n).toList) : isAsciiDigit c = true := by
  have hzero : c = '0' := by simpa [zeros] using (List.mem_replicate.mp (by simpa [zeros] using h)).2
  subst hzero
  rfl

@[simp] theorem length_zeros : (zeros n).toList.length = n := by simp [zeros]

theorem digitsValue_append (start : Nat) (xs ys : List Char) :
    digitsValue start (xs ++ ys) = digitsValue (digitsValue start xs) ys :=
  List.foldl_append

theorem digitsValue_toString (n : Nat) : digitsValue 0 (toString n).toList = n := by
  rw [Nat.toString_eq_repr, Nat.toList_repr]
  exact Nat.ofDigitChars_ten_toDigits

theorem digitsValue_zeros (start n : Nat) : digitsValue start (zeros n).toList = 10 ^ n * start := by
  have hreplicate : digitsValue start (List.replicate n '0') = 10 ^ n * start :=
    Nat.ofDigitChars_replicate_zero
  simpa [zeros] using hreplicate

theorem readNat?_digits (h : Digits text) : readNat? text = some (digitsValue 0 text) := by
  have hall : text.all isAsciiDigit = true := List.all_eq_true.mpr h.isDigit
  simp [readNat?, h.ne_nil, hall]

theorem splitSign_of_isDigit {c : Char} (h : isAsciiDigit c = true) :
    splitSign (c :: rest) = (false, c :: rest) := by
  unfold splitSign
  split
  · rename_i heq
    cases heq
    cases h
  · rename_i heq
    cases heq
    cases h
  · rfl

theorem splitSign_digits (h : Digits text) (rest : List Char) :
    splitSign (text ++ rest) = (false, text ++ rest) := by
  obtain ⟨c, tail, rfl⟩ := List.exists_cons_of_ne_nil h.ne_nil
  exact splitSign_of_isDigit (h.isDigit c List.mem_cons_self)

theorem readInt?_digits (h : Digits text) : readInt? text = some (digitsValue 0 text : Int) := by
  have hsign := splitSign_digits h []
  rw [List.append_nil] at hsign
  simp [readInt?, hsign, readNat?_digits h]

theorem inInt64_ofNat (h : n < twoTo 63) : inInt64 n = true := by
  simp only [inInt64, Bool.and_eq_true, decide_eq_true_eq]
  omega

theorem readInt64?_toString (h : n < twoTo 63) :
    readInt64? (toString n).toList = some (Int64.ofInt n) := by
  rw [readInt64?, readInt?_digits (digits_toString n), digitsValue_toString, Option.bind_some, int64?,
    if_pos (inInt64_ofNat h)]

-- ---------------------------------------------------------------------------
-- Numbers with a point
-- ---------------------------------------------------------------------------

theorem readUnsigned?_pointed (hwhole : Digits whole) (hfraction : Digits fraction) :
    readUnsigned? (whole ++ '.' :: fraction) =
      some (digitsValue 0 (whole ++ fraction), -(fraction.length : Int)) := by
  have hfractionRest := takeWhile_digits hfraction.isDigit EndsDigits.nil
  have hnothing := dropWhile_digits hfraction.isDigit EndsDigits.nil
  rw [List.append_nil] at hfractionRest hnothing
  unfold readUnsigned?
  rw [takeWhile_digits hwhole.isDigit EndsDigits.point, dropWhile_digits hwhole.isDigit EndsDigits.point]
  simp [hfractionRest, hnothing, hwhole.ne_nil, readExponent?, digitsValue_append]

theorem digits_positional {s : Scaled} (h : 0 ≤ s.exponent) : Digits s.positional.toList := by
  simp only [Scaled.positional, h, ↓reduceIte, String.toList_append]
  exact (digits_toString s.digits).append fun c hc => isDigit_of_mem_zeros hc

theorem digitsValue_positional {s : Scaled} (h : 0 ≤ s.exponent) :
    digitsValue 0 s.positional.toList = 10 ^ s.exponent.toNat * s.digits := by
  simp only [Scaled.positional, h, ↓reduceIte, String.toList_append]
  rw [digitsValue_append, digitsValue_toString, digitsValue_zeros]

theorem whole_positional {s : Scaled} (hpos : 0 < s.digits) (h : 0 ≤ s.exponent) :
    Whole s.positional.toList := by
  refine ⟨digits_positional h, fun hhead => ?_⟩
  obtain ⟨c, tail, hdigits⟩ := List.exists_cons_of_ne_nil (digits_toString s.digits).ne_nil
  have hne := head?_toString_ne hpos
  simp only [Scaled.positional, h, ↓reduceIte, String.toList_append] at hhead
  rw [hdigits] at hhead hne
  exact absurd hhead hne

theorem positional_of_neg {s : Scaled} (h : s.exponent < 0) : ∃ whole fraction,
    s.positional.toList = whole ++ '.' :: fraction ∧ Whole whole ∧ Digits fraction ∧
      digitsValue 0 (whole ++ fraction) = s.digits ∧ (fraction.length : Int) = -s.exponent := by
  have hdigits := whole_toString s.digits
  have hvalue := digitsValue_toString s.digits
  unfold Scaled.positional
  rw [if_neg (by omega)]
  generalize toString s.digits = digits at *
  have hlength : digits.toList.length = digits.length := String.length_toList
  by_cases hinside : (-s.exponent).toNat < digits.length
  · -- The point stands between two digits.
    let k := digits.length - (-s.exponent).toNat
    refine ⟨digits.toList.take k, digits.toList.drop k, ?_, ?_, ?_, ?_, ?_⟩
    · simp [hinside, k]
    · refine ⟨⟨?_, fun c hc => hdigits.isDigit c (List.mem_of_mem_take hc)⟩, fun hhead => ?_⟩
      · rw [Ne, List.take_eq_nil_iff]
        rintro (hk | hnil)
        · omega
        · exact hdigits.ne_nil hnil
      · rw [List.head?_take, if_neg (by omega)] at hhead
        have hzero := hdigits.eq_zero hhead
        have hone : digits.toList.length = 1 := by rw [hzero]; rfl
        omega
    · refine ⟨?_, fun c hc => hdigits.isDigit c (List.mem_of_mem_drop hc)⟩
      rw [Ne, List.drop_eq_nil_iff]
      omega
    · rw [List.take_append_drop, hvalue]
    · rw [List.length_drop]
      omega
  · -- Zeros fill the places before the first digit.
    let k := (-s.exponent).toNat - digits.length
    refine ⟨['0'], (zeros k).toList ++ digits.toList, ?_, .zero, ?_, ?_, ?_⟩
    · simp [hinside, k]
    · refine ⟨List.append_ne_nil_of_right_ne_nil _ hdigits.ne_nil, fun c hc => ?_⟩
      exact (List.mem_append.mp hc).elim isDigit_of_mem_zeros (hdigits.isDigit c)
    · have hzero : digitsValue 0 ['0'] = 0 := rfl
      rw [digitsValue_append, digitsValue_append, hzero, digitsValue_zeros, Nat.mul_zero, hvalue]
    · rw [List.length_append, length_zeros]
      omega

end TradingRules.Decimal
