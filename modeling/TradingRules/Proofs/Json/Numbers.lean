import TradingRules.Json.Reader
import TradingRules.Json.Writer
import TradingRules.Proofs.Decimal.ReadBack

/-!
# Numbers in a document

An integer of the range that is kept apart, and every finite double, is read back from what is written
of it (`number?_int`, `number?_float`), whatever other token follows.
-/

namespace TradingRules.Json

open Text (isAsciiDigit)
open Decimal (digitsValue Digits Whole EndsDigits Scaled shortest storedText signOf toDouble twoTo)
open Double (Magnitude ofMagnitude)

def sign (negative : Bool) : List Char := if negative then ['-'] else []

def EndsNumber (rest : List Char) : Prop :=
  ∀ c ∈ rest.head?, isAsciiDigit c = false ∧ c ≠ '.' ∧ c ≠ 'e' ∧ c ≠ 'E'

variable {whole fraction power rest : List Char} {negative : Bool}

theorem EndsNumber.endsDigits (h : EndsNumber rest) : EndsDigits rest := fun c hc => (h c hc).1

theorem digits?_append (h : Digits whole) (hrest : EndsDigits rest) :
    digits? (whole ++ rest) = some (whole, rest) := by
  rw [digits?, Decimal.takeWhile_digits h.isDigit hrest, Decimal.dropWhile_digits h.isDigit hrest]
  obtain ⟨c, tail, rfl⟩ := List.exists_cons_of_ne_nil h.ne_nil
  rfl

theorem whole?_append (h : Whole whole) (hrest : EndsDigits rest) :
    whole? (whole ++ rest) = some (whole, rest) := by
  obtain ⟨c, tail, rfl⟩ := List.exists_cons_of_ne_nil h.ne_nil
  by_cases hzero : c = '0'
  · subst hzero
    cases h.eq_zero rfl
    rfl
  · have hwhole : whole? (c :: tail ++ rest) = digits? (c :: tail ++ rest) := by
      unfold whole?
      split
      · rename_i heq
        cases heq
        exact absurd rfl hzero
      · rfl
    rw [hwhole, digits?_append h.toDigits hrest]

theorem fraction?_point (h : Digits fraction) (hrest : EndsDigits rest) :
    fraction? ('.' :: (fraction ++ rest)) = some (some fraction, rest) := by
  simp [fraction?, digits?_append h hrest]

theorem fraction?_none (h : ∀ c ∈ rest.head?, c ≠ '.') : fraction? rest = some (none, rest) := by
  unfold fraction?
  split
  · exact absurd rfl (h _ rfl)
  · rfl

theorem power?_none (h : ∀ c ∈ rest.head?, c ≠ 'e' ∧ c ≠ 'E') : power? rest = some (none, rest) := by
  cases rest with
  | nil => rfl
  | cons c rest =>
    have hc := h c rfl
    simp [power?, hc.1, hc.2]

theorem power?_signed (h : Digits power) (hrest : EndsDigits rest) (negative : Bool) :
    power? ('e' :: (if negative then '-' else '+') :: (power ++ rest)) =
      some (some (if negative then -(digitsValue 0 power : Int) else digitsValue 0 power), rest) := by
  cases negative <;> simp [power?, digits?_append h hrest]

-- ---------------------------------------------------------------------------
-- Unsigned numbers
-- ---------------------------------------------------------------------------

theorem unsigned?_whole (h : Whole whole) (hrest : EndsNumber rest) (negative : Bool) :
    unsigned? negative (whole ++ rest) = some (ofWhole negative (digitsValue 0 whole), rest) := by
  have hpoint : fraction? rest = some (none, rest) := fraction?_none fun c hc => (hrest c hc).2.1
  have hpower : power? rest = some (none, rest) := power?_none fun c hc => (hrest c hc).2.2
  simp [unsigned?, whole?_append h hrest.endsDigits, hpoint, hpower]

theorem unsigned?_pointed (hwhole : Whole whole) (hfraction : Digits fraction)
    (hrest : EndsNumber rest) (negative : Bool) :
    unsigned? negative (whole ++ '.' :: (fraction ++ rest)) =
      some (ofDouble (toDouble negative (digitsValue 0 (whole ++ fraction)) (-(fraction.length : Int))),
        rest) := by
  have hpower : power? rest = some (none, rest) := power?_none fun c hc => (hrest c hc).2.2
  simp [unsigned?, whole?_append hwhole EndsDigits.point, fraction?_point hfraction hrest.endsDigits,
    hpower, Decimal.digitsValue_append]

theorem unsigned?_powered (hwhole : Whole whole) (hfraction : ∀ c ∈ fraction, isAsciiDigit c = true)
    (hpower : Digits power) (hrest : EndsNumber rest) (negative down : Bool) :
    unsigned? negative (whole ++ ((if fraction = [] then [] else '.' :: fraction) ++
        'e' :: (if down then '-' else '+') :: (power ++ rest))) =
      some (ofDouble (toDouble negative (digitsValue 0 (whole ++ fraction))
        ((if down then -(digitsValue 0 power : Int) else digitsValue 0 power) - fraction.length)),
        rest) := by
  have hsigned := power?_signed hpower hrest.endsDigits down
  generalize htail : 'e' :: (if down then '-' else '+') :: (power ++ rest) = tail at hsigned
  have hends : EndsDigits tail := by
    rw [← htail]
    rintro c ⟨rfl⟩
    rfl
  by_cases hnil : fraction = []
  · have hpoint : fraction? tail = some (none, tail) := by
      rw [← htail]
      exact fraction?_none (by simp)
    have hvalue : ∀ start, digitsValue start [] = start := fun _ => rfl
    simp [unsigned?, hnil, whole?_append hwhole hends, hpoint, hsigned, hvalue]
  · have hdigits : Digits fraction := ⟨hnil, hfraction⟩
    simp [unsigned?, hnil, whole?_append hwhole EndsDigits.point, fraction?_point hdigits hends,
      hsigned, Decimal.digitsValue_append]

-- ---------------------------------------------------------------------------
-- Signed numbers
-- ---------------------------------------------------------------------------

theorem toList_sign (negative : Bool) : (if negative then "-" else "").toList = sign negative := by
  cases negative <;> rfl

theorem number?_sign {text : List Char} (h : ∃ c ∈ text.head?, isAsciiDigit c = true) (negative : Bool) :
    number? (sign negative ++ text) = unsigned? negative text := by
  cases negative with
  | true => rfl
  | false =>
    obtain ⟨c, hc, hdigit⟩ := h
    cases text with
    | nil => cases hc
    | cons first tail =>
      cases hc
      unfold number?
      split
      · rename_i heq
        cases heq
        cases hdigit
      · rfl

def StartsNumber (text : List Char) : Prop := ∃ c ∈ text.head?, c = '-' ∨ isAsciiDigit c = true

theorem startsNumber_sign {text : List Char} (h : ∃ c ∈ text.head?, isAsciiDigit c = true)
    (negative : Bool) : StartsNumber (sign negative ++ text) := by
  cases negative with
  | true => exact ⟨'-', rfl, .inl rfl⟩
  | false =>
    obtain ⟨c, hc, hdigit⟩ := h
    exact ⟨c, hc, .inr hdigit⟩

theorem toList_int (i : Int) :
    (toString i).toList = sign (decide (i < 0)) ++ (toString i.natAbs).toList := by
  rw [Decimal.toString_int, String.toList_append, toList_sign]

theorem startsNumber_int (i : Int) : StartsNumber (toString i).toList := by
  rw [toList_int]
  apply startsNumber_sign
  simpa using (Decimal.digits_toString i.natAbs).head_append []

theorem number?_int {i : Int} (hlow : -(twoTo 63 : Int) ≤ i) (hhigh : i < twoTo 64)
    (hrest : EndsNumber rest) : number? ((toString i).toList ++ rest) = some (.int i, rest) := by
  have hwhole := Decimal.whole_toString i.natAbs
  rw [toList_int, List.append_assoc, number?_sign (hwhole.head_append rest),
    unsigned?_whole hwhole hrest, Decimal.digitsValue_toString]
  have hvalue : ofWhole (decide (i < 0)) i.natAbs = .int i := by
    unfold ofWhole
    by_cases hneg : i < 0
    · rw [decide_eq_true hneg, if_pos rfl, if_pos (by omega)]
      congr 1
      omega
    · rw [decide_eq_false hneg, if_neg (by decide), if_pos (by omega)]
      congr 1
      omega
  rw [hvalue]

-- ---------------------------------------------------------------------------
-- Doubles
-- ---------------------------------------------------------------------------

section
variable {m : Magnitude} {x : Double}

def storedNumeral (m : Magnitude) : String :=
  let s := shortest .even m
  let power : Int := s.exponent + (toString s.digits).length - 1
  if m.significand = 0 then "0.0"
  else if power < -5 ∨ 16 ≤ power then s.scientific
  else if 0 ≤ s.exponent then s.positional ++ ".0"
  else s.positional

theorem toList_storedText (h : x.magnitude? = some m) :
    (storedText x).toList = sign x.isNegative ++ (storedNumeral m).toList := by
  have htext : storedText x = signOf x ++ storedNumeral m := by
    simp only [storedText, h, storedNumeral]
    split
    · rfl
    · split
      · rfl
      · split
        · exact String.append_assoc
        · rfl
  rw [htext, String.toList_append, signOf, toList_sign]

structure ReadsAs (m : Magnitude) (text : List Char) : Prop where
  begins : ∃ c ∈ text.head?, isAsciiDigit c = true
  reads : ∀ negative rest, EndsNumber rest →
    unsigned? negative (text ++ rest) = some (ofDouble (ofMagnitude negative m), rest)

theorem readsAs_pointed (hm : m.Canonical) (hwhole : Whole whole) (hfraction : Digits fraction)
    (hvalue : (digitsValue 0 (whole ++ fraction) : ℚ) * 10 ^ (-(fraction.length : Int)) =
      (shortest .even m).value)
    (hlength : fraction.length ≤ 341) : ReadsAs m (whole ++ '.' :: fraction) := by
  refine ⟨hwhole.head_append _, fun negative rest hrest => ?_⟩
  have htext : whole ++ '.' :: fraction ++ rest = whole ++ '.' :: (fraction ++ rest) := by simp
  rw [htext, unsigned?_pointed hwhole hfraction hrest,
    Decimal.toDouble_of_value .even negative hm hvalue (by omega)]

theorem scientific_eq (s : Scaled) : ∃ lead fraction,
    (toString s.digits).toList = lead :: fraction ∧
      s.scientific.toList = [lead] ++ ((if fraction = [] then [] else '.' :: fraction) ++
        'e' :: (if decide (s.exponent + fraction.length < 0) then '-' else '+') ::
          (toString (s.exponent + fraction.length).natAbs).toList) := by
  obtain ⟨lead, fraction, hdigits⟩ :=
    List.exists_cons_of_ne_nil (Decimal.digits_toString s.digits).ne_nil
  have hlength : (toString s.digits).length = fraction.length + 1 := by
    rw [← String.length_toList, hdigits, List.length_cons]
  have hpower : s.exponent + (toString s.digits).length - 1 = s.exponent + fraction.length := by
    rw [hlength]
    omega
  refine ⟨lead, fraction, hdigits, ?_⟩
  unfold Scaled.scientific
  simp only [hpower]
  rw [hlength, hdigits]
  generalize s.exponent + (fraction.length : Int) = power
  by_cases hdown : power < 0 <;> cases fraction <;> simp [hdown]

theorem readsAs_scientific (hm : m.Canonical) : ReadsAs m (shortest .even m).scientific.toList := by
  obtain ⟨lead, fraction, hdigits, htext⟩ := scientific_eq (shortest .even m)
  have hall := (Decimal.digits_toString (shortest .even m).digits).isDigit
  rw [hdigits] at hall
  have hlead : Whole [lead] := by
    refine ⟨⟨nofun, by simpa using hall lead⟩, ?_⟩
    rintro ⟨rfl⟩
    rfl
  have hvalue : digitsValue 0 ([lead] ++ fraction) = (shortest .even m).digits := by
    rw [List.singleton_append, ← hdigits, Decimal.digitsValue_toString]
  have hpower : ∀ power : Int, (if decide (power < 0) then
      -(digitsValue 0 (toString power.natAbs).toList : Int)
      else digitsValue 0 (toString power.natAbs).toList) = power := by
    intro power
    rw [Decimal.digitsValue_toString]
    by_cases hdown : power < 0
    · rw [decide_eq_true hdown, if_pos rfl]
      omega
    · rw [decide_eq_false hdown, if_neg (by decide)]
      omega
  have hexponent := Decimal.neg_exponent_le .even hm
  rw [htext]
  refine ⟨⟨lead, rfl, hall lead List.mem_cons_self⟩, fun negative rest hrest => ?_⟩
  have hreads := unsigned?_powered hlead (fun c hc => hall c (List.mem_cons_of_mem _ hc))
    (Decimal.digits_toString ((shortest .even m).exponent + fraction.length).natAbs) hrest negative
    (decide ((shortest .even m).exponent + fraction.length < 0))
  rw [hpower, hvalue, Int.add_sub_cancel,
    Decimal.toDouble_of_value .even negative hm rfl (by omega)] at hreads
  simpa only [List.append_assoc, List.cons_append] using hreads

theorem readsAs_stored (hm : m.Canonical) : ReadsAs m (storedNumeral m).toList := by
  have hexponent := Decimal.neg_exponent_le .even hm
  have hzero : ∀ n, digitsValue n ['0'] = 10 * n := fun _ => rfl
  have hwhole : Whole ['0'] := .zero
  have hfraction : Digits ['0'] := .zero
  simp only [storedNumeral]
  split
  · rename_i hsignificand
    refine readsAs_pointed hm hwhole hfraction ?_ (by decide)
    simp [shortest, hsignificand, Scaled.value, digitsValue, Text.digitValue]
  rename_i hsignificand
  have hpos := (Decimal.shortest_spec .even hm (Nat.pos_of_ne_zero hsignificand)).1
  split
  · exact readsAs_scientific hm
  split
  · rename_i hnonneg
    have hend : ".0".toList = ['.', '0'] := rfl
    rw [String.toList_append, hend]
    refine readsAs_pointed hm (Decimal.whole_positional hpos hnonneg) hfraction ?_ (by decide)
    obtain ⟨n, hn⟩ := Int.eq_ofNat_of_zero_le hnonneg
    rw [Decimal.digitsValue_append, Decimal.digitsValue_positional hnonneg, hzero, Scaled.value, hn]
    push_cast
    simp only [Int.toNat_natCast, List.length_singleton, zpow_natCast]
    ring
  · rename_i hneg
    obtain ⟨whole, fraction, htext, hwhole, hfraction, hvalue, hlength⟩ :=
      Decimal.positional_of_neg (not_le.mp hneg)
    rw [htext]
    refine readsAs_pointed hm hwhole hfraction ?_ (by omega)
    rw [hvalue, hlength, Int.neg_neg, Scaled.value]

theorem startsNumber_float (hx : x.isFinite = true) : StartsNumber (storedText x).toList := by
  obtain ⟨m, hm⟩ := Double.isFinite_iff.mp hx
  rw [toList_storedText hm]
  exact startsNumber_sign (readsAs_stored (Double.canonical_of_magnitude? hm)).begins _

theorem number?_float (hx : x.isFinite = true) (hrest : EndsNumber rest) :
    number? ((storedText x).toList ++ rest) = some (.float x, rest) := by
  obtain ⟨m, hm⟩ := Double.isFinite_iff.mp hx
  obtain ⟨hbegins, hreads⟩ := readsAs_stored (Double.canonical_of_magnitude? hm)
  have hhead : ∃ c ∈ ((storedNumeral m).toList ++ rest).head?, isAsciiDigit c = true := by
    obtain ⟨c, hc, hdigit⟩ := hbegins
    exact ⟨c, by rw [List.head?_append, hc]; rfl, hdigit⟩
  rw [toList_storedText hm, List.append_assoc, number?_sign hhead, hreads _ _ hrest,
    Double.ofMagnitude_magnitude? hm, ofDouble, if_pos hx]

end

end TradingRules.Json
