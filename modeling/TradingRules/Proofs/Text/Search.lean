import Mathlib.Data.Nat.Find
import TradingRules.Text.Search

/-!
# What the search finds

The search gives the first place at which the needle stands (`indexOf?_eq_some_iff`). Places count
characters. In UTF-8 no character begins inside another, so that a search through the bytes finds the same
place: in front of it are the bytes of that many characters (`occursAt_bytes_iff`).
-/

namespace TradingRules.Text

-- ---------------------------------------------------------------------------
-- Places
-- ---------------------------------------------------------------------------

section
variable {α : Type} {needle text rest : List α} {c : α} {k : Nat}

/-- The needle stands in the text behind `k` elements. -/
def OccursAt (needle text : List α) (k : Nat) : Prop :=
  ∃ front back, text = front ++ needle ++ back ∧ front.length = k

theorem occursAt_zero : OccursAt needle text 0 ↔ needle <+: text := by
  constructor
  · rintro ⟨front, back, rfl, hfront⟩
    obtain rfl := List.length_eq_zero_iff.mp hfront
    exact ⟨back, rfl⟩
  · rintro ⟨back, rfl⟩
    exact ⟨[], back, rfl, rfl⟩

theorem occursAt_succ : OccursAt needle (c :: rest) (k + 1) ↔ OccursAt needle rest k := by
  constructor
  · rintro ⟨front, back, htext, hfront⟩
    cases front with
    | nil => cases hfront
    | cons first front =>
      cases htext
      exact ⟨front, back, rfl, Nat.succ.inj hfront⟩
  · rintro ⟨front, back, rfl, rfl⟩
    exact ⟨c :: front, back, rfl, rfl⟩

theorem OccursAt.le_length (h : OccursAt needle text k) : k + needle.length ≤ text.length := by
  obtain ⟨front, back, rfl, rfl⟩ := h
  simp

theorem isInfix_iff_occursAt : needle <:+: text ↔ ∃ k, OccursAt needle text k := by
  constructor
  · rintro ⟨front, back, rfl⟩
    exact ⟨front.length, front, back, rfl, rfl⟩
  · rintro ⟨-, front, back, rfl, -⟩
    exact ⟨front, back, rfl⟩

theorem occursAt_iff_part (h : k + needle.length ≤ text.length) :
    OccursAt needle text k ↔ (text.take (k + needle.length)).drop k = needle := by
  constructor
  · rintro ⟨front, back, rfl, rfl⟩
    rw [List.take_append_of_le_length (by simp), List.take_of_length_le (by simp), List.drop_left]
  · intro hpart
    have hfront : (text.take (k + needle.length)).take k = text.take k := by
      rw [List.take_take, Nat.min_eq_left (Nat.le_add_right _ _)]
    refine ⟨text.take k, text.drop (k + needle.length), ?_, List.length_take_of_le (by omega)⟩
    calc text = text.take (k + needle.length) ++ text.drop (k + needle.length) :=
          (List.take_append_drop _ _).symm
      _ = text.take k ++ needle ++ text.drop (k + needle.length) := by
          conv => enter [1, 1]; rw [← List.take_append_drop k (text.take (k + needle.length)), hfront, hpart]

structure FirstAt (needle text : List α) (k : Nat) : Prop where
  found : OccursAt needle text k
  none_before : ∀ j < k, ¬OccursAt needle text j

theorem FirstAt.unique {j : Nat} (h : FirstAt needle text j) (h' : FirstAt needle text k) : j = k := by
  rcases Nat.lt_trichotomy j k with hlt | heq | hgt
  · exact absurd h.found (h'.none_before j hlt)
  · exact heq
  · exact absurd h'.found (h.none_before k hgt)

theorem firstAt_zero : FirstAt needle text 0 ↔ needle <+: text :=
  ⟨fun h => occursAt_zero.mp h.found, fun h => ⟨occursAt_zero.mpr h, nofun⟩⟩

theorem firstAt_succ (hzero : ¬OccursAt needle (c :: rest) 0) :
    FirstAt needle (c :: rest) (k + 1) ↔ FirstAt needle rest k := by
  constructor
  · rintro ⟨hfound, hnone⟩
    exact ⟨occursAt_succ.mp hfound, fun j hj => fun h => hnone (j + 1) (by omega) (occursAt_succ.mpr h)⟩
  · rintro ⟨hfound, hnone⟩
    refine ⟨occursAt_succ.mpr hfound, fun j hj => ?_⟩
    cases j with
    | zero => exact hzero
    | succ j => exact fun h => hnone j (by omega) (occursAt_succ.mp h)

end

-- ---------------------------------------------------------------------------
-- Searching
-- ---------------------------------------------------------------------------

section
variable {needle text : List Char} {k : Nat}

theorem indexOf?_eq_some_iff : indexOf? needle text = some k ↔ FirstAt needle text k := by
  induction text generalizing k with
  | nil =>
    cases needle with
    | nil =>
      have hzero : FirstAt ([] : List Char) [] 0 := firstAt_zero.mpr List.nil_prefix
      constructor
      · rintro ⟨⟩
        exact hzero
      · intro h
        rw [h.unique hzero]
        rfl
    | cons c needle =>
      refine iff_of_false nofun fun h => ?_
      have hlength := h.found.le_length
      simp at hlength
  | cons c rest ih =>
    rw [indexOf?]
    split
    · rename_i hprefix
      have hzero : FirstAt needle (c :: rest) 0 := firstAt_zero.mpr (List.isPrefixOf_iff_prefix.mp hprefix)
      constructor
      · rintro ⟨⟩
        exact hzero
      · intro h
        rw [h.unique hzero]
    · rename_i hprefix
      have hzero : ¬OccursAt needle (c :: rest) 0 := fun h =>
        hprefix (List.isPrefixOf_iff_prefix.mpr (occursAt_zero.mp h))
      cases k with
      | zero => exact iff_of_false (by simp) fun h => hzero h.found
      | succ k => simp [firstAt_succ hzero, ih]

theorem indexOf?_eq_none_iff : indexOf? needle text = none ↔ ∀ k, ¬OccursAt needle text k := by
  constructor
  · intro hnone k hk
    classical
    have hsome : ∃ j, OccursAt needle text j := ⟨k, hk⟩
    have hfirst : FirstAt needle text (Nat.find hsome) := ⟨Nat.find_spec hsome, fun j => Nat.find_min hsome⟩
    rw [indexOf?_eq_some_iff.mpr hfirst] at hnone
    cases hnone
  · intro h
    refine Option.eq_none_iff_forall_ne_some.mpr fun k hk => ?_
    exact h k (indexOf?_eq_some_iff.mp hk).found

theorem contains_iff : contains text needle = true ↔ needle <:+: text := by
  rw [contains, isInfix_iff_occursAt, ← not_iff_not, Bool.not_eq_true, Option.isSome_eq_false_iff,
    Option.isNone_iff_eq_none, indexOf?_eq_none_iff, not_exists]

-- ---------------------------------------------------------------------------
-- Bytes
-- ---------------------------------------------------------------------------

def bytes (text : List Char) : List UInt8 := text.flatMap String.utf8EncodeChar

theorem bytes_append (front back : List Char) : bytes (front ++ back) = bytes front ++ bytes back :=
  List.flatMap_append

/-- Of the bytes of a character only the first begins one. -/
theorem isUTF8FirstByte_iff {c : Char} {front back : List UInt8} {b : UInt8}
    (h : String.utf8EncodeChar c = front ++ b :: back) : b.IsUTF8FirstByte ↔ front = [] := by
  have hi : front.length < (String.utf8EncodeChar c).length := by simp [h]
  have hb : (String.utf8EncodeChar c)[front.length] = b := by simp [h]
  rw [← hb, UInt8.isUTF8FirstByte_getElem_utf8EncodeChar, List.length_eq_zero_iff]

theorem exists_bytes_cons (c : Char) (rest : List Char) :
    ∃ b more, bytes (c :: rest) = b :: more ∧ b.IsUTF8FirstByte := by
  obtain ⟨b, more, hchar⟩ := List.exists_cons_of_ne_nil (String.utf8EncodeChar_ne_nil (c := c))
  have hfirst : b.IsUTF8FirstByte := by simpa using isUTF8FirstByte_iff (hchar.trans (List.nil_append _).symm)
  exact ⟨b, more ++ bytes rest, by simp [bytes, hchar], hfirst⟩

theorem isPrefix_of_bytes (h : bytes needle <+: bytes text) : needle <+: text := by
  obtain ⟨back, hback⟩ := h
  refine List.isPrefix_of_utf8Encode_append_eq_utf8Encode back.toByteArray ?_
  exact List.toByteArray_append.symm.trans (congrArg List.toByteArray hback)

/-- The bytes of a needle stand in a text only behind whole characters. -/
theorem exists_lead_of_bytes {front back : List UInt8} (hne : needle ≠ [])
    (h : bytes text = front ++ (bytes needle ++ back)) :
    ∃ lead rest, text = lead ++ needle ++ rest ∧ bytes lead = front := by
  obtain ⟨n, needle, rfl⟩ := List.exists_cons_of_ne_nil hne
  obtain ⟨b, more, hneedle, hfirst⟩ := exists_bytes_cons n needle
  induction text generalizing front with
  | nil =>
    rw [hneedle] at h
    simp [bytes] at h
  | cons c rest ih =>
    have hbehind {front : List UInt8} (hrest : bytes rest = front ++ (bytes (n :: needle) ++ back)) :
        ∃ lead tail, c :: rest = lead ++ n :: needle ++ tail ∧ bytes lead = String.utf8EncodeChar c ++ front := by
      obtain ⟨lead, tail, rfl, rfl⟩ := ih hrest
      exact ⟨c :: lead, tail, rfl, rfl⟩
    have hbytes : String.utf8EncodeChar c ++ bytes rest = front ++ (bytes (n :: needle) ++ back) := h
    rcases List.append_eq_append_iff.mp hbytes with ⟨front, rfl, hrest⟩ | ⟨inside, hchar, hinside⟩
    · exact hbehind hrest
    cases front with
    | nil =>
      obtain ⟨tail, htail⟩ := isPrefix_of_bytes ⟨back, h.symm⟩
      exact ⟨[], tail, htail.symm, rfl⟩
    | cons =>
      cases inside with
      | nil =>
        rw [List.append_nil] at hchar
        have hrest : bytes rest = [] ++ (bytes (n :: needle) ++ back) := hinside.symm
        obtain ⟨lead, tail, htext, hlead⟩ := hbehind hrest
        exact ⟨lead, tail, htext, by rw [hlead, hchar, List.append_nil]⟩
      -- a byte inside the character would be the first of the needle
      | cons b' inside =>
        rw [hneedle] at hinside
        obtain ⟨rfl, -⟩ := List.cons.inj hinside
        cases (isUTF8FirstByte_iff hchar).mp hfirst

theorem length_bytes_take_lt {j : Nat} (h : j < k) (hk : k ≤ text.length) :
    (bytes (text.take j)).length < (bytes (text.take k)).length := by
  have hsplit : text.take k = text.take j ++ (text.take k).drop j := by
    conv =>
      enter [1]
      rw [← List.take_append_drop j (text.take k), List.take_take, Nat.min_eq_left (Nat.le_of_lt h)]
  have hne : (text.take k).drop j ≠ [] := by
    refine List.ne_nil_of_length_pos ?_
    rw [List.length_drop, List.length_take_of_le hk]
    omega
  obtain ⟨c, more, hmore⟩ := List.exists_cons_of_ne_nil hne
  obtain ⟨b, rest, hbytes, -⟩ := exists_bytes_cons c more
  rw [hsplit, hmore, bytes_append, hbytes]
  simp

/-- The bytes of a needle stand behind the bytes of the characters that the needle stands behind, and nowhere
else. -/
theorem occursAt_bytes_iff {n : Nat} (hne : needle ≠ []) :
    OccursAt (bytes needle) (bytes text) n ↔
      ∃ k, OccursAt needle text k ∧ (bytes (text.take k)).length = n := by
  constructor
  · rintro ⟨front, back, htext, rfl⟩
    rw [List.append_assoc] at htext
    obtain ⟨lead, rest, rfl, rfl⟩ := exists_lead_of_bytes hne htext
    exact ⟨lead.length, ⟨lead, rest, rfl, rfl⟩, by simp⟩
  · rintro ⟨k, ⟨front, back, rfl, rfl⟩, rfl⟩
    exact ⟨bytes front, bytes back, by simp [bytes_append], by simp⟩

theorem firstAt_bytes_iff {n : Nat} : FirstAt (bytes needle) (bytes text) n ↔
    ∃ k, FirstAt needle text k ∧ (bytes (text.take k)).length = n := by
  rcases eq_or_ne needle [] with rfl | hne
  · have hbytes : FirstAt (bytes []) (bytes text) 0 := firstAt_zero.mpr List.nil_prefix
    have hchars : FirstAt [] text 0 := firstAt_zero.mpr List.nil_prefix
    constructor
    · intro h
      exact ⟨0, hchars, hbytes.unique h⟩
    · rintro ⟨k, hk, rfl⟩
      rw [hk.unique hchars]
      exact hbytes
  constructor
  · rintro ⟨hfound, hnone⟩
    obtain ⟨k, hk, rfl⟩ := (occursAt_bytes_iff hne).mp hfound
    refine ⟨k, ⟨hk, fun j hj hoccurs => ?_⟩, rfl⟩
    have hlength := hk.le_length
    exact hnone _ (length_bytes_take_lt hj (by omega)) ((occursAt_bytes_iff hne).mpr ⟨j, hoccurs, rfl⟩)
  · rintro ⟨k, hk, rfl⟩
    refine ⟨(occursAt_bytes_iff hne).mpr ⟨k, hk.found, rfl⟩, fun m hm hoccurs => ?_⟩
    obtain ⟨j, hj, rfl⟩ := (occursAt_bytes_iff hne).mp hoccurs
    rcases Nat.lt_trichotomy j k with hlt | rfl | hgt
    · exact hk.none_before j hlt hj
    · exact lt_irrefl _ hm
    · have hlength := hj.le_length
      exact lt_asymm hm (length_bytes_take_lt hgt (by omega))

end

end TradingRules.Text
