import TradingRules.Token.Lexer

/-!
# Where tokens stand

A text is its tokens with blanks between them: each token stands behind what is in front of it, and what
is written there spells it (`laid_strict`, `laid_recovering`). Only behind a token that ends lexing is
there text that belongs to no token.
-/

namespace TradingRules

-- ---------------------------------------------------------------------------
-- Places in a text
-- ---------------------------------------------------------------------------

namespace Position

/-- The place behind the front of a text: lines are counted by the line feeds in it, columns from the last
of them on, and the offset is its size in bytes. -/
def behind (front : List Char) : Position :=
  ⟨front.count '\n' + 1, (front.reverse.takeWhile (· != '\n')).length + 1, (String.ofList front).utf8ByteSize⟩

theorem start_eq_behind : start = behind [] := rfl

theorem after_behind (front : List Char) (c : Char) : (behind front).after c = behind (front ++ [c]) := by
  by_cases hc : c = '\n'
  · subst hc
    have hsize : '\n'.utf8Size = "\n".utf8ByteSize := rfl
    simp [behind, after, String.ofList_append, hsize]
  · simp [behind, after, hc, String.ofList_append]

theorem advance_behind (front text : List Char) : (behind front).advance text = behind (front ++ text) := by
  induction text generalizing front with
  | nil => rw [advance, List.foldl_nil, List.append_nil]
  | cons c text ih =>
    have hrest := ih (front ++ [c])
    rw [advance] at hrest ⊢
    rw [List.foldl_cons, after_behind, hrest, List.append_assoc, List.singleton_append]

theorem endOf_eq_behind (source : String) : endOf source = behind source.toList := by
  rw [endOf, start_eq_behind, advance_behind, List.nil_append]

theorem offset_behind_append (front text : List Char) :
    (behind (front ++ text)).offset = (behind front).offset + (behind text).offset := by
  simp [behind, String.ofList_append]

theorem offset_behind_pos {text : List Char} (h : text ≠ []) : 0 < (behind text).offset := by
  obtain ⟨c, rest, rfl⟩ := List.exists_cons_of_ne_nil h
  have hfirst : 0 < (behind [c]).offset := by simpa [behind] using Char.utf8Size_pos c
  have hsum := offset_behind_append [c] rest
  rw [List.singleton_append] at hsum
  omega

end Position

namespace Token

open Text (isAsciiDigit isBlank)
open Position (behind)

-- ---------------------------------------------------------------------------
-- What is written for a token
-- ---------------------------------------------------------------------------

/-- The inside of a string and its content: a character stands for itself, or two for an escape. -/
inductive Escaped (quote : Char) : List Char → List Char → Prop
  | nil : Escaped quote [] []
  | plain (hquote : c ≠ quote) (hline : c ≠ '\n') (hescape : c ≠ '\\') (h : Escaped quote body content) :
      Escaped quote (c :: body) (c :: content)
  | escape (h : Escaped quote body content) : Escaped quote ('\\' :: e :: body) (unescape e ++ content)

/-- What is written for a token of a kind and a text. A string without an end breaks off at the end of the
text, behind a bare line feed or behind a backslash. -/
inductive Covers : Kind → List Char → List Char → Prop
  | plain {kind : Kind} {text : List Char} (hstring : kind ≠ .string)
      (hunended : kind ≠ .fault .unterminatedString) : Covers kind text text
  | string (hquote : quote = '"' ∨ quote = '\'') (h : Escaped quote body content) :
      Covers .string content (quote :: (body ++ [quote]))
  | unended (hquote : quote = '"' ∨ quote = '\'') (h : Escaped quote body content)
      (hbreak : broken ∈ [[], ['\n'], ['\\']]) :
      Covers (.fault .unterminatedString) content (quote :: (body ++ broken))

theorem run_le (p : Char → Bool) (text : List Char) : run p text ≤ text.length :=
  (List.takeWhile_sublist p).length_le

theorem run_pos {p : Char → Bool} {c : Char} (h : p c = true) (rest : List Char) : 0 < run p (c :: rest) := by
  rw [run, List.takeWhile_cons_of_pos h]
  exact Nat.succ_pos _

theorem fractionLength_le (text : List Char) : fractionLength text ≤ text.length := by
  unfold fractionLength
  split
  · rename_i c rest
    have hdigits := run_le isAsciiDigit (c :: rest)
    split <;> simp only [List.length_cons] at * <;> omega
  · exact Nat.zero_le _

theorem signLength_le (text : List Char) : signLength text ≤ text.length := by
  unfold signLength
  split <;> simp

theorem unglued_spec {text : List Char} {kind : Kind} {length : Nat} (hkind : kind = .int ∨ kind = .float)
    (hlength : length ≤ text.length) :
    (unglued text kind length).1 ∈ [.int, .float, .fault .malformedNumber] ∧
      length ≤ (unglued text kind length).2 ∧ (unglued text kind length).2 ≤ text.length := by
  have hplain : kind ∈ [.int, .float, .fault .malformedNumber] := by rcases hkind with rfl | rfl <;> simp
  unfold unglued
  split
  · rename_i c rest hdrop
    have hrest := congrArg List.length hdrop
    have hword := run_le continuesWord (c :: rest)
    rw [List.length_drop] at hrest
    split
    · refine ⟨by simp, ?_, ?_⟩ <;> dsimp only <;> omega
    · exact ⟨hplain, Nat.le_refl _, hlength⟩
  · exact ⟨hplain, Nat.le_refl _, hlength⟩

theorem number_spec (text : List Char) :
    (number text).1 ∈ [.int, .float, .fault .malformedNumber] ∧
      run isAsciiDigit text ≤ (number text).2 ∧ (number text).2 ≤ text.length := by
  unfold number
  extract_lets whole fraction mantissa kind
  have hrun : run isAsciiDigit text = whole := rfl
  have hsum : mantissa = whole + fraction := rfl
  have hwhole : whole ≤ text.length := run_le isAsciiDigit text
  have hfraction : fraction ≤ (text.drop whole).length := fractionLength_le (text.drop whole)
  rw [List.length_drop] at hfraction
  have hmantissa : mantissa ≤ text.length := by omega
  have hkind : kind = .int ∨ kind = .float := by
    by_cases h : fraction = 0
    · exact .inl (if_pos h)
    · exact .inr (if_neg h)
  split
  · rename_i c rest hdrop
    have hrest := congrArg List.length hdrop
    rw [List.length_drop, List.length_cons] at hrest
    split
    · extract_lets sign digits length
      have hthrough : length = mantissa + 1 + sign + digits := rfl
      have hsign : sign ≤ rest.length := signLength_le rest
      have hdigits : digits ≤ (rest.drop sign).length := run_le isAsciiDigit (rest.drop sign)
      rw [List.length_drop] at hdigits
      have hlength : length ≤ text.length := by omega
      split
      · exact ⟨by simp, by dsimp only; omega, hlength⟩
      · have hfloat : Kind.float = .int ∨ Kind.float = .float := .inr rfl
        obtain ⟨hfound, hleast, hmost⟩ := unglued_spec hfloat hlength
        exact ⟨hfound, by omega, hmost⟩
    · obtain ⟨hfound, hleast, hmost⟩ := unglued_spec hkind hmantissa
      exact ⟨hfound, by omega, hmost⟩
  · refine ⟨?_, by dsimp only; omega, hmantissa⟩
    rcases hkind with h | h <;> simp [h]

theorem stringBody_spec (quote : Char) (text : List Char) : ∃ body last rest, text = body ++ last ++ rest ∧
    Escaped quote body (stringBody quote text).2.1 ∧
    (stringBody quote text).2.2 = (body ++ last).length ∧
    (if (stringBody quote text).1 then last = [quote] else last ∈ [[], ['\n'], ['\\']]) := by
  fun_induction stringBody quote text with
  | case1 => exact ⟨[], [], [], rfl, .nil, rfl, by simp⟩
  | case2 rest => exact ⟨[], [quote], rest, rfl, .nil, rfl, by simp⟩
  | case3 rest => exact ⟨[], ['\n'], rest, rfl, .nil, rfl, by simp⟩
  | case4 => exact ⟨[], ['\\'], [], rfl, .nil, rfl, by simp⟩
  | case5 e rest closed content length hrest _ _ ih =>
    obtain ⟨body, last, rest', htext, hescaped, hlength, hlast⟩ := ih
    rw [hrest] at hescaped hlength hlast
    refine ⟨'\\' :: e :: body, last, rest', by simp [htext], hescaped.escape, ?_, hlast⟩
    simp only [List.cons_append, List.length_cons] at hlength ⊢
    omega
  | case6 c rest hquote hline hescape closed content length hrest ih =>
    obtain ⟨body, last, rest', htext, hescaped, hlength, hlast⟩ := ih
    rw [hrest] at hescaped hlength hlast
    refine ⟨c :: body, last, rest', by simp [htext], .plain hquote hline hescape hescaped, ?_, hlast⟩
    simp only [List.cons_append, List.length_cons] at hlength ⊢
    omega

theorem startsWord_continues {c : Char} (h : startsWord c = true) : continuesWord c = true := by
  simp only [startsWord, continuesWord, Text.isAlphanumeric, Bool.or_eq_true] at h ⊢
  exact h.imp_left .inl

theorem symbolKind_plain (c : Char) :
    symbolKind c ≠ .string ∧ symbolKind c ≠ .fault .unterminatedString := by
  unfold symbolKind
  split
  · decide
  · split <;> decide

theorem covers_take {text : List Char} {kind : Kind} {length : Nat} (hstring : kind ≠ .string)
    (hunended : kind ≠ .fault .unterminatedString) (hpos : 0 < length) (hle : length ≤ text.length) :
    ∃ raw rest, text = raw ++ rest ∧ raw ≠ [] ∧ length = raw.length ∧ Covers kind (text.take length) raw := by
  have hlength : (text.take length).length = length := by rw [List.length_take, Nat.min_eq_left hle]
  refine ⟨text.take length, text.drop length, (List.take_append_drop length text).symm, ?_, hlength.symm,
    .plain hstring hunended⟩
  exact List.ne_nil_of_length_pos (hlength.symm ▸ hpos)

theorem lexeme_spec (c : Char) (rest : List Char) : ∃ raw after, c :: rest = raw ++ after ∧ raw ≠ [] ∧
    (lexeme c rest).length = raw.length ∧ Covers (lexeme c rest).kind (lexeme c rest).text raw := by
  unfold lexeme
  extract_lets text length word
  split
  · rename_i hdigit
    have hnumber := number_spec text
    cases hfound : number text with
    | mk kind taken =>
      rw [hfound] at hnumber
      obtain ⟨hkind, hleast, hmost⟩ := hnumber
      have hpos := Nat.lt_of_lt_of_le (run_pos hdigit rest) hleast
      simp only [List.mem_cons, List.not_mem_nil, or_false] at hkind
      rcases hkind with rfl | rfl | rfl <;> exact covers_take nofun nofun hpos hmost
  split
  · rename_i hquote
    obtain ⟨body, last, after, hrest, hescaped, hlength, hlast⟩ := stringBody_spec c rest
    refine ⟨c :: (body ++ last), after, by simp [hrest], List.cons_ne_nil _ _, ?_, ?_⟩
    · simp [hlength]
    · cases hclosed : (stringBody c rest).1 with
      | true =>
        rw [hclosed, if_pos rfl] at hlast
        simpa [hclosed, hlast] using Covers.string hquote hescaped
      | false =>
        rw [hclosed, if_neg Bool.false_ne_true] at hlast
        simpa [hclosed] using Covers.unended hquote hescaped hlast
  split
  · rename_i hstart
    have hpos := run_pos (startsWord_continues hstart) rest
    have hmost := run_le continuesWord text
    by_cases hkeyword : String.ofList word ∈ keywords
    · exact covers_take (by simp [hkeyword]) (by simp [hkeyword]) hpos hmost
    · exact covers_take (by simp [hkeyword]) (by simp [hkeyword]) hpos hmost
  split
  · rename_i hpair
    have hmost : 2 ≤ text.length := by
      cases rest with
      | nil => cases hpair
      | cons d rest => simp [text]
    exact covers_take nofun nofun Nat.zero_lt_two hmost
  · have ⟨hstring, hunended⟩ := symbolKind_plain c
    exact ⟨[c], rest, rfl, List.cons_ne_nil _ _, rfl, .plain hstring hunended⟩

-- ---------------------------------------------------------------------------
-- A text and its tokens
-- ---------------------------------------------------------------------------

/-- The tokens of a text behind a front, with blanks in front of them and at the end. -/
inductive Laid (recover : Bool) : (front text : List Char) → List Token → Prop
  | blanks (hgap : ∀ c ∈ gap, isBlank c = true) : Laid recover front gap []
  | last {t : Token} (hgap : ∀ c ∈ gap, isBlank c = true) (hplace : t.place = behind (front ++ gap))
      (hraw : Covers t.kind t.text.toList raw) (hends : t.kind.ends recover = true) :
      Laid recover front (gap ++ raw ++ rest) [t]
  | more {t : Token} (hgap : ∀ c ∈ gap, isBlank c = true) (hplace : t.place = behind (front ++ gap))
      (hraw : Covers t.kind t.text.toList raw) (hraw' : raw ≠ []) (hgo : t.kind.ends recover = false)
      (hrest : Laid recover (front ++ gap ++ raw) rest tokens) :
      Laid recover front (gap ++ raw ++ rest) (t :: tokens)

variable {recover : Bool} {front text gap : List Char} {tokens : List Token}

theorem Laid.blank {c : Char} (hblank : isBlank c = true) (h : Laid recover (front ++ [c]) text tokens) :
    Laid recover front (c :: text) tokens := by
  generalize hfront : front ++ [c] = front' at h
  have hcons {gap : List Char} (hgap : ∀ d ∈ gap, isBlank d = true) : ∀ d ∈ c :: gap, isBlank d = true :=
    List.forall_mem_cons.mpr ⟨hblank, hgap⟩
  cases h with
  | blanks hgap => exact .blanks (hcons hgap)
  | last hgap hplace hraw hends =>
    subst hfront
    refine .last (hcons hgap) ?_ hraw hends
    rw [hplace, List.append_assoc, List.singleton_append]
  | more hgap hplace hraw hraw' hgo hrest =>
    subst hfront
    refine .more (hcons hgap) ?_ hraw hraw' hgo ?_
    · rw [hplace, List.append_assoc, List.singleton_append]
    · simpa using hrest

/-- What is left to lex is laid out behind what was lexed and the characters still passed over. -/
theorem laid_lexFrom (recover : Bool) (passed : Nat) (p : Position) (text : List Char) (front : List Char)
    (hp : p = behind front) (hpassed : passed ≤ text.length) :
    Laid recover (front ++ text.take passed) (text.drop passed) (lexFrom recover passed p text) := by
  -- The front grows by one character a step; what is passed over belongs to the token found last.
  fun_induction lexFrom recover passed p text generalizing front with
  | case1 => rw [List.drop_nil]; exact .blanks nofun
  | case2 passed p c rest ih =>
    have hrest := ih (front ++ [c]) (hp ▸ Position.after_behind front c) (Nat.le_of_succ_le_succ hpassed)
    simpa using hrest
  | case3 p c rest hblank ih =>
    have hrest := ih (front ++ [c]) (hp ▸ Position.after_behind front c) (Nat.zero_le _)
    rw [List.take_zero, List.drop_zero, List.append_nil] at hrest
    simpa using hrest.blank hblank
  | case4 p c rest hblank found token hends =>
    obtain ⟨raw, after, htext, -, -, hcovers⟩ := lexeme_spec c rest
    have hlast : Laid recover front ([] ++ raw ++ after) [token] :=
      .last nofun (by simpa using hp) (by simpa [token, found] using hcovers) hends
    simpa [htext] using hlast
  | case5 p c rest hblank found token hends ih =>
    obtain ⟨raw, after, htext, hraw, hlength, hcovers⟩ := lexeme_spec c rest
    obtain ⟨d, raw, rfl⟩ := List.exists_cons_of_ne_nil hraw
    rw [List.cons_append, List.cons.injEq] at htext
    obtain ⟨rfl, rfl⟩ := htext
    have hpassed : found.length - 1 = raw.length := by
      rw [hlength, List.length_cons, Nat.add_sub_cancel]
    have hrest := ih (front ++ [c]) (hp ▸ Position.after_behind front c) (by simp [hpassed])
    rw [hpassed, List.take_left, List.drop_left] at hrest
    have hmore : Laid recover front ([] ++ (c :: raw) ++ after)
        (token :: lexFrom recover raw.length (p.after c) (raw ++ after)) :=
      .more nofun (by simpa using hp) (by simpa [token, found] using hcovers) hraw (by simpa using hends)
        (by simpa using hrest)
    simpa [hpassed] using hmore

theorem laid_strict (source : String) : Laid false [] source.toList (strict source) := by
  simpa [strict] using laid_lexFrom false 0 .start source.toList [] rfl (Nat.zero_le _)

theorem laid_recovering (source : String) : Laid true [] source.toList (recovering source) := by
  simpa [recovering] using laid_lexFrom true 0 .start source.toList [] rfl (Nat.zero_le _)

-- ---------------------------------------------------------------------------
-- From one token to the next
-- ---------------------------------------------------------------------------

def Reached (front rest : List Char) : List Token → Prop
  | [] => rest = []
  | t :: _ => t.place = behind front

/-- A token of a text behind a front, with the tokens behind it: from what is written for it only blanks are
passed over to the next one, unless lexing ends with it. -/
def Followed (recover : Bool) (front text : List Char) (t : Token) (us : List Token) : Prop :=
  ∃ passed raw gap rest, text = passed ++ raw ++ gap ++ rest ∧ t.place = behind (front ++ passed) ∧
    Covers t.kind t.text.toList raw ∧ (∀ c ∈ gap, isBlank c = true) ∧
    (t.kind.ends recover = true ∧ us = [] ∨ Reached (front ++ passed ++ raw ++ gap) rest us)

/-- The tokens of a text that stands behind a front: they stand one behind the other, only blanks are in front
of the first, and so from each to the next. -/
structure Placed (recover : Bool) (front text : List Char) (tokens : List Token) : Prop where
  increasing : tokens.Pairwise fun t u => t.place.offset < u.place.offset
  first : ∃ gap rest, text = gap ++ rest ∧ (∀ c ∈ gap, isBlank c = true) ∧ Reached (front ++ gap) rest tokens
  next (ts : List Token) (t : Token) (us : List Token) : tokens = ts ++ t :: us →
    Followed recover front text t us

theorem Laid.offset_le (h : Laid recover front text tokens) :
    ∀ t ∈ tokens, (behind front).offset ≤ t.place.offset := by
  induction h with
  | blanks => exact nofun
  | last _ hplace =>
    intro t ht
    rw [List.mem_singleton.mp ht, hplace, Position.offset_behind_append]
    exact Nat.le_add_right _ _
  | more _ hplace _ _ _ _ ih =>
    refine List.forall_mem_cons.mpr ⟨?_, fun t ht => ?_⟩
    · rw [hplace, Position.offset_behind_append]
      exact Nat.le_add_right _ _
    · have hle := ih t ht
      rw [Position.offset_behind_append, Position.offset_behind_append] at hle
      omega

theorem Laid.increasing (h : Laid recover front text tokens) :
    tokens.Pairwise fun t u => t.place.offset < u.place.offset := by
  induction h with
  | blanks => exact .nil
  | last => exact List.pairwise_singleton _ _
  | more _ hplace _ hraw' _ hrest ih =>
    refine List.pairwise_cons.mpr ⟨fun u hu => ?_, ih⟩
    have hle := hrest.offset_le u hu
    have hpos := Position.offset_behind_pos hraw'
    rw [Position.offset_behind_append] at hle
    rw [hplace]
    omega

theorem Laid.first (h : Laid recover front text tokens) : ∃ gap rest, text = gap ++ rest ∧
    (∀ c ∈ gap, isBlank c = true) ∧ Reached (front ++ gap) rest tokens := by
  cases h with
  | blanks hgap => exact ⟨text, [], (List.append_nil _).symm, hgap, rfl⟩
  | last hgap hplace => exact ⟨_, _, List.append_assoc _ _ _, hgap, hplace⟩
  | more hgap hplace => exact ⟨_, _, List.append_assoc _ _ _, hgap, hplace⟩

theorem Laid.next (h : Laid recover front text tokens) (ts : List Token) (t : Token) (us : List Token)
    (htokens : tokens = ts ++ t :: us) : Followed recover front text t us := by
  induction h generalizing ts with
  | blanks => simp at htokens
  | @last gap front raw rest u hgap hplace hraw hends =>
    obtain ⟨rfl, rfl, rfl⟩ : ts = [] ∧ u = t ∧ us = [] := by
      cases ts with
      | nil => simpa using htokens
      | cons _ ts => simp at htokens
    exact ⟨gap, raw, [], rest, by simp, hplace, hraw, nofun, .inl ⟨hends, rfl⟩⟩
  | @more gap front raw rest tokens u hgap hplace hraw _ _ hrest ih =>
    cases ts with
    | nil =>
      obtain ⟨rfl, rfl⟩ := List.cons.inj htokens
      obtain ⟨gap', rest', rfl, hgap', hreached⟩ := hrest.first
      exact ⟨gap, raw, gap', rest', by simp, hplace, hraw, hgap', .inr hreached⟩
    | cons v ts =>
      obtain ⟨passed, raw', gap', rest', rfl, hplace', hraw', hgap', hnext⟩ := ih ts (List.cons.inj htokens).2
      refine ⟨gap ++ raw ++ passed, raw', gap', rest', by simp, by simpa using hplace', hraw', hgap', ?_⟩
      simpa using hnext

theorem Laid.placed (h : Laid recover front text tokens) : Placed recover front text tokens :=
  ⟨h.increasing, h.first, h.next⟩

theorem placed_strict (source : String) : Placed false [] source.toList (strict source) :=
  (laid_strict source).placed

theorem placed_recovering (source : String) : Placed true [] source.toList (recovering source) :=
  (laid_recovering source).placed

theorem Covers.eq_text {kind : Kind} {raw : List Char} (h : Covers kind text raw) (hstring : kind ≠ .string)
    (hunended : kind ≠ .fault .unterminatedString) : raw = text := by
  cases h with
  | plain => rfl
  | string => exact absurd rfl hstring
  | unended => exact absurd rfl hunended

/-- A token stands somewhere in the text, and there its own text is written unless it is a string. -/
theorem Placed.mem (h : Placed recover front text tokens) {t : Token} (ht : t ∈ tokens) :
    ∃ passed rest, text = passed ++ rest ∧ t.place = behind (front ++ passed) ∧
      (t.kind ≠ .string → t.kind ≠ .fault .unterminatedString → t.text.toList <+: rest) := by
  obtain ⟨ts, us, htokens⟩ := List.append_of_mem ht
  obtain ⟨passed, raw, gap, rest, htext, hplace, hraw, -⟩ := h.next ts t us htokens
  refine ⟨passed, raw ++ gap ++ rest, by simp [htext], hplace, fun hstring hunended => ?_⟩
  rw [hraw.eq_text hstring hunended, List.append_assoc]
  exact List.prefix_append _ _

end Token

end TradingRules
