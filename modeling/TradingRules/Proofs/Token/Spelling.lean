import TradingRules.Proofs.Decimal.Digits
import TradingRules.Text.Quoted
import TradingRules.Token.Lexer
import Mathlib.Tactic.IntervalCases

/-!
# What a text is lexed as

Each kind of token is found at the front of a text that spells it, if what follows does not prolong it;
what is behind is lexed as if it stood alone. A quoted string is read back but for the characters whose
escapes the language does not know (`stringBody_quoted`).
-/

namespace TradingRules.Token

open Text (isAsciiDigit isAlphabetic isAlphanumeric isBlank escapeChar hexDigits hexDigit)
open Decimal (Digits EndsDigits)

-- ---------------------------------------------------------------------------
-- Parts of a text
-- ---------------------------------------------------------------------------

/-- The strict lexer finds tokens of which `P` holds at the front of a text and goes on with the rest,
wherever the text stands. -/
def Lexes (text rest : List Char) (P : List Token → Prop) : Prop :=
  ∀ p, ∃ tokens p', lexFrom false 0 p text = tokens ++ lexFrom false 0 p' rest ∧ P tokens

variable {text rest rest' : List Char} {P Q : List Token → Prop} {c : Char}

theorem Lexes.nil (h : P []) : Lexes rest rest P := fun p => ⟨[], p, rfl, h⟩

theorem Lexes.then (h : Lexes text rest P)
    (h' : ∀ tokens, P tokens → Lexes rest rest' fun more => Q (tokens ++ more)) : Lexes text rest' Q := by
  intro p
  obtain ⟨tokens, p₁, hfirst, hP⟩ := h p
  obtain ⟨more, p₂, hmore, hQ⟩ := h' tokens hP p₁
  exact ⟨tokens ++ more, p₂, by rw [hfirst, hmore, List.append_assoc], hQ⟩

theorem Lexes.blank (hblank : isBlank c = true) (h : Lexes rest rest' P) : Lexes (c :: rest) rest' P := by
  intro p
  obtain ⟨tokens, p', hrest, hP⟩ := h (p.after c)
  refine ⟨tokens, p', ?_, hP⟩
  rw [lexFrom, if_pos hblank, hrest]

theorem Lexes.space (h : Lexes rest rest' P) : Lexes (' ' :: rest) rest' P := h.blank rfl

theorem lexFrom_passed (recover : Bool) (p : Position) (passed rest : List Char) :
    lexFrom recover passed.length p (passed ++ rest) = lexFrom recover 0 (p.advance passed) rest := by
  induction passed generalizing p with
  | nil => rfl
  | cons c passed ih => exact ih (p.after c)

theorem Lexes.token (tail : List Char) {spelling : List Char} {kind : Kind} (hblank : isBlank c = false)
    (hlexeme : lexeme c (tail ++ rest) = ⟨kind, spelling, tail.length + 1⟩)
    (hends : kind.ends false = false)
    (h : ∀ t : Token, t.kind = kind → t.text = String.ofList spelling →
      Lexes rest rest' fun more => P (t :: more)) : Lexes (c :: (tail ++ rest)) rest' P := by
  intro p
  obtain ⟨more, p', hmore, hP⟩ := h ⟨kind, String.ofList spelling, p⟩ rfl rfl ((p.after c).advance tail)
  refine ⟨_, p', ?_, hP⟩
  rw [lexFrom, if_neg (by simp [hblank]), hlexeme]
  simp only [hends, Bool.false_eq_true, ↓reduceIte, Nat.add_sub_cancel, lexFrom_passed, hmore, List.cons_append]

theorem Lexes.whole {source : String} (h : Lexes (source.toList ++ []) [] P) : P (strict source) := by
  obtain ⟨tokens, p, hlex, hP⟩ := h .start
  rw [List.append_nil] at hlex
  rwa [strict, hlex, lexFrom, List.append_nil]

-- ---------------------------------------------------------------------------
-- Symbols
-- ---------------------------------------------------------------------------

def isSymbol (c : Char) : Bool :=
  !isBlank c && !isAsciiDigit c && !startsWord c && c != '"' && c != '\''

theorem lexeme_single (hc : isSymbol c = true) (hpair : ∀ d ∈ rest.head?, isPair c d = false) :
    lexeme c rest = ⟨symbolKind c, [c], 1⟩ := by
  have hlength : symbolLength (c :: rest) = 1 := by
    cases rest with
    | nil => rfl
    | cons d rest => simp [symbolLength, hpair d rfl]
  simp only [isSymbol, Bool.and_eq_true, Bool.not_eq_true', bne_iff_ne] at hc
  simp [lexeme, hc, hlength]

theorem lexeme_pair {d : Char} (hc : isSymbol c = true) (hpair : isPair c d = true) :
    lexeme c (d :: rest) = ⟨.operator, [c, d], 2⟩ := by
  simp only [isSymbol, Bool.and_eq_true, Bool.not_eq_true', bne_iff_ne] at hc
  simp [lexeme, hc, symbolLength, hpair]

theorem isBlank_of_symbol (hc : isSymbol c = true) : isBlank c = false := by
  simp only [isSymbol, Bool.and_eq_true, Bool.not_eq_true'] at hc
  exact hc.1.1.1.1

theorem Lexes.delimiter (hc : c ∈ ['(', ')', '[', ']', ','])
    (h : ∀ t : Token, t.isDelimiter (String.ofList [c]) = true → Lexes rest rest' fun more => P (t :: more)) :
    Lexes (c :: rest) rest' P := by
  have hall : ['(', ')', '[', ']', ','].all isSymbol = true := rfl
  have hsymbol : isSymbol c = true := List.all_eq_true.mp hall c hc
  have hpair : ∀ d ∈ rest.head?, isPair c d = false := by
    intro d _
    simp only [List.mem_cons, List.not_mem_nil, or_false] at hc
    rcases hc with rfl | rfl | rfl | rfl | rfl <;> rfl
  have hlexeme : lexeme c ([] ++ rest) = ⟨.delimiter, [c], 1⟩ := by
    rw [List.nil_append, lexeme_single hsymbol hpair, symbolKind, if_pos hc]
  refine Lexes.token [] (isBlank_of_symbol hsymbol) hlexeme rfl fun t hkind htext => h t ?_
  simp [isDelimiter, hkind, htext]

theorem Lexes.operator (hc : c ∈ ['+', '-', '*', '/', '%', '<', '>', '!', '?', ':', '.'])
    (hpair : ∀ d ∈ rest.head?, isPair c d = false)
    (h : ∀ t : Token, t.isOperator (String.ofList [c]) = true → Lexes rest rest' fun more => P (t :: more)) :
    Lexes (c :: rest) rest' P := by
  have hall : ['+', '-', '*', '/', '%', '<', '>', '!', '?', ':', '.'].all fun c =>
      isSymbol c && symbolKind c == .operator := rfl
  have hsymbol : isSymbol c = true ∧ symbolKind c = .operator := by
    simpa only [Bool.and_eq_true, beq_iff_eq] using List.all_eq_true.mp hall c hc
  have hlexeme : lexeme c ([] ++ rest) = ⟨.operator, [c], 1⟩ := by
    rw [List.nil_append, lexeme_single hsymbol.1 hpair, hsymbol.2]
  refine Lexes.token [] (isBlank_of_symbol hsymbol.1) hlexeme rfl fun t hkind htext => h t ?_
  simp [isOperator, hkind, htext]

theorem Lexes.pair {d : Char} (hc : isSymbol c = true) (hpair : isPair c d = true)
    (h : ∀ t : Token, t.isOperator (String.ofList [c, d]) = true → Lexes rest rest' fun more => P (t :: more)) :
    Lexes (c :: d :: rest) rest' P := by
  have hlexeme : lexeme c ([d] ++ rest) = ⟨.operator, [c, d], 2⟩ := lexeme_pair hc hpair
  refine Lexes.token [d] (isBlank_of_symbol hc) hlexeme rfl fun t hkind htext => h t ?_
  simp [isOperator, hkind, htext]

-- ---------------------------------------------------------------------------
-- Words
-- ---------------------------------------------------------------------------

structure IsWord (word : List Char) : Prop where
  head : ∃ c tail, word = c :: tail ∧ isBlank c = false ∧ isAsciiDigit c = false ∧
    ¬(c = '"' ∨ c = '\'') ∧ startsWord c = true
  continues : ∀ c ∈ word, continuesWord c = true

def EndsWord (rest : List Char) : Prop := ∀ c ∈ rest.head?, continuesWord c = false

theorem run_of_ends {p : Char → Bool} (text : List Char) (hrest : ∀ c ∈ rest.head?, p c = false) :
    run p (text ++ rest) = run p text := by
  induction text with
  | nil =>
    cases rest with
    | nil => rfl
    | cons c rest => simp [run, hrest c rfl]
  | cons c text ih =>
    rw [run, run] at ih
    cases hc : p c with
    | true => simp [run, hc, ih]
    | false => simp [run, hc]

theorem run_append {p : Char → Bool} (htext : ∀ c ∈ text, p c = true)
    (hrest : ∀ c ∈ rest.head?, p c = false) : run p (text ++ rest) = text.length := by
  have hall : text.takeWhile p = text := by simpa using @List.takeWhile_append_of_pos _ p text [] htext
  rw [run_of_ends text hrest, run, hall]

theorem lexeme_word {tail : List Char} (hword : IsWord (c :: tail)) (hrest : EndsWord rest) :
    lexeme c (tail ++ rest) = ⟨if String.ofList (c :: tail) ∈ keywords then .keyword else .identifier,
      c :: tail, tail.length + 1⟩ := by
  obtain ⟨⟨_, _, ⟨⟩, -, hdigit, hquote, hstart⟩, hcontinues⟩ := hword
  have hrun : run continuesWord (c :: (tail ++ rest)) = tail.length + 1 := run_append hcontinues hrest
  simp [lexeme, hdigit, hquote, hstart, hrun]

theorem Lexes.word {word : List Char} (hword : IsWord word) (hrest : EndsWord rest)
    (h : ∀ t : Token, t.kind = (if String.ofList word ∈ keywords then .keyword else .identifier) →
      t.text = String.ofList word → Lexes rest rest' fun more => P (t :: more)) :
    Lexes (word ++ rest) rest' P := by
  obtain ⟨c, tail, rfl, hblank, -⟩ := hword.head
  refine Lexes.token tail hblank (lexeme_word hword hrest) ?_ h
  split <;> rfl

/-- A source that is one word, and no keyword, is one token. -/
theorem strict_of_isWord {name : String} (hword : IsWord name.toList) (hname : name ∉ keywords) :
    strict name = [⟨.identifier, name, .start⟩] := by
  obtain ⟨c, tail, hchars, hblank, -⟩ := hword.head
  have hlexeme : lexeme c tail = ⟨.identifier, name.toList, tail.length + 1⟩ := by
    rw [hchars] at hword
    have hfound : lexeme c (tail ++ []) = _ := lexeme_word hword nofun
    rwa [List.append_nil, ← hchars, String.ofList_toList, if_neg hname] at hfound
  have hpassed := lexFrom_passed false (Position.start.after c) tail []
  rw [List.append_nil] at hpassed
  rw [strict, hchars, lexFrom, if_neg (by simp [hblank]), hlexeme]
  simp only [Kind.ends, Bool.false_eq_true, ↓reduceIte, Nat.add_sub_cancel, hpassed, lexFrom,
    String.ofList_toList]

/-- What may follow a word or a number: the end, a blank, a bracket or a comma, or a point before a
word. -/
def Boundary : List Char → Prop
  | [] => True
  | '.' :: rest => ∃ c ∈ rest.head?, startsWord c = true
  | c :: _ => c ∈ [' ', '(', ')', '[', ']', ',']

theorem Boundary.nil : Boundary [] := trivial

theorem Boundary.point (h : ∃ c ∈ rest.head?, startsWord c = true) : Boundary ('.' :: rest) := h

theorem Boundary.of_mem (h : c ∈ [' ', '(', ')', '[', ']', ',']) : Boundary (c :: rest) := by
  simp only [List.mem_cons, List.not_mem_nil, or_false] at h
  rcases h with rfl | rfl | rfl | rfl | rfl | rfl <;> simp [Boundary]

theorem Boundary.head (h : Boundary rest) (hc : c ∈ rest.head?) :
    c ∈ ['.', ' ', '(', ')', '[', ']', ','] := by
  unfold Boundary at h
  split at h
  · cases hc
  · cases hc
    simp
  · cases hc
    exact List.mem_cons_of_mem _ h

theorem Boundary.ends (h : Boundary rest) (hc : c ∈ rest.head?) :
    continuesWord c = false ∧ startsWord c = false ∧ isAsciiDigit c = false ∧ ¬(c = 'e' ∨ c = 'E') := by
  have hmem := h.head hc
  simp only [List.mem_cons, List.not_mem_nil, or_false] at hmem
  rcases hmem with rfl | rfl | rfl | rfl | rfl | rfl | rfl <;> decide

theorem Boundary.endsWord (h : Boundary rest) : EndsWord rest := fun _ hc => (h.ends hc).1

theorem Boundary.endsDigits (h : Boundary rest) : EndsDigits rest := fun _ hc => (h.ends hc).2.2.1

-- ---------------------------------------------------------------------------
-- Numbers
-- ---------------------------------------------------------------------------

theorem mem_of_isAsciiDigit (h : isAsciiDigit c = true) :
    c ∈ ['0', '1', '2', '3', '4', '5', '6', '7', '8', '9'] := by
  simp only [isAsciiDigit, Bool.and_eq_true, decide_eq_true_eq] at h
  have hlow : 48 ≤ c.toNat := h.1
  have hhigh : c.toNat ≤ 57 := h.2
  rw [← Char.ofNat_toNat c]
  interval_cases c.toNat <;> decide

theorem class_of_isAsciiDigit (h : isAsciiDigit c = true) : isBlank c = false ∧ startsWord c = false := by
  have hall : ['0', '1', '2', '3', '4', '5', '6', '7', '8', '9'].all fun c =>
      !isBlank c && !startsWord c := rfl
  simpa only [Bool.and_eq_true, Bool.not_eq_true'] using List.all_eq_true.mp hall c (mem_of_isAsciiDigit h)

theorem isAsciiDigit_of_startsWord (h : startsWord c = true) : isAsciiDigit c = false := by
  cases hdigit : isAsciiDigit c with
  | false => rfl
  | true => rw [(class_of_isAsciiDigit hdigit).2] at h; cases h

theorem fractionLength_of_boundary (h : Boundary rest) : fractionLength rest = 0 := by
  unfold fractionLength
  split
  · rename_i c tail
    obtain ⟨d, hd, hstart⟩ := h
    cases hd
    simp [isAsciiDigit_of_startsWord hstart]
  · rfl

theorem run_digits (h : ∀ c ∈ text, isAsciiDigit c = true) (hrest : EndsDigits rest) :
    run isAsciiDigit (text ++ rest) = text.length := run_append h hrest

theorem number_of_mantissa {mantissa : List Char} {kind : Kind} (hrest : Boundary rest)
    (hwhole : run isAsciiDigit (mantissa ++ rest) + fractionLength ((mantissa ++ rest).drop
      (run isAsciiDigit (mantissa ++ rest))) = mantissa.length)
    (hkind : (if fractionLength ((mantissa ++ rest).drop (run isAsciiDigit (mantissa ++ rest))) = 0
      then Kind.int else .float) = kind) :
    number (mantissa ++ rest) = (kind, mantissa.length) := by
  unfold number
  simp only [hwhole, hkind, List.drop_left]
  cases rest with
  | nil => rfl
  | cons c rest =>
    obtain ⟨-, hstart, -, hexponent⟩ := hrest.ends rfl
    simp only [hexponent, ↓reduceIte, unglued, List.drop_left, hstart, Bool.false_eq_true]

theorem number_digits (h : Digits text) (hrest : Boundary rest) :
    number (text ++ rest) = (.int, text.length) := by
  apply number_of_mantissa hrest
  · rw [run_digits h.isDigit hrest.endsDigits, List.drop_left, fractionLength_of_boundary hrest, Nat.add_zero]
  · rw [run_digits h.isDigit hrest.endsDigits, List.drop_left, fractionLength_of_boundary hrest, if_pos rfl]

theorem fractionLength_digits (h : Digits text) (hrest : EndsDigits rest) :
    fractionLength ('.' :: (text ++ rest)) = text.length + 1 := by
  obtain ⟨c, tail, rfl⟩ := List.exists_cons_of_ne_nil h.ne_nil
  have hrun := run_digits h.isDigit hrest
  rw [List.cons_append] at hrun
  rw [List.cons_append, fractionLength, if_pos (h.isDigit c List.mem_cons_self), hrun, Nat.add_comm]

theorem number_pointed {whole fraction : List Char} (hwhole : Digits whole) (hfraction : Digits fraction)
    (hrest : Boundary rest) :
    number ((whole ++ '.' :: fraction) ++ rest) = (.float, (whole ++ '.' :: fraction).length) := by
  have hrun : run isAsciiDigit ((whole ++ '.' :: fraction) ++ rest) = whole.length := by
    rw [List.append_assoc]
    exact run_digits hwhole.isDigit EndsDigits.point
  have hfractionLength : fractionLength (((whole ++ '.' :: fraction) ++ rest).drop whole.length) =
      fraction.length + 1 := by
    rw [List.append_assoc, List.drop_left]
    exact fractionLength_digits hfraction hrest.endsDigits
  apply number_of_mantissa hrest
  · rw [hrun, hfractionLength]
    simp
  · rw [hrun, hfractionLength]
    rfl

theorem Lexes.number {kind : Kind} (hnumber : number (text ++ rest) = (kind, text.length))
    (hhead : ∃ c ∈ text.head?, isAsciiDigit c = true) (hends : kind.ends false = false)
    (h : ∀ t : Token, t.kind = kind → t.text = String.ofList text → Lexes rest rest' fun more => P (t :: more)) :
    Lexes (text ++ rest) rest' P := by
  obtain ⟨c, hc, hdigit⟩ := hhead
  obtain ⟨tail, rfl⟩ : ∃ tail, text = c :: tail := by
    cases text with
    | nil => cases hc
    | cons c' tail => cases hc; exact ⟨tail, rfl⟩
  have hlexeme : lexeme c (tail ++ rest) = ⟨kind, c :: tail, tail.length + 1⟩ := by
    rw [List.cons_append] at hnumber
    simp [lexeme, hdigit, hnumber]
  exact Lexes.token tail (class_of_isAsciiDigit hdigit).1 hlexeme hends h

-- ---------------------------------------------------------------------------
-- Strings
-- ---------------------------------------------------------------------------

/-- A character that is written bare or with an escape of the language. -/
def readsBack (c : Char) : Bool :=
  c ∈ ['"', '\\', '\n', '\r', '\t'] || (!Text.isExtending c && Text.isPrintable c)

/-- What is read of a character that was written: the escape itself, if it is none of the language. -/
def reread (c : Char) : List Char := if readsBack c then [c] else escapeChar c

theorem stringBody_quote {quote : Char} : stringBody quote (quote :: rest) = (true, [], 1) := by
  rw [stringBody.eq_def]
  simp

theorem stringBody_plain {quote : Char} (hquote : c ≠ quote) (hline : c ≠ '\n') (hescape : c ≠ '\\') :
    stringBody quote (c :: rest) =
      ((stringBody quote rest).1, c :: (stringBody quote rest).2.1, (stringBody quote rest).2.2 + 1) := by
  rw [stringBody.eq_def]
  simp [hquote, hline, hescape]

theorem stringBody_escape {quote e : Char} (hquote : quote ≠ '\\') :
    stringBody quote ('\\' :: e :: rest) =
      ((stringBody quote rest).1, unescape e ++ (stringBody quote rest).2.1, (stringBody quote rest).2.2 + 2) := by
  rw [stringBody.eq_def]
  simp [hquote.symm]

theorem stringBody_append (rest : List Char) (h : ∀ c ∈ text, c ≠ '"' ∧ c ≠ '\n' ∧ c ≠ '\\') :
    stringBody '"' (text ++ rest) =
      ((stringBody '"' rest).1, text ++ (stringBody '"' rest).2.1, text.length + (stringBody '"' rest).2.2) := by
  induction text with
  | nil => simp
  | cons c text ih =>
    obtain ⟨hquote, hline, hescape⟩ := h c List.mem_cons_self
    have hrest := ih fun d hd => h d (List.mem_cons_of_mem _ hd)
    rw [List.cons_append, stringBody_plain hquote hline hescape, hrest, List.length_cons]
    simp [Nat.add_right_comm]

theorem hexDigit_plain {n : Nat} (h : n < 16) : hexDigit n ≠ '"' ∧ hexDigit n ≠ '\n' ∧ hexDigit n ≠ '\\' :=
  (by decide : ∀ n < 16, hexDigit n ≠ '"' ∧ hexDigit n ≠ '\n' ∧ hexDigit n ≠ '\\') n h

theorem hexDigits_plain (n : Nat) : ∀ c ∈ hexDigits n, c ≠ '"' ∧ c ≠ '\n' ∧ c ≠ '\\' := by
  fun_induction hexDigits n with
  | case1 n hlt => simpa using hexDigit_plain hlt
  | case2 n hge ih =>
    intro c hc
    rcases List.mem_append.mp hc with hc | hc
    · exact ih c hc
    · rw [List.mem_singleton.mp hc]
      exact hexDigit_plain (Nat.mod_lt _ (by decide))

theorem stringBody_escaped (rest : List Char) (hc : c ∈ ['"', '\\', '\n', '\r', '\t']) :
    stringBody '"' (escapeChar c ++ rest) =
      ((stringBody '"' rest).1, c :: (stringBody '"' rest).2.1, (stringBody '"' rest).2.2 + 2) ∧
      (escapeChar c).length = 2 := by
  have hquote : '"' ≠ '\\' := by decide
  simp only [List.mem_cons, List.not_mem_nil, or_false] at hc
  rcases hc with rfl | rfl | rfl | rfl | rfl <;> exact ⟨stringBody_escape hquote, rfl⟩

theorem escapeChar_of_not_mem (hc : c ∉ ['"', '\\', '\n', '\r', '\t']) : escapeChar c =
    if c.toNat = 0 then ['\\', '0']
    else if (Text.isExtending c || !Text.isPrintable c) = true then
      ['\\', 'u', '{'] ++ hexDigits c.toNat ++ ['}']
    else [c] := by
  simp only [List.mem_cons, List.not_mem_nil, or_false, not_or] at hc
  simp only [escapeChar, hc, ↓reduceIte]

theorem escapeChar_of_shown (hc : c ∉ ['"', '\\', '\n', '\r', '\t'])
    (hshown : (!Text.isExtending c && Text.isPrintable c) = true) : escapeChar c = [c] := by
  simp only [Bool.and_eq_true, Bool.not_eq_true'] at hshown
  have hzero : c.toNat ≠ 0 := by
    intro hzero
    simp [Text.isPrintable, hzero] at hshown
  rw [escapeChar_of_not_mem hc, if_neg hzero, if_neg (by simp [hshown])]

theorem stringBody_hidden (hc : c ∉ ['"', '\\', '\n', '\r', '\t'])
    (hshown : (!Text.isExtending c && Text.isPrintable c) = false) :
    stringBody '"' (escapeChar c ++ rest) =
      ((stringBody '"' rest).1, escapeChar c ++ (stringBody '"' rest).2.1,
        (escapeChar c).length + (stringBody '"' rest).2.2) := by
  have hquote : '"' ≠ '\\' := by decide
  rw [escapeChar_of_not_mem hc]
  split
  · exact (stringBody_escape hquote).trans (by rw [Nat.add_comm]; rfl)
  · have hhidden : (Text.isExtending c || !Text.isPrintable c) = true := by
      cases hextending : Text.isExtending c <;> simp_all
    have hbraced : ∀ d ∈ '{' :: (hexDigits c.toNat ++ ['}']), d ≠ '"' ∧ d ≠ '\n' ∧ d ≠ '\\' := by
      intro d hd
      rcases List.mem_cons.mp hd with rfl | hd
      · decide
      rcases List.mem_append.mp hd with hd | hd
      · exact hexDigits_plain _ d hd
      · rw [List.mem_singleton.mp hd]
        decide
    rw [if_pos hhidden]
    have hbody := stringBody_append rest hbraced
    simp only [List.cons_append, List.nil_append, List.append_assoc] at hbody ⊢
    rw [stringBody_escape hquote, hbody]
    simp [unescape]
    omega

theorem stringBody_escapeChar (c : Char) :
    stringBody '"' (escapeChar c ++ rest) =
      ((stringBody '"' rest).1, reread c ++ (stringBody '"' rest).2.1,
        (escapeChar c).length + (stringBody '"' rest).2.2) := by
  by_cases hc : c ∈ ['"', '\\', '\n', '\r', '\t']
  · obtain ⟨hbody, hlength⟩ := stringBody_escaped rest hc
    have hback : readsBack c = true := by simp only [readsBack, hc, decide_true, Bool.true_or]
    rw [hbody, hlength, reread, if_pos hback, Nat.add_comm 2]
    rfl
  · have hback : readsBack c = (!Text.isExtending c && Text.isPrintable c) := by
      simp only [readsBack, hc, decide_false, Bool.false_or]
    cases hshown : !Text.isExtending c && Text.isPrintable c with
    | true =>
      rw [escapeChar_of_shown hc hshown, reread, if_pos (hback.trans hshown)]
      simp only [List.mem_cons, List.not_mem_nil, or_false, not_or] at hc
      rw [List.singleton_append, stringBody_plain hc.1 hc.2.2.1 hc.2.1, List.length_singleton, Nat.add_comm 1]
      rfl
    | false =>
      rw [stringBody_hidden hc hshown, reread, if_neg (by simp [hback, hshown])]

/-- An escape that is read as it stands is longer than its character. -/
theorem length_reread (h : readsBack c = false) : 2 ≤ (reread c).length := by
  have hc : c ∉ ['"', '\\', '\n', '\r', '\t'] := by
    intro hc
    simp only [readsBack, hc, decide_true, Bool.true_or] at h
    cases h
  have hhidden : (Text.isExtending c || !Text.isPrintable c) = true := by
    simp only [readsBack, hc, decide_false, Bool.false_or] at h
    cases hextending : Text.isExtending c <;> simp_all
  rw [reread, if_neg (by simp [h]), escapeChar_of_not_mem hc, if_pos hhidden]
  split
  · exact Nat.le_refl 2
  · simp only [List.cons_append, List.length_cons]
    omega

theorem length_le_flatMap_reread (text : List Char) : text.length ≤ (text.flatMap reread).length := by
  induction text with
  | nil => exact Nat.le_refl 0
  | cons c text ih =>
    have hone : 1 ≤ (reread c).length := by
      cases hback : readsBack c with
      | true => rw [reread, if_pos hback]; exact Nat.le_refl 1
      | false => exact Nat.le_of_succ_le (length_reread hback)
    rw [List.flatMap_cons, List.length_append, List.length_cons]
    omega

/-- A text is read back exactly if each of its characters is. -/
theorem flatMap_reread_eq_iff : text.flatMap reread = text ↔ text.all readsBack = true := by
  induction text with
  | nil => simp
  | cons c text ih =>
    rw [List.flatMap_cons, List.all_cons, Bool.and_eq_true, ← ih]
    cases hback : readsBack c with
    | true => simp [reread, hback]
    | false =>
      simp only [Bool.false_eq_true, false_and, iff_false]
      intro h
      have hlength := congrArg List.length h
      have hlonger := length_reread hback
      have hrest := length_le_flatMap_reread text
      rw [List.length_append, List.length_cons] at hlength
      omega

theorem stringBody_quoted (content rest : List Char) :
    stringBody '"' (content.flatMap escapeChar ++ '"' :: rest) =
      (true, content.flatMap reread, (content.flatMap escapeChar).length + 1) := by
  induction content with
  | nil => exact stringBody_quote
  | cons c content ih =>
    rw [List.flatMap_cons, List.append_assoc, stringBody_escapeChar, ih]
    simp [Nat.add_assoc]

theorem Lexes.string (content : String)
    (h : ∀ t : Token, t.kind = .string → t.text = String.ofList (content.toList.flatMap reread) →
      Lexes rest rest' fun more => P (t :: more)) :
    Lexes ((Text.quoted content).toList ++ rest) rest' P := by
  have hlexeme : lexeme '"' ((content.toList.flatMap escapeChar ++ ['"']) ++ rest) =
      ⟨.string, content.toList.flatMap reread, (content.toList.flatMap escapeChar ++ ['"']).length + 1⟩ := by
    have hbody := stringBody_quoted content.toList rest
    have hdigit : isAsciiDigit '"' = false := rfl
    simp [lexeme, hdigit, hbody]
  have htext : (Text.quoted content).toList ++ rest =
      '"' :: ((content.toList.flatMap escapeChar ++ ['"']) ++ rest) := by
    simp [Text.quoted]
  rw [htext]
  exact Lexes.token _ rfl hlexeme rfl h

end TradingRules.Token
