import TradingRules.Proofs.Token.Spelling
import TradingRules.Proofs.Token.Places
import TradingRules.Proofs.Token.Recovery
import TradingRules.Proofs.Expr.Grammar

/-!
# Texts one behind the other

What is found at the front of a text does not change if another text follows behind a boundary, unless it
is a string without an end (`lexeme_append`). So a text without faults has the same tokens wherever it
stands (`Lexes.faultless`).
-/

namespace TradingRules.Token

open Text (isAsciiDigit isBlank)

variable {text rest rest' : List Char} {P : List Token → Prop} {c : Char}

-- ---------------------------------------------------------------------------
-- What is found at the front
-- ---------------------------------------------------------------------------

theorem fractionLength_append (text : List Char) (hrest : Boundary rest) :
    fractionLength (text ++ rest) = fractionLength text := by
  cases text with
  | nil => exact fractionLength_of_boundary hrest
  | cons c text =>
    by_cases hc : c = '.'
    · subst hc
      cases text with
      | nil =>
        cases rest with
        | nil => rfl
        | cons d rest => simp [fractionLength, hrest.endsDigits d rfl]
      | cons d text =>
        have hdigits := run_of_ends (d :: text) hrest.endsDigits
        rw [List.cons_append] at hdigits
        simp only [List.cons_append, fractionLength, hdigits]
    · simp [fractionLength, hc]

theorem signLength_append (text : List Char) (hrest : Boundary rest) :
    signLength (text ++ rest) = signLength text := by
  cases text with
  | nil =>
    cases rest with
    | nil => rfl
    | cons c rest =>
      have hc := hrest.head rfl
      simp only [List.mem_cons, List.not_mem_nil, or_false] at hc
      rcases hc with rfl | rfl | rfl | rfl | rfl | rfl | rfl <;> rfl
  | cons c text =>
    unfold signLength
    split <;> split <;> simp_all

theorem unglued_append (kind : Kind) {length : Nat} (hlength : length ≤ text.length) (hrest : Boundary rest) :
    unglued (text ++ rest) kind length = unglued text kind length := by
  rw [unglued, unglued, List.drop_append_of_le_length hlength]
  cases text.drop length with
  | nil =>
    cases rest with
    | nil => rfl
    | cons c rest => simp [(hrest.ends rfl).2.1]
  | cons c later =>
    have hword := run_of_ends (c :: later) hrest.endsWord
    rw [List.cons_append] at hword
    simp only [List.cons_append, hword]

theorem number_append (text : List Char) (hrest : Boundary rest) : number (text ++ rest) = number text := by
  have hwhole : run isAsciiDigit (text ++ rest) = run isAsciiDigit text := run_of_ends text hrest.endsDigits
  have hbehind : (text ++ rest).drop (run isAsciiDigit text) = text.drop (run isAsciiDigit text) ++ rest :=
    List.drop_append_of_le_length (run_le isAsciiDigit text)
  have hmantissa : run isAsciiDigit text + fractionLength (text.drop (run isAsciiDigit text)) ≤ text.length := by
    have hle := fractionLength_le (text.drop (run isAsciiDigit text))
    have hdigits := run_le isAsciiDigit text
    rw [List.length_drop] at hle
    omega
  simp only [number, hwhole, hbehind, fractionLength_append _ hrest]
  generalize run isAsciiDigit text + fractionLength (text.drop (run isAsciiDigit text)) = mantissa at hmantissa ⊢
  rw [List.drop_append_of_le_length hmantissa]
  cases hdrop : text.drop mantissa with
  | nil =>
    cases rest with
    | nil => rfl
    | cons c rest =>
      obtain ⟨-, -, -, hexponent⟩ := hrest.ends rfl
      have hend : mantissa = text.length := by
        have hle := List.drop_eq_nil_iff.mp hdrop
        omega
      simp [hexponent, hend, unglued, (hrest.ends rfl).2.1]
  | cons c later =>
    have hlater := congrArg List.length hdrop
    rw [List.length_drop, List.length_cons] at hlater
    have hsign := signLength_le later
    have hdigits := run_of_ends (later.drop (signLength later)) hrest.endsDigits
    have hmost := run_le isAsciiDigit (later.drop (signLength later))
    rw [List.length_drop] at hmost
    simp only [List.cons_append, signLength_append _ hrest, List.drop_append_of_le_length hsign, hdigits]
    rw [unglued_append .float (by omega) hrest, unglued_append _ hmantissa hrest]

theorem stringBody_append_of_closed {quote : Char} (h : (stringBody quote text).1 = true) (rest : List Char) :
    stringBody quote (text ++ rest) = stringBody quote text := by
  fun_induction stringBody quote text with
  | case1 | case3 | case4 => cases h
  | case2 text => exact stringBody_quote
  | case5 e text closed content length hrest hquote _ ih =>
    rw [hrest] at ih
    rw [List.cons_append, List.cons_append, stringBody_escape (Ne.symm hquote), ih h]
  | case6 c text hquote hline hescape closed content length hrest ih =>
    rw [hrest] at ih
    rw [List.cons_append, stringBody_plain hquote hline hescape, ih h]

theorem symbolLength_append (c : Char) (text : List Char) (hrest : Boundary rest) :
    symbolLength (c :: (text ++ rest)) = symbolLength (c :: text) := by
  cases text with
  | nil =>
    cases rest with
    | nil => rfl
    | cons d rest =>
      have hpair : isPair c d = false := by
        have hd := hrest.head rfl
        simp only [List.mem_cons, List.not_mem_nil, or_false] at hd
        rcases hd with rfl | rfl | rfl | rfl | rfl | rfl | rfl <;> simp [isPair]
      simp [symbolLength, hpair]
  | cons d text => rfl

theorem lexeme_append (hkind : (lexeme c text).kind ≠ .fault .unterminatedString) (hrest : Boundary rest) :
    lexeme c (text ++ rest) = lexeme c text := by
  by_cases hdigit : isAsciiDigit c = true
  · have hnumber := number_append (c :: text) hrest
    have hmost := (number_spec (c :: text)).2.2
    rw [List.cons_append] at hnumber
    simp only [lexeme, hdigit, ↓reduceIte, hnumber]
    rw [← List.cons_append, List.take_append_of_le_length hmost]
  by_cases hquote : c = '"' ∨ c = '\''
  · have hclosed : (stringBody c text).1 = true := by
      cases hclosed : (stringBody c text).1 with
      | true => rfl
      | false => simp [lexeme, hdigit, hquote, hclosed] at hkind
    simp [lexeme, hdigit, hquote, stringBody_append_of_closed hclosed rest]
  by_cases hstart : startsWord c = true
  · have hword := run_of_ends (c :: text) hrest.endsWord
    have hmost := run_le continuesWord (c :: text)
    rw [List.cons_append] at hword
    simp only [lexeme, hdigit, hquote, hstart, ↓reduceIte, hword]
    rw [← List.cons_append, List.take_append_of_le_length hmost]
    rfl
  by_cases hpair : symbolLength (c :: text) = 2
  · have hmost : 2 ≤ (c :: text).length := by
      cases text with
      | nil => cases hpair
      | cons d text => simp
    simp only [lexeme, hdigit, hquote, hstart, symbolLength_append c text hrest, hpair, ↓reduceIte]
    rw [← List.cons_append, List.take_append_of_le_length hmost]
    rfl
  · simp [lexeme, hdigit, hquote, hstart, symbolLength_append c text hrest, hpair]

-- ---------------------------------------------------------------------------
-- Tokens
-- ---------------------------------------------------------------------------

/-- A text without faults is lexed before a boundary as it is alone. -/
theorem lexFrom_append (recover : Bool) (passed : Nat) (p : Position) (text : List Char)
    (hpassed : passed ≤ text.length) (hfaults : ∀ t ∈ lexFrom recover passed p text, t.isFault = false)
    (hrest : Boundary rest) : lexFrom recover passed p (text ++ rest) =
      lexFrom recover passed p text ++ lexFrom recover 0 (p.advance text) rest := by
  fun_induction lexFrom recover passed p text with
  | case1 passed p =>
    rw [Nat.le_zero.mp hpassed]
    rfl
  | case2 passed p c text ih => exact ih (Nat.le_of_succ_le_succ hpassed) hfaults
  | case3 p c text hblank ih =>
    rw [List.cons_append, lexFrom, if_pos hblank]
    exact ih (Nat.zero_le _) hfaults
  | case4 p c text hblank found token hends =>
    -- Lexing ends with a fault only.
    have hfault := hfaults token (List.mem_singleton_self _)
    have hstrict : found.kind.ends false = true := by
      cases recover with
      | true => exact Kind.ends_strict_of_recovering hends
      | false => exact hends
    rw [Kind.ends_strict (p := p)] at hstrict
    rw [hfault] at hstrict
    cases hstrict
  | case5 p c text hblank found token hends ih =>
    have hkind : (lexeme c text).kind ≠ .fault .unterminatedString := by
      intro hkind
      rw [show found.kind = .fault .unterminatedString from hkind] at hends
      exact hends rfl
    have hshort : found.length - 1 ≤ text.length := by
      obtain ⟨raw, after, htext, -, hlength, -⟩ := lexeme_spec c text
      have hsum := congrArg List.length htext
      rw [List.length_cons, List.length_append] at hsum
      have hfound : found.length = raw.length := hlength
      omega
    have hlater := ih hshort fun t ht => hfaults t (List.mem_cons_of_mem _ ht)
    rw [List.cons_append, lexFrom, if_neg hblank, lexeme_append hkind hrest]
    simp only [found, token] at hends hlater ⊢
    rw [if_neg hends, hlater]
    rfl

/-- Where a text begins changes the places of its tokens alone. -/
theorem keys_lexFrom (recover : Bool) (passed : Nat) (p q : Position) (text : List Char) :
    (lexFrom recover passed p text).map key = (lexFrom recover passed q text).map key := by
  fun_induction lexFrom recover passed p text generalizing q with
  | case1 => rw [lexFrom]
  | case2 passed p c text ih => rw [lexFrom, ih]
  | case3 p c text hblank ih => rw [lexFrom, if_pos hblank, ih]
  | case4 p c text hblank found token hends =>
    rw [lexFrom, if_neg hblank, if_pos hends]
    rfl
  | case5 p c text hblank found token hends ih =>
    rw [lexFrom, if_neg hblank, if_neg hends, List.map_cons, List.map_cons, ih]
    rfl

theorem no_fault_of_keys {ts us : List Token} (hkeys : ts.map key = us.map key)
    (hus : ∀ u ∈ us, u.isFault = false) : ∀ t ∈ ts, t.isFault = false := by
  intro t ht
  have hmem : t.key ∈ us.map key := hkeys ▸ List.mem_map_of_mem ht
  obtain ⟨u, hu, hkey⟩ := List.mem_map.mp hmem
  have hkind : u.kind = t.kind := congrArg Prod.fst hkey
  have hfault := hus u hu
  rwa [isFault, fault?, hkind] at hfault

/-- A text without faults gives its own tokens, at other places, wherever it stands before a boundary. -/
theorem Lexes.faultless {source : String} (hfaults : ∀ t ∈ strict source, t.isFault = false)
    (hrest : Boundary rest)
    (h : ∀ tokens : List Token, tokens.map key = (strict source).map key →
      Lexes rest rest' fun more => P (tokens ++ more)) : Lexes (source.toList ++ rest) rest' P := by
  intro p
  have hkeys := keys_lexFrom false 0 p .start source.toList
  obtain ⟨more, p', hmore, hP⟩ := h _ hkeys (p.advance source.toList)
  refine ⟨_, p', ?_, hP⟩
  rw [lexFrom_append false 0 p source.toList (Nat.zero_le _) (no_fault_of_keys hkeys hfaults) hrest, hmore,
    List.append_assoc]

end TradingRules.Token
