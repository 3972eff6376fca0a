import TradingRules.Proofs.Json.Numbers

/-!
# Documents read back

A stored document is read back as it is (`ofText?_document`), if its integers are in the range that is
kept apart and its doubles are finite.
-/

namespace TradingRules.Json

open Text (hexDigit isAsciiDigit)
open Decimal (twoTo)

variable {text rest : List Char} {fuel level : Nat} {c : Char}

-- ---------------------------------------------------------------------------
-- Strings
-- ---------------------------------------------------------------------------

theorem hexValue?_hexDigit {n : Nat} (h : n < 16) : hexValue? (hexDigit n) = some n := by
  interval_cases n <;> rfl

theorem pieces?_plain (hquote : c ≠ '"') (hslash : c ≠ '\\') (hcontrol : ¬c.toNat < 0x20) :
    pieces? (c :: text) = (pieces? text).map fun r => (.char c :: r.1, r.2) := by
  rw [pieces?]
  · simp only [hcontrol, if_false]
    cases pieces? text <;> rfl
  all_goals simp_all

theorem pieces?_escaped {e : Char} (he : escaped? e = some c) :
    pieces? ('\\' :: e :: text) = (pieces? text).map fun r => (.char c :: r.1, r.2) := by
  have hunit : e ≠ 'u' := by
    rintro rfl
    cases he
  rw [pieces?]
  · rw [he]
    cases pieces? text <;> rfl
  · intro a b c d rest heq _
    exact hunit heq

theorem pieces?_unit {n : Nat} (h : n < 256) :
    pieces? ('\\' :: 'u' :: '0' :: '0' :: hexDigit (n / 16) :: hexDigit (n % 16) :: text) =
      (pieces? text).map fun r => (.unit n :: r.1, r.2) := by
  have hzero : hexValue? '0' = some 0 := rfl
  have hvalue : n / 16 * 16 + n % 16 = n := by omega
  rw [pieces?, hzero, hexValue?_hexDigit (by omega), hexValue?_hexDigit (by omega)]
  simp only [Option.bind_eq_bind, Option.bind_some, Nat.zero_mul, Nat.zero_add, hvalue]
  cases pieces? text <;> rfl

theorem joinPieces?_control {n : Nat} (h : n < 0x20) (pieces : List Piece) :
    joinPieces? (.unit n :: pieces) = (joinPieces? pieces).map (Char.ofNat n :: ·) := by
  conv_lhs => unfold joinPieces?
  rw [if_neg (by omega), if_neg (by omega)]

/-- What is written of a character is read as one piece, and the piece as the character. -/
theorem escape_reads (c : Char) : ∃ piece,
    (∀ text, pieces? (escape c ++ text) = (pieces? text).map fun r => (piece :: r.1, r.2)) ∧
      ∀ pieces, joinPieces? (piece :: pieces) = (joinPieces? pieces).map (c :: ·) := by
  have hchar : ∀ pieces, joinPieces? (.char c :: pieces) = (joinPieces? pieces).map (c :: ·) :=
    fun pieces => by rw [joinPieces?]
  have hof : ∀ d : Char, c.toNat = d.toNat → c = d := fun d h => Char.toNat_inj.mp h
  unfold escape
  split
  · exact ⟨.char '"', fun _ => pieces?_escaped rfl, hchar⟩
  · exact ⟨.char '\\', fun _ => pieces?_escaped rfl, hchar⟩
  · exact ⟨.char '\n', fun _ => pieces?_escaped rfl, hchar⟩
  · exact ⟨.char '\r', fun _ => pieces?_escaped rfl, hchar⟩
  · exact ⟨.char '\t', fun _ => pieces?_escaped rfl, hchar⟩
  · rename_i hquote hslash _ _ _
    by_cases hback : c.toNat = 0x08
    · obtain rfl : c = '\x08' := hof _ hback
      exact ⟨.char '\x08', fun _ => pieces?_escaped rfl, hchar⟩
    by_cases hfeed : c.toNat = 0x0C
    · obtain rfl : c = '\x0c' := hof _ hfeed
      exact ⟨.char '\x0c', fun _ => pieces?_escaped rfl, hchar⟩
    rw [if_neg hback, if_neg hfeed]
    by_cases hcontrol : c.toNat < 0x20
    · rw [if_pos hcontrol]
      refine ⟨.unit c.toNat, fun _ => pieces?_unit (by omega), fun pieces => ?_⟩
      rw [joinPieces?_control hcontrol, Char.ofNat_toNat]
    · rw [if_neg hcontrol]
      exact ⟨.char c, fun _ => pieces?_plain hquote hslash hcontrol, hchar⟩

theorem pieces?_escapes (chars : List Char) (rest : List Char) : ∃ pieces,
    pieces? (chars.flatMap escape ++ '"' :: rest) = some (pieces, rest) ∧
      joinPieces? pieces = some chars := by
  induction chars with
  | nil => exact ⟨[], by rw [List.flatMap_nil, List.nil_append, pieces?], by rw [joinPieces?]⟩
  | cons c chars ih =>
    obtain ⟨piece, hpiece, hjoin⟩ := escape_reads c
    obtain ⟨pieces, hpieces, hchars⟩ := ih
    refine ⟨piece :: pieces, ?_, by rw [hjoin, hchars]; rfl⟩
    rw [List.flatMap_cons, List.append_assoc, hpiece, hpieces]
    rfl

theorem string?_append (s : String) (rest : List Char) :
    string? (s.toList.flatMap escape ++ '"' :: rest) = some (some s, rest) := by
  obtain ⟨pieces, hpieces, hchars⟩ := pieces?_escapes s.toList rest
  simp [string?, hpieces, hchars]

-- ---------------------------------------------------------------------------
-- Spaces
-- ---------------------------------------------------------------------------

theorem skipSpace_of_not_space (h : isSpace c = false) : skipSpace (c :: text) = c :: text := by
  simp [skipSpace, h]

theorem skipSpace_newLine (level : Nat) (text : List Char) :
    skipSpace (newLine level ++ text) = skipSpace text := by
  have hspaces : ∀ n, (List.replicate n ' ' ++ text).dropWhile isSpace = text.dropWhile isSpace := by
    intro n
    exact List.dropWhile_append_of_pos fun c hc => by rw [(List.mem_replicate.mp hc).2]; rfl
  have hline : isSpace '\n' = true := rfl
  simp [skipSpace, newLine, hline, hspaces]

theorem skipSpace_skipSpace (text : List Char) : skipSpace (skipSpace text) = skipSpace text :=
  List.dropWhile_idempotent isSpace text

theorem value?_skipSpace (fuel : Nat) (text : List Char) :
    value? fuel (skipSpace text) = value? fuel text := by
  cases fuel with
  | zero => rfl
  | succ fuel => rw [value?, value?, skipSpace_skipSpace]

theorem items?_skipSpace (fuel : Nat) (text : List Char) :
    items? fuel (skipSpace text) = items? fuel text := by
  cases fuel with
  | zero => rfl
  | succ fuel => rw [items?, items?, value?_skipSpace]

theorem members?_skipSpace (fuel : Nat) (text : List Char) :
    members? fuel (skipSpace text) = members? fuel text := by
  cases fuel with
  | zero => rfl
  | succ fuel => rw [members?, members?, skipSpace_skipSpace]

theorem value?_newLine (fuel level : Nat) (text : List Char) :
    value? fuel (newLine level ++ text) = value? fuel text := by
  rw [← value?_skipSpace, skipSpace_newLine, value?_skipSpace]

-- ---------------------------------------------------------------------------
-- Documents
-- ---------------------------------------------------------------------------

mutual

/-- The document is one that a text can denote. -/
def Writable : Json → Prop
  | .int i => -(twoTo 63 : Int) ≤ i ∧ i < twoTo 64
  | .float x => x.isFinite = true
  | .arr items => WritableItems items
  | .obj members => WritableMembers members
  | .unreadable => False
  | .null | .bool _ | .str _ => True

def WritableItems : List Json → Prop
  | [] => True
  | j :: rest => Writable j ∧ WritableItems rest

def WritableMembers : List (String × Json) → Prop
  | [] => True
  | (_, j) :: rest => Writable j ∧ WritableMembers rest

end

mutual

def steps : Json → Nat
  | .arr items => stepsItems items + 1
  | .obj members => stepsMembers members + 1
  | _ => 1

def stepsItems : List Json → Nat
  | [] => 0
  | j :: rest => max (steps j) (stepsItems rest) + 1

def stepsMembers : List (String × Json) → Nat
  | [] => 0
  | (_, j) :: rest => max (steps j) (stepsMembers rest) + 1

end

def Begins (text : List Char) : Prop :=
  ∃ c tail, text = c :: tail ∧ isSpace c = false ∧ c ≠ ']' ∧ c ≠ '}'

theorem Begins.append (h : Begins text) (rest : List Char) : Begins (text ++ rest) := by
  obtain ⟨c, tail, rfl, hc⟩ := h
  exact ⟨c, tail ++ rest, rfl, hc⟩

theorem Begins.length_pos (h : Begins text) : 0 < text.length := by
  obtain ⟨c, tail, rfl, -⟩ := h
  exact Nat.succ_pos _

theorem Begins.skipSpace (h : Begins text) : Json.skipSpace text = text := by
  obtain ⟨c, tail, rfl, hc, -⟩ := h
  exact skipSpace_of_not_space hc

theorem begins_of_startsNumber (h : StartsNumber text) : Begins text := by
  obtain ⟨c, hc, hstart⟩ := h
  cases text with
  | nil => cases hc
  | cons first tail =>
    cases hc
    refine ⟨c, tail, rfl, ?_, ?_, ?_⟩
    · rw [← Bool.not_eq_true]
      intro hspace
      simp only [isSpace, Bool.or_eq_true, beq_iff_eq] at hspace
      rcases hspace with ((rfl | rfl) | rfl) | rfl <;> exact absurd hstart (by decide)
    · rintro rfl
      exact absurd hstart (by decide)
    · rintro rfl
      exact absurd hstart (by decide)

theorem begins_string (s : String) : Begins (string s) := ⟨'"', _, rfl, rfl, by decide, by decide⟩

theorem begins_scalar {j : Json} (h : Writable j) : Begins (scalar j) := by
  cases j with
  | bool b => cases b <;> exact ⟨_, _, rfl, rfl, by decide, by decide⟩
  | int i => exact begins_of_startsNumber (startsNumber_int i)
  | float x => exact begins_of_startsNumber (startsNumber_float h)
  | str s => exact begins_string s
  | _ => exact ⟨'n', _, rfl, rfl, by decide, by decide⟩

theorem begins_pretty {j : Json} (h : Writable j) (level : Nat) : Begins (pretty level j) := by
  unfold pretty
  split
  · exact ⟨'[', _, rfl, rfl, by decide, by decide⟩
  · exact ⟨'[', _, rfl, rfl, by decide, by decide⟩
  · exact ⟨'{', _, rfl, rfl, by decide, by decide⟩
  · exact ⟨'{', _, rfl, rfl, by decide, by decide⟩
  · exact begins_scalar h

theorem endsNumber_newLine (level : Nat) (rest : List Char) : EndsNumber (newLine level ++ rest) := by
  rintro c ⟨rfl⟩
  decide

theorem endsNumber_comma (rest : List Char) : EndsNumber (',' :: rest) := by
  rintro c ⟨rfl⟩
  decide

theorem value?_number (h : StartsNumber text) : value? (fuel + 1) text = number? text := by
  have hskip := (begins_of_startsNumber h).skipSpace
  obtain ⟨c, hc, hstart⟩ := h
  rw [value?, hskip]
  split
  · exact absurd (Option.some.inj hc ▸ hstart) (by decide)
  · exact absurd (Option.some.inj hc ▸ hstart) (by decide)
  · exact absurd (Option.some.inj hc ▸ hstart) (by decide)
  · exact absurd (Option.some.inj hc ▸ hstart) (by decide)
  · exact absurd (Option.some.inj hc ▸ hstart) (by decide)
  · exact absurd (Option.some.inj hc ▸ hstart) (by decide)
  · rfl

theorem StartsNumber.append (h : StartsNumber text) (rest : List Char) :
    StartsNumber (text ++ rest) := by
  obtain ⟨c, hc, hstart⟩ := h
  exact ⟨c, by rw [List.head?_append, hc]; rfl, hstart⟩

theorem value?_scalar {j : Json} (h : Writable j) (hrest : EndsNumber rest)
    (hitems : ∀ items, j ≠ .arr items) (hmembers : ∀ members, j ≠ .obj members) :
    value? (fuel + 1) (scalar j ++ rest) = some (j, rest) := by
  cases j with
  | null => simp [scalar, value?, skipSpace, isSpace, literal?]
  | bool b => cases b <;> simp [scalar, value?, skipSpace, isSpace, literal?]
  | int i => rw [scalar, value?_number ((startsNumber_int i).append rest), number?_int h.1 h.2 hrest]
  | float x =>
    rw [scalar, value?_number ((startsNumber_float h).append rest), number?_float h hrest]
  | str s =>
    have hquote : skipSpace (scalar (.str s) ++ rest) =
        '"' :: (s.toList.flatMap escape ++ '"' :: rest) := by
      rw [scalar, ((begins_string s).append rest).skipSpace]
      simp [string]
    rw [value?, hquote]
    simp [string?_append]
  | arr items => exact absurd rfl (hitems items)
  | obj members => exact absurd rfl (hmembers members)
  | unreadable => exact h.elim

-- ---------------------------------------------------------------------------
-- One step into a document
-- ---------------------------------------------------------------------------

theorem items?_of_last {j : Json} {after : List Char} (hvalue : value? fuel text = some (j, after))
    (hafter : skipSpace after = ']' :: rest) : items? (fuel + 1) text = some ([j], rest) := by
  simp [items?, hvalue, hafter]

theorem items?_of_more {j : Json} {items : List Json} {after more : List Char}
    (hvalue : value? fuel text = some (j, after)) (hafter : skipSpace after = ',' :: more)
    (hitems : items? fuel more = some (items, rest)) :
    items? (fuel + 1) text = some (j :: items, rest) := by
  simp [items?, hvalue, hafter, hitems]

theorem value?_of_items {items : List Json} (hbegins : Begins (skipSpace text))
    (hitems : items? fuel text = some (items, rest)) :
    value? (fuel + 1) ('[' :: text) = some (.arr items, rest) := by
  have hopen : skipSpace ('[' :: text) = '[' :: text := skipSpace_of_not_space rfl
  rw [← items?_skipSpace] at hitems
  obtain ⟨c, tail, htext, -, hclose, -⟩ := hbegins
  rw [value?, hopen]
  simp only
  split
  · rename_i heq
    rw [htext] at heq
    cases heq
    exact absurd rfl hclose
  · rw [hitems]
    rfl

def memberText (level : Nat) (name : String) (text : List Char) : List Char :=
  newLine level ++ (string name ++ ':' :: ' ' :: text)

theorem skipSpace_memberText (level : Nat) (name : String) (text : List Char) :
    skipSpace (memberText level name text) =
      '"' :: (name.toList.flatMap escape ++ '"' :: ':' :: ' ' :: text) := by
  rw [memberText, skipSpace_newLine, ((begins_string name).append _).skipSpace]
  simp [string]

theorem skipSpace_colon (text : List Char) : skipSpace (':' :: text) = ':' :: text :=
  skipSpace_of_not_space rfl

theorem value?_space (fuel : Nat) (text : List Char) : value? fuel (' ' :: text) = value? fuel text := by
  rw [← value?_skipSpace fuel (' ' :: text), ← value?_skipSpace fuel text]
  rfl

theorem members?_of_last {name : String} {j : Json} {after : List Char}
    (hvalue : value? fuel text = some (j, after)) (hafter : skipSpace after = '}' :: rest) :
    members? (fuel + 1) (memberText level name text) = some ([(some name, j)], rest) := by
  simp [members?, skipSpace_memberText, string?_append, skipSpace_colon, value?_space, hvalue, hafter]

theorem members?_of_more {name : String} {j : Json} {members : List (Option String × Json)}
    {after more : List Char} (hvalue : value? fuel text = some (j, after))
    (hafter : skipSpace after = ',' :: more) (hmembers : members? fuel more = some (members, rest)) :
    members? (fuel + 1) (memberText level name text) = some ((some name, j) :: members, rest) := by
  simp [members?, skipSpace_memberText, string?_append, skipSpace_colon, value?_space, hvalue, hafter,
    hmembers]

theorem ofMembers_some (members : List (String × Json)) :
    ofMembers (members.map fun m => (some m.1, m.2)) = .obj members := by
  have hmap : ∀ f : Option String × Json → Option (String × Json),
      (∀ m : String × Json, f (some m.1, m.2) = some m) →
        (members.map fun m => (some m.1, m.2)).mapM f = some members := by
    intro f hf
    induction members with
    | nil => rfl
    | cons m rest ih => simp [List.mapM_cons, hf, ih]
  rw [ofMembers, hmap _ fun _ => rfl]

theorem value?_of_members {members : List (String × Json)} (hbegins : Begins (skipSpace text))
    (hmembers : members? fuel text = some (members.map fun m => (some m.1, m.2), rest)) :
    value? (fuel + 1) ('{' :: text) = some (.obj members, rest) := by
  have hopen : skipSpace ('{' :: text) = '{' :: text := skipSpace_of_not_space rfl
  rw [← members?_skipSpace] at hmembers
  obtain ⟨c, tail, htext, -, -, hclose⟩ := hbegins
  rw [value?, hopen]
  simp only
  split
  · rename_i heq
    rw [htext] at heq
    cases heq
    exact absurd rfl hclose
  · rw [hmembers, Option.map_some, ofMembers_some]

-- ---------------------------------------------------------------------------
-- Every step
-- ---------------------------------------------------------------------------

structure ReadsBack (fuel : Nat) : Prop where
  value : ∀ j level rest, Writable j → steps j ≤ fuel → EndsNumber rest →
    value? fuel (pretty level j ++ rest) = some (j, rest)
  items : ∀ items level rest, items ≠ [] → WritableItems items → stepsItems items ≤ fuel →
    items? fuel (prettyItems (level + 1) items ++ (newLine level ++ ']' :: rest)) = some (items, rest)
  members : ∀ members level rest, members ≠ [] → WritableMembers members → stepsMembers members ≤ fuel →
    members? fuel (prettyMembers (level + 1) members ++ (newLine level ++ '}' :: rest)) =
      some (members.map fun m => (some m.1, m.2), rest)

theorem begins_prettyItems {items : List Json} (hne : items ≠ []) (h : WritableItems items)
    (level : Nat) (rest : List Char) : Begins (skipSpace (prettyItems level items ++ rest)) := by
  obtain ⟨j, items, rfl⟩ := List.exists_cons_of_ne_nil hne
  have hbegins := begins_pretty h.1 level
  cases items with
  | nil =>
    rw [prettyItems, List.append_assoc, skipSpace_newLine, (hbegins.append rest).skipSpace]
    exact hbegins.append rest
  | cons k ks =>
    rw [prettyItems, List.append_assoc, List.append_assoc, skipSpace_newLine]
    · rw [(hbegins.append _).skipSpace]
      exact hbegins.append _
    · nofun

theorem begins_prettyMembers {members : List (String × Json)} (hne : members ≠ []) (level : Nat)
    (rest : List Char) : Begins (skipSpace (prettyMembers level members ++ rest)) := by
  obtain ⟨⟨name, j⟩, members, rfl⟩ := List.exists_cons_of_ne_nil hne
  have hbegins := begins_string name
  cases members with
  | nil =>
    rw [prettyMembers, List.append_assoc, List.append_assoc, skipSpace_newLine]
    rw [(hbegins.append _).skipSpace]
    exact hbegins.append _
  | cons m ms =>
    rw [prettyMembers, List.append_assoc, List.append_assoc, List.append_assoc, skipSpace_newLine]
    · rw [(hbegins.append _).skipSpace]
      exact hbegins.append _
    · nofun

theorem ReadsBack.zero : ReadsBack 0 where
  value j level rest hj hsteps hrest := by cases j <;> simp [steps] at hsteps
  items items level rest hne h hsteps := by
    obtain ⟨j, items, rfl⟩ := List.exists_cons_of_ne_nil hne
    simp [stepsItems] at hsteps
  members members level rest hne h hsteps := by
    obtain ⟨m, members, rfl⟩ := List.exists_cons_of_ne_nil hne
    simp [stepsMembers] at hsteps

theorem ReadsBack.value_succ (ih : ReadsBack fuel) {j : Json} (hj : Writable j)
    (hsteps : steps j ≤ fuel + 1) (hrest : EndsNumber rest) :
    value? (fuel + 1) (pretty level j ++ rest) = some (j, rest) := by
  unfold pretty
  split
  · simp [value?, skipSpace, isSpace]
  · rename_i items hne
    have hne : items ≠ [] := fun heq => hne heq
    have hitems := ih.items items level rest hne hj (Nat.le_of_succ_le_succ hsteps)
    simpa using value?_of_items (begins_prettyItems hne hj _ _) hitems
  · simp [value?, skipSpace, isSpace]
  · rename_i members hne
    have hne : members ≠ [] := fun heq => hne heq
    have hmembers := ih.members members level rest hne hj (Nat.le_of_succ_le_succ hsteps)
    simpa using value?_of_members (begins_prettyMembers hne _ _) hmembers
  · rename_i hnoItems hitems hnoMembers hmembers
    exact value?_scalar hj hrest (fun items => hitems items) (fun members => hmembers members)

theorem ReadsBack.items_succ (ih : ReadsBack fuel) {items : List Json} (hne : items ≠ [])
    (h : WritableItems items) (hsteps : stepsItems items ≤ fuel + 1) :
    items? (fuel + 1) (prettyItems (level + 1) items ++ (newLine level ++ ']' :: rest)) =
      some (items, rest) := by
  obtain ⟨j, items, rfl⟩ := List.exists_cons_of_ne_nil hne
  obtain ⟨hj, hitems⟩ := h
  have hstepsBoth : max (steps j) (stepsItems items) ≤ fuel := Nat.le_of_succ_le_succ hsteps
  cases items with
  | nil =>
    have hvalue := ih.value j (level + 1) (newLine level ++ ']' :: rest) hj (by omega)
      (endsNumber_newLine _ _)
    rw [prettyItems, List.append_assoc]
    refine items?_of_last ((value?_newLine _ _ _).trans hvalue) ?_
    rw [skipSpace_newLine]
    rfl
  | cons k ks =>
    let more := prettyItems (level + 1) (k :: ks) ++ (newLine level ++ ']' :: rest)
    have hvalue := ih.value j (level + 1) (',' :: more) hj (by omega) (endsNumber_comma _)
    have hmore := ih.items (k :: ks) level rest nofun hitems (by omega)
    have htext : prettyItems (level + 1) (j :: k :: ks) ++ (newLine level ++ ']' :: rest) =
        newLine (level + 1) ++ (pretty (level + 1) j ++ ',' :: more) := by
      simp [prettyItems, more]
    rw [htext]
    exact items?_of_more ((value?_newLine _ _ _).trans hvalue) rfl hmore

theorem ReadsBack.members_succ (ih : ReadsBack fuel) {members : List (String × Json)}
    (hne : members ≠ []) (h : WritableMembers members) (hsteps : stepsMembers members ≤ fuel + 1) :
    members? (fuel + 1) (prettyMembers (level + 1) members ++ (newLine level ++ '}' :: rest)) =
      some (members.map fun m => (some m.1, m.2), rest) := by
  obtain ⟨⟨name, j⟩, members, rfl⟩ := List.exists_cons_of_ne_nil hne
  obtain ⟨hj, hmembers⟩ := h
  have hstepsBoth : max (steps j) (stepsMembers members) ≤ fuel := Nat.le_of_succ_le_succ hsteps
  cases members with
  | nil =>
    have hvalue := ih.value j (level + 1) (newLine level ++ '}' :: rest) hj (by omega)
      (endsNumber_newLine _ _)
    have htext : prettyMembers (level + 1) [(name, j)] ++ (newLine level ++ '}' :: rest) =
        memberText (level + 1) name (pretty (level + 1) j ++ (newLine level ++ '}' :: rest)) := by
      simp [prettyMembers, memberText]
    rw [htext]
    refine members?_of_last hvalue ?_
    rw [skipSpace_newLine]
    rfl
  | cons m ms =>
    let more := prettyMembers (level + 1) (m :: ms) ++ (newLine level ++ '}' :: rest)
    have hvalue := ih.value j (level + 1) (',' :: more) hj (by omega) (endsNumber_comma _)
    have hmore := ih.members (m :: ms) level rest nofun hmembers (by omega)
    have htext : prettyMembers (level + 1) ((name, j) :: m :: ms) ++ (newLine level ++ '}' :: rest) =
        memberText (level + 1) name (pretty (level + 1) j ++ ',' :: more) := by
      simp [prettyMembers, memberText, more]
    rw [htext]
    exact members?_of_more hvalue rfl hmore

theorem readsBack (fuel : Nat) : ReadsBack fuel := by
  induction fuel with
  | zero => exact .zero
  | succ fuel ih =>
    exact ⟨fun _ _ _ => ih.value_succ, fun _ _ _ => ih.items_succ, fun _ _ _ => ih.members_succ⟩

-- ---------------------------------------------------------------------------
-- Whole documents
-- ---------------------------------------------------------------------------

theorem length_newLine (level : Nat) : (newLine level).length = 2 * level + 1 := by
  simp [newLine]

mutual

theorem steps_le (level : Nat) : ∀ j : Json, Writable j → steps j ≤ (pretty level j).length
  | .arr [], _ => by simp [steps, stepsItems, pretty]
  | .arr (j :: items), h => by
    have hle := stepsItems_le (level + 1) (j :: items) h
    simp only [steps, pretty, List.length_append, List.length_cons] at hle ⊢
    omega
  | .obj [], _ => by simp [steps, stepsMembers, pretty]
  | .obj (m :: members), h => by
    have hle := stepsMembers_le (level + 1) (m :: members) h
    simp only [steps, pretty, List.length_append, List.length_cons] at hle ⊢
    omega
  | .null, h | .bool _, h | .int _, h | .float _, h | .str _, h | .unreadable, h =>
    (begins_pretty h level).length_pos

theorem stepsItems_le (level : Nat) :
    ∀ items : List Json, WritableItems items → stepsItems items ≤ (prettyItems level items).length
  | [], _ => Nat.zero_le _
  | [j], h => by
    have hle := steps_le level j h.1
    simp only [stepsItems, prettyItems, List.length_append, length_newLine]
    omega
  | j :: k :: rest, h => by
    have hle := steps_le level j h.1
    have hrest := stepsItems_le level (k :: rest) h.2
    rw [stepsItems, prettyItems]
    · simp only [List.length_append, length_newLine, List.length_cons]
      omega
    · nofun

theorem stepsMembers_le (level : Nat) : ∀ members : List (String × Json), WritableMembers members →
    stepsMembers members ≤ (prettyMembers level members).length
  | [], _ => Nat.zero_le _
  | [(name, j)], h => by
    have hle := steps_le level j h.1
    simp only [stepsMembers, prettyMembers, List.length_append, List.length_cons, length_newLine]
    omega
  | (name, j) :: m :: rest, h => by
    have hle := steps_le level j h.1
    have hrest := stepsMembers_le level (m :: rest) h.2
    rw [stepsMembers, prettyMembers]
    · simp only [List.length_append, length_newLine, List.length_cons]
      omega
    · nofun

end

theorem ofText?_document {j : Json} (h : Writable j) : ofText? (document j) = some j := by
  have hsteps := steps_le 0 j h
  have hread := (readsBack (2 * (pretty 0 j).length + 2)).value j 0 [] h (by omega) nofun
  rw [List.append_nil] at hread
  simp [ofText?, document, hread, skipSpace]

end TradingRules.Json
