import TradingRules.Validation.Checks
import Mathlib.Data.List.Induction
import Mathlib.Data.String.Basic
import Mathlib.Order.Bounds.Basic

/-!
# Distances of names

`Edits n a b` says that `n` edits, one after the other and each anywhere in the text, turn `a` into `b`. The
rows of the distance table hold the least such `n` for the starts of two texts (`rows_distances`), so that
its last entry is the least for the texts themselves (`isLeast_editDistance`). A suggestion is the name of
least distance, and of several the first in name order (`suggest?_eq_some_iff`).
-/

namespace TradingRules.Validation

/-- One character is put in, taken out or put in the place of another. -/
inductive Edit : List Char → List Char → Prop
  | insert (front back : List Char) (c : Char) : Edit (front ++ back) (front ++ c :: back)
  | delete (front back : List Char) (c : Char) : Edit (front ++ c :: back) (front ++ back)
  | substitute (front back : List Char) (c d : Char) : Edit (front ++ c :: back) (front ++ d :: back)

inductive Edits : Nat → List Char → List Char → Prop
  | refl (a : List Char) : Edits 0 a a
  | step {n : Nat} {a b c : List Char} : Edit a b → Edits n b c → Edits (n + 1) a c

/-- The distance by recursion on the first characters. -/
def distance : List Char → List Char → Nat
  | [], b => b.length
  | c :: a, [] => (c :: a).length
  | c :: a, d :: b =>
    min (min (distance a (d :: b) + 1) (distance (c :: a) b + 1)) (distance a b + if c = d then 0 else 1)
  termination_by a b => a.length + b.length

variable {n : Nat} {a b : List Char}

-- ---------------------------------------------------------------------------
-- As many edits suffice
-- ---------------------------------------------------------------------------

theorem Edit.cons (x : Char) (h : Edit a b) : Edit (x :: a) (x :: b) := by
  cases h with
  | insert front back c => exact .insert (x :: front) back c
  | delete front back c => exact .delete (x :: front) back c
  | substitute front back c d => exact .substitute (x :: front) back c d

theorem Edits.cons (x : Char) (h : Edits n a b) : Edits n (x :: a) (x :: b) := by
  induction h with
  | refl a => exact .refl _
  | step hedit _ ih => exact .step (hedit.cons x) ih

theorem Edits.insert_first (d : Char) (h : Edits n a b) : Edits (n + 1) a (d :: b) :=
  .step (.insert [] a d) (h.cons d)

theorem Edits.delete_first (c : Char) (h : Edits n a b) : Edits (n + 1) (c :: a) b :=
  .step (.delete [] a c) h

theorem Edits.substitute_first (c d : Char) (h : Edits n a b) : Edits (n + 1) (c :: a) (d :: b) :=
  .step (.substitute [] a c d) (h.cons d)

theorem edits_from_nil (b : List Char) : Edits b.length [] b := by
  induction b with
  | nil => exact .refl []
  | cons d b ih => exact ih.insert_first d

theorem edits_to_nil (a : List Char) : Edits a.length a [] := by
  induction a with
  | nil => exact .refl []
  | cons c a ih => exact ih.delete_first c

theorem edits_distance (a b : List Char) : Edits (distance a b) a b := by
  fun_induction distance a b with
  | case1 b => exact edits_from_nil b
  | case2 c a => exact edits_to_nil (c :: a)
  | case3 c a d b ihdelete ihinsert ihkeep =>
    have hkept : Edits (distance a b + if c = d then 0 else 1) (c :: a) (d :: b) := by
      split
      · rename_i hsame
        exact hsame ▸ ihkeep.cons c
      · exact ihkeep.substitute_first c d
    have hchanged := min_rec' (Edits · (c :: a) (d :: b)) (ihdelete.delete_first c) (ihinsert.insert_first d)
    exact min_rec' (Edits · (c :: a) (d :: b)) hchanged hkept

-- ---------------------------------------------------------------------------
-- Fewer do not
-- ---------------------------------------------------------------------------

theorem distance_nil_right (a : List Char) : distance a [] = a.length := by
  cases a <;> simp [distance]

theorem distance_self (a : List Char) : distance a a = 0 := by
  induction a with
  | nil => simp [distance]
  | cons c a ih => simp [distance, ih]

theorem distance_cons_left_le (c : Char) (a b : List Char) : distance (c :: a) b ≤ distance a b + 1 := by
  cases b with
  | nil => simp [distance_nil_right]
  | cons d b =>
    rw [distance]
    omega

theorem distance_cons_right_le (d : Char) (a b : List Char) : distance a (d :: b) ≤ distance a b + 1 := by
  cases a with
  | nil => simp [distance]
  | cons c a =>
    rw [distance]
    omega

theorem distance_le_cons_left (c : Char) (a b : List Char) : distance a b ≤ distance (c :: a) b + 1 := by
  induction b with
  | nil =>
    simp only [distance_nil_right, List.length_cons]
    omega
  | cons d b ih =>
    have hlonger := distance_cons_right_le d a b
    rw [distance]
    omega

theorem distance_substitute_le (c d : Char) (a b : List Char) :
    distance (c :: a) b ≤ distance (d :: a) b + 1 := by
  induction b with
  | nil => simp [distance_nil_right]
  | cons e b ih =>
    rw [distance, distance]
    split <;> split <;> omega

def Near (a b : List Char) : Prop := ∀ c, distance a c ≤ distance b c + 1

theorem Near.cons (x : Char) (h : Near a b) : Near (x :: a) (x :: b) := by
  intro c
  induction c with
  | nil =>
    have hlength := h []
    simp only [distance_nil_right, List.length_cons] at hlength ⊢
    omega
  | cons d c ih =>
    have hlonger := h (d :: c)
    have hrest := h c
    rw [distance, distance]
    omega

theorem Near.append (front : List Char) (h : Near a b) : Near (front ++ a) (front ++ b) := by
  induction front with
  | nil => exact h
  | cons x front ih => exact ih.cons x

/-- One edit brings a text at most one nearer to another. -/
theorem near_of_edit (h : Edit a b) : Near a b := by
  cases h with
  | insert front back c => exact Near.append front (distance_le_cons_left c back)
  | delete front back c => exact Near.append front (distance_cons_left_le c back)
  | substitute front back c d => exact Near.append front (distance_substitute_le c d back)

theorem distance_le_of_edits (h : Edits n a b) : distance a b ≤ n := by
  induction h with
  | refl a => exact (distance_self a).le
  | @step n a b c hedit _ ih => exact (near_of_edit hedit c).trans (Nat.succ_le_succ ih)

theorem isLeast_distance (a b : List Char) : IsLeast {n | Edits n a b} (distance a b) :=
  ⟨edits_distance a b, fun _ h => distance_le_of_edits h⟩

-- ---------------------------------------------------------------------------
-- The table
-- ---------------------------------------------------------------------------

/-- The rest of the row of `text ++ [c]`, given the row of `text` from the present place on and the
entry to the left. -/
def nextRow (c : Char) : List Char → List Nat → Nat → List Nat
  | d :: other, diagonal :: above :: row, left =>
    let here := min (min (above + 1) (left + 1)) (diagonal + if c = d then 0 else 1)
    here :: nextRow c other (above :: row) here
  | _, _, _ => []

def rows (other : List Char) : List Char → Nat → List Nat → List Nat
  | [], _, row => row
  | c :: text, read, row => rows other text (read + 1) ((read + 1) :: nextRow c other row (read + 1))

theorem length_fill (c : Char) (last : List Nat) (j : Nat) (other : List Char) (spare : List Nat) :
    (fill c last j other spare).length = spare.length := by
  induction other generalizing j spare with
  | nil => rfl
  | cons d other ih => rw [fill, ih, List.length_set]

theorem take_set_succ {row : List Nat} {j : Nat} (h : j < row.length) (here : Nat) :
    (row.set j here).take (j + 1) = row.take j ++ [here] := by
  rw [List.take_succ_eq_append_getElem (by simpa using h), List.take_set_of_le (Nat.le_refl j),
    List.getElem_set_self]

theorem drop_eq_getD_cons {row : List Nat} {j : Nat} (h : j < row.length) :
    row.drop j = row.getD j 0 :: row.drop (j + 1) := by
  rw [List.drop_eq_getElem_cons h, List.getD_eq_getElem?_getD, List.getElem?_eq_getElem h]
  rfl

/-- Nothing of what is written over is looked at. -/
theorem fill_eq {c : Char} {last spare : List Nat} {j : Nat} {other : List Char}
    (hlast : last.length = j + 1 + other.length) (hspare : spare.length = j + 1 + other.length) :
    fill c last j other spare =
      spare.take (j + 1) ++ nextRow c other (last.drop j) (spare.getD j 0) := by
  induction other generalizing j spare with
  | nil =>
    have hall : spare.take (j + 1) = spare := List.take_of_length_le (Nat.le_of_eq hspare)
    rw [fill, hall]
    simp [nextRow]
  | cons d other ih =>
    have hlength : last.length = j + 1 + 1 + other.length := by
      rw [hlast, List.length_cons]
      omega
    have hmore : spare.length = j + 1 + 1 + other.length := hspare.trans (hlast.symm.trans hlength)
    have hfirst : last.drop j = last.getD j 0 :: last.drop (j + 1) := drop_eq_getD_cons (by omega)
    have hsecond : last.drop (j + 1) = last.getD (j + 1) 0 :: last.drop (j + 2) :=
      drop_eq_getD_cons (by omega)
    have hwritten : (spare.set (j + 1) (entry c d last spare j)).getD (j + 1) 0 =
        entry c d last spare j := by
      rw [List.getD_eq_getElem?_getD, List.getElem?_set_self (by omega)]
      rfl
    rw [fill, ih hlength (by rwa [List.length_set]), take_set_succ (by omega), hwritten, hfirst,
      hsecond, nextRow, ← hsecond, List.append_assoc]
    rfl

theorem last_next {other : List Char} {r : Rows} (hlast : r.last.length = other.length + 1)
    (hspare : r.spare.length = other.length + 1) (read : Nat) (c : Char) :
    (r.next other read c).last = (read + 1) :: nextRow c other r.last (read + 1) := by
  obtain ⟨last, spare⟩ := r
  cases spare with
  | nil => cases hspare
  | cons first spare =>
    rw [Rows.next, fill_eq (by omega) (by simpa [Nat.add_comm] using hspare)]
    rfl

theorem last_read {other text : List Char} {read : Nat} {r : Rows}
    (hlast : r.last.length = other.length + 1) (hspare : r.spare.length = other.length + 1) :
    (Rows.read other text read r).last = rows other text read r.last := by
  induction text generalizing read r with
  | nil => rfl
  | cons c text ih =>
    have hnext : (r.next other read c).last.length = other.length + 1 := by
      rw [Rows.next, length_fill, List.length_set, hspare]
    rw [Rows.read, ih hnext hlast, rows, last_next hlast hspare]

/-- The distances of one text to another and to what this becomes as more of its characters come. Both texts
stand with their last character first. -/
def distances (read done : List Char) : List Char → List Nat
  | [] => [distance read done]
  | d :: rest => distance read done :: distances read (d :: done) rest

theorem distances_eq_cons (read done rest : List Char) :
    distances read done rest = distance read done :: (distances read done rest).tail := by
  cases rest <;> rfl

theorem nextRow_distances (c : Char) (read done rest : List Char) :
    nextRow c rest (distances read done rest) (distance (c :: read) done) =
      (distances (c :: read) done rest).tail := by
  induction rest generalizing done with
  | nil => rfl
  | cons d rest ih =>
    -- the entry to be found is that of the recursion, from the three entries around it
    have hhere : min (min (distance read (d :: done) + 1) (distance (c :: read) done + 1))
        (distance read done + if c = d then 0 else 1) = distance (c :: read) (d :: done) := by
      rw [distance]
    rw [distances, distances_eq_cons, nextRow, hhere, ← distances_eq_cons, ih]
    exact (distances_eq_cons _ _ _).symm

theorem rows_distances (other text read : List Char) :
    rows other text read.length (distances read [] other) = distances (text.reverse ++ read) [] other := by
  induction text generalizing read with
  | nil => rfl
  | cons c text ih =>
    have hfirst : read.length + 1 = distance (c :: read) [] := by simp [distance_nil_right]
    rw [rows, hfirst, nextRow_distances, ← distances_eq_cons, ← hfirst]
    simpa using ih (c :: read)

theorem range'_eq_distances (done rest : List Char) :
    List.range' done.length (rest.length + 1) = distances [] done rest := by
  induction rest generalizing done with
  | nil => simp [distances, distance]
  | cons d rest ih =>
    have hrest := ih (d :: done)
    rw [List.length_cons] at hrest
    rw [distances, ← hrest, List.range'_succ, List.length_cons, distance]

theorem getD_distances (read done rest : List Char) :
    (distances read done rest).getD rest.length 0 = distance read (rest.reverse ++ done) := by
  induction rest generalizing done with
  | nil => rfl
  | cons d rest ih =>
    rw [distances, List.length_cons, List.getD_cons_succ, ih]
    simp

theorem editDistance_eq (a b : String) :
    editDistance a b = distance a.toList.reverse b.toList.reverse := by
  have hstart : List.range (b.toList.length + 1) = distances [] [] b.toList := by
    rw [List.range_eq_range']
    exact range'_eq_distances [] b.toList
  have hrows := rows_distances b.toList a.toList []
  rw [List.length_nil, ← hstart] at hrows
  rw [editDistance, last_read List.length_range List.length_replicate, hrows, getD_distances]
  simp

theorem Edit.reverse (h : Edit a b) : Edit a.reverse b.reverse := by
  cases h with
  | insert front back c => simpa using Edit.insert back.reverse front.reverse c
  | delete front back c => simpa using Edit.delete back.reverse front.reverse c
  | substitute front back c d => simpa using Edit.substitute back.reverse front.reverse c d

theorem Edits.reverse (h : Edits n a b) : Edits n a.reverse b.reverse := by
  induction h with
  | refl a => exact .refl _
  | step hedit _ ih => exact .step hedit.reverse ih

theorem edits_reverse_iff : Edits n a.reverse b.reverse ↔ Edits n a b :=
  ⟨fun h => by simpa using h.reverse, Edits.reverse⟩

theorem isLeast_editDistance (a b : String) :
    IsLeast {n | Edits n a.toList b.toList} (editDistance a b) := by
  have hleast := isLeast_distance a.toList.reverse b.toList.reverse
  simpa only [editDistance_eq, edits_reverse_iff] using hleast

-- ---------------------------------------------------------------------------
-- Suggestions
-- ---------------------------------------------------------------------------

/-- The name within distance two that is no further than any other, and of several the first. -/
structure Nearest (names : List String) (name close : String) : Prop where
  mem : close ∈ names
  within : editDistance name close ≤ 2
  least : ∀ other ∈ names, editDistance name close ≤ editDistance name other
  first : ∀ other ∈ names, editDistance name other = editDistance name close → close ≤ other

variable {names : List String} {name close candidate : String} {best : Option (Nat × String)}

theorem Nearest.unique {other : String} (h : Nearest names name close) (h' : Nearest names name other) :
    close = other := by
  have hsame : editDistance name close = editDistance name other :=
    (h.least other h'.mem).antisymm (h'.least close h.mem)
  exact (h.first other h'.mem hsame.symm).antisymm (h'.first close h.mem hsame)

/-- What is kept of the names seen: the nearest with its distance, if one lies within distance two. -/
def Keeps (names : List String) (name : String) : Option (Nat × String) → Prop
  | none => ∀ other ∈ names, 2 < editDistance name other
  | some (d, close) => d = editDistance name close ∧ Nearest names name close

theorem Nearest.keep (h : Nearest names name close)
    (hleast : editDistance name close ≤ editDistance name candidate)
    (hfirst : editDistance name candidate = editDistance name close → close ≤ candidate) :
    Nearest (names ++ [candidate]) name close where
  mem := List.mem_append_left _ h.mem
  within := h.within
  least := List.forall_mem_append.mpr ⟨h.least, List.forall_mem_singleton.mpr hleast⟩
  first := List.forall_mem_append.mpr ⟨h.first, List.forall_mem_singleton.mpr hfirst⟩

theorem Nearest.replace (hwithin : editDistance name candidate ≤ 2)
    (hleast : ∀ other ∈ names, editDistance name candidate ≤ editDistance name other)
    (hfirst : ∀ other ∈ names, editDistance name other = editDistance name candidate → candidate ≤ other) :
    Nearest (names ++ [candidate]) name candidate where
  mem := List.mem_append_right _ List.mem_cons_self
  within := hwithin
  least := List.forall_mem_append.mpr ⟨hleast, List.forall_mem_singleton.mpr le_rfl⟩
  first := List.forall_mem_append.mpr ⟨hfirst, List.forall_mem_singleton.mpr fun _ => le_rfl⟩

/-- A name that is nearer than the nearest, or as near and before it in name order, takes its place. -/
theorem Nearest.yield (h : Nearest names name close)
    (hnearer : editDistance name candidate < editDistance name close ∨
      editDistance name candidate = editDistance name close ∧ candidate < close) :
    Nearest (names ++ [candidate]) name candidate := by
  have hwithin := h.within
  refine .replace (by omega) (fun other hother => ?_) fun other hother heq => ?_
  · have hleast := h.least other hother
    omega
  · have hleast := h.least other hother
    have hsame : editDistance name other = editDistance name close := by omega
    have hbefore : candidate < close := hnearer.elim (fun hlt => by omega) And.right
    exact hbefore.le.trans (h.first other hother hsame)

theorem closer_of_far (hfar : 2 < editDistance name candidate) : closer name best candidate = best :=
  if_pos hfar

theorem closer_none (hnear : ¬2 < editDistance name candidate) :
    closer name none candidate = some (editDistance name candidate, candidate) :=
  if_neg hnear

theorem closer_some (hnear : ¬2 < editDistance name candidate) (d : Nat) (close : String) :
    closer name (some (d, close)) candidate =
      if editDistance name candidate < d ∨ editDistance name candidate = d ∧ candidate < close then
        some (editDistance name candidate, candidate)
      else some (d, close) :=
  if_neg hnear

theorem Keeps.step (h : Keeps names name best) (candidate : String) :
    Keeps (names ++ [candidate]) name (closer name best candidate) := by
  by_cases hfar : 2 < editDistance name candidate
  · rw [closer_of_far hfar]
    cases best with
    | none => exact List.forall_mem_append.mpr ⟨h, List.forall_mem_singleton.mpr hfar⟩
    | some best =>
      obtain ⟨hd, hnearest⟩ := h
      have hwithin := hnearest.within
      exact ⟨hd, hnearest.keep (by omega) (by omega)⟩
  cases best with
  | none =>
    have hothers : ∀ other ∈ names, editDistance name candidate < editDistance name other :=
      fun other hother => (not_lt.mp hfar).trans_lt (h other hother)
    rw [closer_none hfar]
    exact ⟨rfl, .replace (not_lt.mp hfar) (fun other hother => (hothers other hother).le)
      fun other hother heq => absurd heq (hothers other hother).ne'⟩
  | some best =>
    obtain ⟨d, close⟩ := best
    obtain ⟨rfl, hnearest⟩ := h
    rw [closer_some hfar]
    split
    · rename_i hnearer
      exact ⟨rfl, hnearest.yield hnearer⟩
    · rename_i hnearer
      obtain ⟨hlt, hbefore⟩ := not_or.mp hnearer
      exact ⟨rfl, hnearest.keep (not_lt.mp hlt) fun heq => not_lt.mp fun hlt => hbefore ⟨heq, hlt⟩⟩

theorem keeps_foldl (names : List String) (name : String) :
    Keeps names name (names.foldl (closer name) none) := by
  induction names using List.reverseRecOn with
  | nil => exact nofun
  | append_singleton front last ih =>
    rw [List.foldl_append]
    exact ih.step last

theorem suggest?_cases (names : List String) (name : String) :
    (suggest? names name = none ∧ ∀ other ∈ names, 2 < editDistance name other) ∨
      ∃ close, suggest? names name = some close ∧ Nearest names name close := by
  have hkeeps := keeps_foldl names name
  rw [suggest?]
  cases hbest : names.foldl (closer name) none with
  | none =>
    rw [hbest] at hkeeps
    exact .inl ⟨rfl, hkeeps⟩
  | some best =>
    rw [hbest] at hkeeps
    exact .inr ⟨best.2, rfl, hkeeps.2⟩

theorem suggest?_eq_some_iff : suggest? names name = some close ↔ Nearest names name close := by
  rcases suggest?_cases names name with ⟨hnone, hfar⟩ | ⟨found, hsome, hnearest⟩
  · rw [hnone]
    exact iff_of_false nofun fun h => (hfar close h.mem).not_ge h.within
  · rw [hsome, Option.some.injEq]
    exact ⟨fun h => h ▸ hnearest, hnearest.unique⟩

theorem isSome_suggest?_iff :
    (suggest? names name).isSome = true ↔ ∃ other ∈ names, editDistance name other ≤ 2 := by
  rcases suggest?_cases names name with ⟨hnone, hfar⟩ | ⟨found, hsome, hnearest⟩
  · rw [hnone]
    exact iff_of_false nofun fun ⟨other, hother, hwithin⟩ => (hfar other hother).not_ge hwithin
  · rw [hsome]
    exact iff_of_true rfl ⟨found, hnearest.mem, hnearest.within⟩

/-- The distance is the least number of edits; if a name lies within distance two, the nearest is suggested. -/
theorem suggest?_nearest (known extra : List String) (name : String) :
    (∀ a b : String, IsLeast {n | Edits n a.toList b.toList} (editDistance a b)) ∧
      ((suggest? (known ++ extra) name).isSome = true ↔
        ∃ other, (other ∈ known ∨ other ∈ extra) ∧ editDistance name other ≤ 2) ∧
      ∀ close, suggest? (known ++ extra) name = some close ↔ Nearest (known ++ extra) name close := by
  refine ⟨isLeast_editDistance, ?_, fun _ => suggest?_eq_some_iff⟩
  simp only [isSome_suggest?_iff, List.mem_append]

end TradingRules.Validation
