import TradingRules.Proofs.Cache.Recency

/-!
# Which keys a bounded store remembers

The order of a store gives its keys by their last uses. So what a store remembers follows from the
history of uses alone: the distinct keys used, latest first, as far as there is room
(`Remembers`). A key is among them if fewer others were used since than there is room for
(`mem_take_eraseDups`).
-/

namespace List

variable {κ : Type} [DecidableEq κ] {x y : κ}

theorem eraseDups_filter (p : κ → Bool) :
    ∀ l : List κ, (l.filter p).eraseDups = l.eraseDups.filter p
  | [] => rfl
  | y :: rest => by
    have hshort : (rest.filter fun b => !b == y).length < rest.length + 1 :=
      Nat.lt_succ_of_le (length_filter_le _ _)
    have hrest := eraseDups_filter p (rest.filter fun b => !b == y)
    rw [eraseDups_cons]
    by_cases hy : p y = true
    · rw [filter_cons_of_pos hy, eraseDups_cons, filter_cons_of_pos hy, ← hrest, filter_filter,
        filter_filter]
      simp only [Bool.and_comm]
    · have hsame : (rest.filter fun b => !b == y).filter p = rest.filter p := by
        rw [filter_filter]
        refine filter_congr fun b _ => ?_
        by_cases hb : b = y
        · simp [hb, hy]
        · simp [hb]
      rw [filter_cons_of_neg hy, filter_cons_of_neg hy, ← hrest, hsame]
termination_by l => l.length

theorem eraseDups_cons_filter (y : κ) (l : List κ) :
    (y :: l).eraseDups = y :: l.eraseDups.filter (· ≠ y) := by
  rw [eraseDups_cons, eraseDups_filter]
  congr 1
  refine filter_congr fun b _ => ?_
  by_cases hb : b = y <;> simp [hb]

theorem nodup_eraseDups (l : List κ) : l.eraseDups.Nodup := by
  induction l with
  | nil => simp
  | cons y rest ih =>
    rw [eraseDups_cons_filter, nodup_cons]
    exact ⟨by simp, ih.sublist filter_sublist⟩

theorem takeWhile_filter_ne (h : y ≠ x) (l : List κ) :
    (l.filter (· ≠ y)).takeWhile (· ≠ x) = (l.takeWhile (· ≠ x)).filter (· ≠ y) := by
  induction l with
  | nil => rfl
  | cons z rest ih =>
    by_cases hx : z = x
    · subst hx
      simp [h.symm]
    · by_cases hy : z = y
      · simp_all
      · simp_all

theorem eraseDups_takeWhile_ne (l : List κ) :
    (l.takeWhile (· ≠ x)).eraseDups = l.eraseDups.takeWhile (· ≠ x) := by
  induction l with
  | nil => rfl
  | cons y rest ih =>
    rw [eraseDups_cons_filter]
    by_cases hy : y = x
    · simp [hy]
    · rw [takeWhile_cons_of_pos (by simpa using hy), takeWhile_cons_of_pos (by simpa using hy),
        eraseDups_cons_filter, ih, takeWhile_filter_ne hy]

theorem mem_take_iff_takeWhile {n : Nat} {l : List κ} :
    x ∈ l.take n ↔ x ∈ l ∧ (l.takeWhile (· ≠ x)).length < n := by
  induction l generalizing n with
  | nil => simp
  | cons y rest ih =>
    cases n with
    | zero => simp
    | succ n =>
      by_cases hy : y = x
      · simp [hy]
      · rw [take_succ_cons, mem_cons, mem_cons, ih, takeWhile_cons_of_pos (by simpa using hy)]
        simp [Ne.symm hy]

/-- An element is among the first `n` distinct ones exactly if fewer than `n` others come first. -/
theorem mem_take_eraseDups {n : Nat} {l : List κ} :
    x ∈ l.eraseDups.take n ↔ x ∈ l ∧ (l.takeWhile (· ≠ x)).eraseDups.length < n := by
  rw [mem_take_iff_takeWhile, eraseDups_takeWhile_ne, mem_eraseDups]

theorem take_filter_take {n : Nat} {l : List κ} (h : l.Nodup) :
    ((l.take (n + 1)).filter (· ≠ x)).take n = (l.filter (· ≠ x)).take n := by
  induction l generalizing n with
  | nil => simp
  | cons y rest ih =>
    obtain ⟨hy, hrest⟩ := nodup_cons.mp h
    rw [take_succ_cons]
    by_cases hyx : y = x
    · subst hyx
      have hall : ∀ z ∈ rest, decide (z ≠ y) = true := by
        intro z hz
        exact decide_eq_true fun hzy => hy (hzy ▸ hz)
      rw [filter_cons_of_neg (by simp), filter_cons_of_neg (by simp), filter_eq_self.mpr hall,
        filter_eq_self.mpr fun z hz => hall z (mem_of_mem_take hz), take_take, Nat.min_self]
    · rw [filter_cons_of_pos (by simpa using hyx), filter_cons_of_pos (by simpa using hyx)]
      cases n with
      | zero => rfl
      | succ n => rw [take_succ_cons, take_succ_cons, ih hrest]

end List

namespace TradingRules.Recency

variable {κ α : Type} {s : Recency κ α}

def recent (s : Recency κ α) : List κ := s.keys.reverse

theorem Coherent.length_recent (h : s.Coherent) : s.recent.length = s.size := by
  rw [recent, List.length_reverse, h.length_keys]

variable [DecidableEq κ] {key : κ} {a : α}

-- ---------------------------------------------------------------------------
-- What is there
-- ---------------------------------------------------------------------------

theorem Coherent.mem_recent (h : s.Coherent) : key ∈ s.recent ↔ ∃ a, s.peek? key = some a :=
  List.mem_reverse.trans h.mem_keys

theorem Coherent.not_mem_recent (h : s.Coherent) : key ∉ s.recent ↔ s.peek? key = none := by
  rw [h.mem_recent, Option.eq_none_iff_forall_ne_some, not_exists]

theorem recent_evict (s : Recency κ α) : s.evict.2.recent = s.recent.dropLast := by
  rw [recent, keys_evict, ← List.dropLast_reverse]
  rfl

theorem Coherent.recent_use (h : s.Coherent) (key : κ) (a : α) :
    (s.use key a).recent = key :: s.recent.filter (· ≠ key) := by
  rw [recent, h.keys_use, List.reverse_append, ← List.filter_reverse]
  rfl

theorem Coherent.recent_get_of_mem (h : s.Coherent) (hkey : key ∈ s.recent) :
    (s.get key).2.recent = key :: s.recent.filter (· ≠ key) := by
  obtain ⟨a, hpeek⟩ := h.mem_recent.mp hkey
  rw [get_of_some hpeek, h.recent_use]

theorem Coherent.recent_get_of_not_mem (h : s.Coherent) (hkey : key ∉ s.recent) :
    (s.get key).2.recent = s.recent := by
  rw [get_of_none (h.not_mem_recent.mp hkey)]
  rfl

/-- The key put in is in front, and the last one is out if there is no room. -/
theorem Sound.recent_insert (h : s.Sound) (key : κ) (a : α) :
    (s.insert key a).2.recent = (key :: s.recent.filter (· ≠ key)).take s.capacity := by
  have hsize := (h.use key a).length_recent
  have hle := size_use_le s key a
  have hfits := h.fits
  rw [← h.recent_use key a, Recency.insert]
  split
  · rename_i hroom
    exact (List.take_of_length_le (hsize ▸ hroom)).symm
  · rename_i hfull
    rw [recent_evict, List.dropLast_eq_take, hsize]
    congr 1
    omega

theorem forall_entries_use {P : κ → α → Prop} (h : ∀ e ∈ s.entries, P e.1 e.2.1) (ha : P key a) :
    ∀ e ∈ (s.use key a).entries, P e.1 e.2.1 := by
  rw [entries_use, List.forall_mem_cons]
  exact ⟨ha, fun e he => h e (mem_without.mp he).1⟩

theorem forall_entries_get {P : κ → α → Prop} (h : ∀ e ∈ s.entries, P e.1 e.2.1) (key : κ) :
    ∀ e ∈ (s.get key).2.entries, P e.1 e.2.1 := by
  cases hpeek : s.peek? key with
  | none => rwa [get_of_none hpeek]
  | some a =>
    obtain ⟨n, hmem⟩ := mem_of_peek? hpeek
    rw [get_of_some hpeek]
    exact forall_entries_use h (h (key, a, n) hmem)

theorem forall_entries_insert {P : κ → α → Prop} (h : ∀ e ∈ s.entries, P e.1 e.2.1) (ha : P key a) :
    ∀ e ∈ (s.insert key a).2.entries, P e.1 e.2.1 := by
  have huse := forall_entries_use h ha
  unfold insert
  split
  · exact huse
  · unfold evict
    split
    · exact huse
    · exact fun e he => huse e (mem_without.mp he).1

theorem forall_entries_remove {P : κ → α → Prop} (h : ∀ e ∈ s.entries, P e.1 e.2.1) (key : κ) :
    ∀ e ∈ (s.remove key).2.entries, P e.1 e.2.1 := by
  rw [remove, entries_drop]
  exact fun e he => h e (mem_without.mp he).1

-- ---------------------------------------------------------------------------
-- What the history of uses tells
-- ---------------------------------------------------------------------------

/-- The store remembers as many of the keys used, given latest first, as there is room for. -/
structure Remembers (s : Recency κ α) (used : List κ) : Prop extends s.Sound where
  recent_eq : s.recent = used.eraseDups.take s.capacity

variable {used : List κ}

theorem Remembers.empty (capacity : Nat) : (empty capacity : Recency κ α).Remembers [] :=
  ⟨sound_empty capacity, by simp [recent, keys, Recency.empty]⟩

theorem Remembers.clear (h : s.Remembers used) : s.clear.Remembers [] :=
  ⟨h.toSound.clear, by simp [recent, keys, Recency.clear]⟩

/-- The key used now is in front of what is remembered of the uses before. -/
theorem Remembers.recent_cons (h : s.Remembers used) :
    (key :: s.recent.filter (· ≠ key)).take s.capacity =
      (key :: used).eraseDups.take s.capacity := by
  obtain ⟨n, hn⟩ : ∃ n, s.capacity = n + 1 := Nat.exists_eq_succ_of_ne_zero (Nat.ne_of_gt h.room)
  rw [List.eraseDups_cons_filter, h.recent_eq, hn, List.take_succ_cons, List.take_succ_cons,
    List.take_filter_take (List.nodup_eraseDups used)]

theorem Remembers.insert (h : s.Remembers used) (key : κ) (a : α) :
    (s.insert key a).2.Remembers (key :: used) :=
  ⟨h.toSound.insert key a, by rw [h.toSound.recent_insert, capacity_insert, h.recent_cons]⟩

theorem Remembers.get_of_mem (h : s.Remembers used) (hkey : key ∈ s.recent) :
    (s.get key).2.Remembers (key :: used) := by
  have hget := h.toSound.get key
  refine ⟨hget, ?_⟩
  have hfits : (s.get key).2.recent.length ≤ s.capacity := by
    rw [hget.length_recent, ← capacity_get s key]
    exact hget.fits
  rw [capacity_get, ← h.recent_cons, ← h.recent_get_of_mem hkey, List.take_of_length_le hfits]

theorem Remembers.get_of_not_mem (h : s.Remembers used) (hkey : key ∉ s.recent) :
    (s.get key).2.Remembers used :=
  ⟨h.toSound.get key, by rw [h.recent_get_of_not_mem hkey, capacity_get, h.recent_eq]⟩

/-- A key is there exactly if it was used and fewer others were used since than there is room for. -/
theorem Remembers.mem_recent_iff (h : s.Remembers used) :
    key ∈ s.recent ↔ key ∈ used ∧ (used.takeWhile (· ≠ key)).eraseDups.length < s.capacity := by
  rw [h.recent_eq, List.mem_take_eraseDups]

end TradingRules.Recency
