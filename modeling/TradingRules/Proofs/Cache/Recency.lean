import Mathlib.Data.List.Nodup
import TradingRules.Cache.Counted

/-!
# The two maps of a bounded store

The order of a store has exactly the uses that its entries tell, by ascending ticks that have passed
(`Coherent`). Taking a key out, using it and forgetting the first one keep that, so that every
operation does, and keeps to the capacity besides (`Sound`). From it follows what the operations do to
the keys in the order of use, and that what is forgotten to make room is another key than the one just
put in (`peek?_insert_self`).
-/

namespace TradingRules

namespace Recency

variable {κ α : Type} {s : Recency κ α} {entries : List (κ × α × Nat)} {order : List (Nat × κ)}
  {e : κ × α × Nat} {k key : κ} {a b : α} {n : Nat}

def uses (entries : List (κ × α × Nat)) : List (Nat × κ) := entries.map fun e => (e.2.2, e.1)

structure Coherent (s : Recency κ α) : Prop where
  distinct : (s.entries.map Prod.fst).Nodup
  ascending : s.order.Pairwise fun p q => p.1 < q.1
  timely : ∀ p ∈ s.order, p.1 ≤ s.tick
  inverse : s.order.Perm (uses s.entries)

structure Sound (s : Recency κ α) : Prop extends s.Coherent where
  room : 0 < s.capacity
  fits : s.size ≤ s.capacity

theorem sound_empty (capacity : Nat) : (empty capacity : Recency κ α).Sound where
  distinct := .nil
  ascending := .nil
  timely := nofun
  inverse := .nil
  room := Nat.le_max_right capacity 1
  fits := Nat.zero_le _

theorem Sound.clear (h : s.Sound) : s.clear.Sound where
  distinct := .nil
  ascending := .nil
  timely := nofun
  inverse := .nil
  room := h.room
  fits := Nat.zero_le _

-- ---------------------------------------------------------------------------
-- What one map tells of the other
-- ---------------------------------------------------------------------------

theorem mem_uses : (n, k) ∈ uses entries ↔ ∃ a, (k, a, n) ∈ entries := by
  simp [uses]

theorem map_snd_uses (entries : List (κ × α × Nat)) :
    (uses entries).map Prod.snd = entries.map Prod.fst := by
  rw [uses, List.map_map]
  rfl

theorem Coherent.mem_order (h : s.Coherent) : (n, k) ∈ s.order ↔ ∃ a, (k, a, n) ∈ s.entries := by
  rw [h.inverse.mem_iff, mem_uses]

theorem Coherent.keys_perm (h : s.Coherent) : s.keys.Perm (s.entries.map Prod.fst) := by
  rw [← map_snd_uses]
  exact h.inverse.map _

theorem Coherent.nodup_keys (h : s.Coherent) : s.keys.Nodup := h.keys_perm.nodup_iff.mpr h.distinct

theorem Coherent.length_keys (h : s.Coherent) : s.keys.length = s.size := by
  rw [h.keys_perm.length_eq, List.length_map, size]

theorem order_of_keys {rest : List κ} (h : s.keys = k :: rest) :
    ∃ n order, s.order = (n, k) :: order := by
  obtain ⟨⟨n, _⟩, order, horder, rfl, -⟩ := List.map_eq_cons_iff.mp h
  exact ⟨n, order, horder⟩

theorem Coherent.tick_unique (h : s.Coherent) (hk : (n, k) ∈ s.order) (hkey : (n, key) ∈ s.order) :
    k = key := by
  have hticks : (s.order.map Prod.fst).Nodup :=
    List.pairwise_map.mpr (h.ascending.imp Nat.ne_of_lt)
  exact congrArg Prod.snd (List.inj_on_of_nodup_map hticks hk hkey rfl)

theorem Coherent.entry_unique (h : s.Coherent) {m : Nat} (ha : (k, a, n) ∈ s.entries)
    (hb : (k, b, m) ∈ s.entries) : a = b ∧ n = m :=
  Prod.mk.inj (congrArg Prod.snd (List.inj_on_of_nodup_map h.distinct ha hb rfl))

theorem enter_of_late (h : ∀ p ∈ order, p.1 < n) : enter n key order = order ++ [(n, key)] := by
  induction order with
  | nil => rfl
  | cons p rest ih =>
    obtain ⟨hp, hrest⟩ := List.forall_mem_cons.mp h
    rw [enter, if_neg (Nat.ne_of_gt hp), if_neg (Nat.lt_asymm hp), ih hrest]
    rfl

variable [DecidableEq κ]

theorem mem_without : e ∈ without key entries ↔ e ∈ entries ∧ e.1 ≠ key := by
  simp [without]

theorem map_fst_without (key : κ) (entries : List (κ × α × Nat)) :
    (without key entries).map Prod.fst = (entries.map Prod.fst).filter (· ≠ key) := by
  rw [without, List.filter_map]
  rfl

theorem uses_without (key : κ) (entries : List (κ × α × Nat)) :
    uses (without key entries) = (uses entries).filter fun p => p.2 ≠ key := by
  rw [uses, without, uses, List.filter_map]
  rfl

theorem mem_of_find?_key {β : Type} {pairs : List (κ × β)} {b : β}
    (h : (pairs.find? fun p => p.1 = key).map Prod.snd = some b) : (key, b) ∈ pairs := by
  obtain ⟨⟨k, _⟩, hfound, rfl⟩ := Option.map_eq_some_iff.mp h
  obtain rfl : k = key := by simpa using List.find?_some hfound
  exact List.mem_of_find?_eq_some hfound

theorem find?_key_eq_some_iff {β : Type} {pairs : List (κ × β)} {b : β}
    (h : (pairs.map Prod.fst).Nodup) :
    (pairs.find? fun p => p.1 = key).map Prod.snd = some b ↔ (key, b) ∈ pairs := by
  refine ⟨mem_of_find?_key, fun hmem => ?_⟩
  have hsome : (pairs.find? fun p => p.1 = key).isSome :=
    List.find?_isSome.mpr ⟨_, hmem, decide_eq_true rfl⟩
  obtain ⟨⟨k, _⟩, hfound⟩ := Option.isSome_iff_exists.mp hsome
  obtain rfl : k = key := by simpa using List.find?_some hfound
  rw [hfound, List.inj_on_of_nodup_map h (List.mem_of_find?_eq_some hfound) hmem rfl]
  rfl

theorem find?_eq_none : s.find? key = none ↔ ∀ e ∈ s.entries, e.1 ≠ key := by
  simp [find?]

theorem find?_mem (h : s.find? key = some (a, n)) : (key, a, n) ∈ s.entries := mem_of_find?_key h

theorem Coherent.find?_eq_some (h : s.Coherent) (hmem : (key, a, n) ∈ s.entries) :
    s.find? key = some (a, n) :=
  (find?_key_eq_some_iff h.distinct).mpr hmem

theorem mem_of_peek? (h : s.peek? key = some a) : ∃ n, (key, a, n) ∈ s.entries := by
  obtain ⟨⟨b, n⟩, hfind, rfl⟩ := Option.map_eq_some_iff.mp h
  exact ⟨n, find?_mem hfind⟩

theorem peek?_eq_none : s.peek? key = none ↔ ∀ e ∈ s.entries, e.1 ≠ key := by
  rw [peek?, Option.map_eq_none_iff, find?_eq_none]

theorem Coherent.mem_keys (h : s.Coherent) : key ∈ s.keys ↔ ∃ a, s.peek? key = some a := by
  rw [h.keys_perm.mem_iff, ← Option.ne_none_iff_exists', Ne, peek?_eq_none]
  simp

theorem contains_eq (s : Recency κ α) (key : κ) : s.contains key = (s.peek? key).isSome := by
  rw [contains, peek?, Option.isSome_map]

-- ---------------------------------------------------------------------------
-- Taking a key out
-- ---------------------------------------------------------------------------

@[simp] theorem capacity_drop (s : Recency κ α) (key : κ) : (s.drop key).capacity = s.capacity := by
  unfold drop
  split <;> rfl

@[simp] theorem tick_drop (s : Recency κ α) (key : κ) : (s.drop key).tick = s.tick := by
  unfold drop
  split <;> rfl

@[simp] theorem entries_drop (s : Recency κ α) (key : κ) :
    (s.drop key).entries = without key s.entries := by
  unfold drop
  split
  · rename_i hnone
    exact (List.filter_eq_self.mpr fun e he => decide_eq_true (find?_eq_none.mp hnone e he)).symm
  · rfl

/-- To take a key's tick out of the order is to take out the key. -/
theorem Coherent.order_drop (h : s.Coherent) (key : κ) :
    (s.drop key).order = s.order.filter fun p => p.2 ≠ key := by
  unfold drop
  split
  · rename_i hnone
    refine (List.filter_eq_self.mpr fun p hp => decide_eq_true ?_).symm
    obtain ⟨a, hmem⟩ := h.mem_order.mp hp
    exact find?_eq_none.mp hnone _ hmem
  · rename_i a used hfind
    have hentry := find?_mem hfind
    refine List.filter_congr fun p hp => decide_eq_decide.mpr (not_congr ⟨?_, ?_⟩)
    · rintro rfl
      exact h.tick_unique hp (h.mem_order.mpr ⟨a, hentry⟩)
    · rintro rfl
      obtain ⟨b, hmem⟩ := h.mem_order.mp hp
      exact (h.entry_unique hmem hentry).2

theorem Coherent.drop (h : s.Coherent) (key : κ) : (s.drop key).Coherent where
  distinct := by
    rw [entries_drop, map_fst_without]
    exact h.distinct.filter _
  ascending := by
    rw [h.order_drop]
    exact h.ascending.filter _
  timely p hp := by
    rw [h.order_drop] at hp
    rw [tick_drop]
    exact h.timely p (List.mem_of_mem_filter hp)
  inverse := by
    rw [h.order_drop, entries_drop, uses_without]
    exact h.inverse.filter _

theorem size_drop_le (s : Recency κ α) (key : κ) : (s.drop key).size ≤ s.size := by
  rw [size, entries_drop]
  exact List.length_filter_le _ _

theorem Sound.drop (h : s.Sound) (key : κ) : (s.drop key).Sound where
  toCoherent := h.toCoherent.drop key
  room := by rw [capacity_drop]; exact h.room
  fits := by rw [capacity_drop]; exact Nat.le_trans (size_drop_le s key) h.fits

theorem Sound.remove (h : s.Sound) (key : κ) : (s.remove key).2.Sound := h.drop key

theorem Coherent.keys_drop (h : s.Coherent) (key : κ) :
    (s.drop key).keys = s.keys.filter (· ≠ key) := by
  rw [keys, h.order_drop, keys, List.filter_map]
  rfl

theorem find?_without_of_ne (s : Recency κ α) (h : k ≠ key) :
    ((without key s.entries).find? fun e => e.1 = k) = s.entries.find? fun e => e.1 = k := by
  rw [without, List.find?_filter]
  congr 1
  funext e
  by_cases he : e.1 = k
  · simp [he, h]
  · simp [he]

theorem peek?_drop_of_ne (s : Recency κ α) (h : k ≠ key) : (s.drop key).peek? k = s.peek? k := by
  rw [peek?, find?, entries_drop, find?_without_of_ne s h]
  rfl

-- ---------------------------------------------------------------------------
-- Using a key
-- ---------------------------------------------------------------------------

@[simp] theorem capacity_use (s : Recency κ α) (key : κ) (a : α) :
    (s.use key a).capacity = s.capacity := capacity_drop s key

@[simp] theorem tick_use (s : Recency κ α) (key : κ) (a : α) : (s.use key a).tick = s.tick + 1 := rfl

theorem entries_use (s : Recency κ α) (key : κ) (a : α) :
    (s.use key a).entries = (key, a, s.tick + 1) :: without key s.entries := by
  rw [← entries_drop]
  rfl

theorem Coherent.lt_of_mem_order_drop (h : s.Coherent) {p : Nat × κ} (hp : p ∈ (s.drop key).order) :
    p.1 < s.tick + 1 := by
  have htimely := (h.drop key).timely p hp
  rw [tick_drop] at htimely
  exact Nat.lt_succ_of_le htimely

/-- The tick of a use is later than all others, so that its key is the last of the order. -/
theorem Coherent.order_use (h : s.Coherent) (key : κ) (a : α) :
    (s.use key a).order = (s.drop key).order ++ [(s.tick + 1, key)] :=
  enter_of_late fun _ hp => h.lt_of_mem_order_drop hp

theorem Coherent.use (h : s.Coherent) (key : κ) (a : α) : (s.use key a).Coherent where
  distinct := by
    rw [entries_use, List.map_cons, map_fst_without, List.nodup_cons]
    exact ⟨by simp, h.distinct.filter _⟩
  ascending := by
    rw [h.order_use, List.pairwise_append]
    refine ⟨(h.drop key).ascending, List.pairwise_singleton .., fun p hp q hq => ?_⟩
    rw [List.mem_singleton.mp hq]
    exact h.lt_of_mem_order_drop hp
  timely p hp := by
    rw [h.order_use, List.mem_append, List.mem_singleton] at hp
    rcases hp with hp | rfl
    · exact Nat.le_of_lt (h.lt_of_mem_order_drop hp)
    · exact Nat.le_refl _
  inverse := by
    rw [h.order_use, entries_use, ← entries_drop]
    exact List.perm_append_singleton .. |>.trans ((h.drop key).inverse.cons _)

theorem Coherent.keys_use (h : s.Coherent) (key : κ) (a : α) :
    (s.use key a).keys = s.keys.filter (· ≠ key) ++ [key] := by
  rw [keys, h.order_use, List.map_append, ← keys, h.keys_drop]
  rfl

theorem peek?_use_self (s : Recency κ α) (key : κ) (a : α) : (s.use key a).peek? key = some a := by
  simp [peek?, find?, entries_use]

theorem peek?_use_of_ne (s : Recency κ α) (a : α) (h : k ≠ key) :
    (s.use key a).peek? k = s.peek? k := by
  rw [peek?, find?, entries_use, List.find?_cons_of_neg (by simpa using h.symm),
    find?_without_of_ne s h]
  rfl

theorem size_use_le (s : Recency κ α) (key : κ) (a : α) : (s.use key a).size ≤ s.size + 1 := by
  rw [size, entries_use, List.length_cons]
  exact Nat.succ_le_succ (List.length_filter_le _ _)

theorem size_use_of_some (h : s.peek? key = some b) : (s.use key a).size ≤ s.size := by
  obtain ⟨n, hmem⟩ := mem_of_peek? h
  rw [size, entries_use, List.length_cons]
  exact List.length_filter_lt_length_iff_exists.mpr ⟨_, hmem, by simp⟩

-- ---------------------------------------------------------------------------
-- Forgetting the first key
-- ---------------------------------------------------------------------------

@[simp] theorem capacity_evict (s : Recency κ α) : s.evict.2.capacity = s.capacity := by
  unfold evict
  split <;> rfl

@[simp] theorem tick_evict (s : Recency κ α) : s.evict.2.tick = s.tick := by
  unfold evict
  split <;> rfl

theorem keys_evict (s : Recency κ α) : s.evict.2.keys = s.keys.tail := by
  unfold evict
  split
  · rename_i hnil
    simp [keys, hnil]
  · rename_i n oldest order horder
    simp [keys, horder]

theorem Coherent.evict_snd (h : s.Coherent) (horder : s.order = (n, key) :: order) :
    s.evict.2 = s.drop key := by
  obtain ⟨a, hmem⟩ := h.mem_order.mp (horder ▸ List.mem_cons_self)
  have hlate := (List.pairwise_cons.mp (horder ▸ h.ascending)).1
  have hleave : leave n s.order = order := by
    rw [horder, leave, List.filter_cons_of_neg (by simp), List.filter_eq_self]
    exact fun p hp => decide_eq_true (Nat.ne_of_gt (hlate p hp))
  simp only [Recency.evict, horder, Recency.drop, h.find?_eq_some hmem]
  rw [← horder, hleave]

theorem Coherent.evict (h : s.Coherent) : s.evict.2.Coherent := by
  cases horder : s.order with
  | nil => rwa [Recency.evict, horder]
  | cons p order =>
    rw [h.evict_snd horder]
    exact h.drop p.2

-- ---------------------------------------------------------------------------
-- Getting and inserting
-- ---------------------------------------------------------------------------

theorem get_of_none (h : s.peek? key = none) : s.get key = (none, { s with tick := s.tick + 1 }) := by
  simp [get, h]

theorem get_of_some (h : s.peek? key = some a) : s.get key = (some a, s.use key a) := by
  simp [get, h]

theorem get_fst (s : Recency κ α) (key : κ) : (s.get key).1 = s.peek? key := by
  unfold get
  split <;> rename_i h <;> exact h.symm

@[simp] theorem capacity_get (s : Recency κ α) (key : κ) : (s.get key).2.capacity = s.capacity := by
  unfold get
  split
  · rfl
  · exact capacity_use ..

@[simp] theorem capacity_insert (s : Recency κ α) (key : κ) (a : α) :
    (s.insert key a).2.capacity = s.capacity := by
  unfold insert
  split <;> simp

theorem peek?_get_self (s : Recency κ α) (key : κ) : (s.get key).2.peek? key = s.peek? key := by
  cases hpeek : s.peek? key with
  | none => rwa [get_of_none hpeek]
  | some a => rw [get_of_some hpeek, peek?_use_self]

theorem Sound.get (h : s.Sound) (key : κ) : (s.get key).2.Sound := by
  cases hpeek : s.peek? key with
  | none =>
    rw [get_of_none hpeek]
    exact { h with timely := fun p hp => Nat.le_succ_of_le (h.timely p hp) }
  | some a =>
    rw [get_of_some hpeek]
    refine ⟨h.use key a, by rw [capacity_use]; exact h.room, ?_⟩
    rw [capacity_use]
    exact Nat.le_trans (size_use_of_some hpeek) h.fits

theorem Sound.insert (h : s.Sound) (key : κ) (a : α) : (s.insert key a).2.Sound := by
  have huse := h.use key a
  unfold Recency.insert
  split
  · rename_i hfits
    exact ⟨huse, by rw [capacity_use]; exact h.room, by rwa [capacity_use]⟩
  · have hsize : (s.use key a).evict.2.size = (s.use key a).size - 1 := by
      rw [← huse.evict.length_keys, keys_evict, List.length_tail, huse.length_keys]
    have hle := size_use_le s key a
    have hfits := h.fits
    exact ⟨huse.evict, by simpa using h.room, by simp only [capacity_evict, capacity_use]; omega⟩

theorem peek?_insert_self (h : s.Sound) (key : κ) (a : α) :
    (s.insert key a).2.peek? key = some a := by
  have huse := h.use key a
  unfold Recency.insert
  split
  · exact peek?_use_self s key a
  · rename_i hfull
    have hkeys := h.keys_use key a
    have hsize := huse.length_keys
    cases hothers : s.keys.filter (· ≠ key) with
    | nil =>
      have hroom := h.room
      simp only [hkeys, hothers, List.nil_append, List.length_singleton] at hsize
      omega
    | cons k rest =>
      have hmem : k ∈ s.keys.filter (· ≠ key) := hothers ▸ List.mem_cons_self
      have hk : k ≠ key := of_decide_eq_true (List.mem_filter.mp hmem).2
      rw [hothers] at hkeys
      obtain ⟨n, order, horder⟩ := order_of_keys hkeys
      rw [huse.evict_snd horder, peek?_drop_of_ne _ hk.symm, peek?_use_self]

end Recency

namespace Counted

variable {κ α : Type} [DecidableEq κ]

theorem request_store (c : Counted κ α) (key : κ) (good : α → Bool) :
    (c.request key good).2.store = (c.store.get key).2 := by
  simp only [request]
  split <;> rfl

theorem request_fst (c : Counted κ α) (key : κ) (good : α → Bool) :
    (c.request key good).1 = (c.store.peek? key).filter good := by
  rw [← Recency.get_fst]
  simp only [request]
  split <;> rename_i h <;> exact h.symm

end Counted

end TradingRules
