import TradingRules.Proofs.Cache.Latest

/-!
# A bounded store is a list in the order of use

`UseList` is the store without ticks: its pairs stand from the least to the most recently used, a use
moves a pair to the end, and what has no room leaves at the front. A store and such a list give the
same answers to every sequence of operations (`answers_eq_useList`).
-/

namespace TradingRules

-- ---------------------------------------------------------------------------
-- Lists in the order of use
-- ---------------------------------------------------------------------------

/-- Pairs of a key and a value, from the least to the most recently used. -/
structure UseList (κ α : Type) where
  room : Nat
  pairs : List (κ × α)

namespace UseList

variable {κ α : Type} [DecidableEq κ]

def empty (capacity : Nat) : UseList κ α := ⟨max capacity 1, []⟩

def find? (l : UseList κ α) (key : κ) : Option α :=
  (l.pairs.find? fun p => p.1 = key).map Prod.snd

def without (l : UseList κ α) (key : κ) : List (κ × α) := l.pairs.filter fun p => p.1 ≠ key

/-- The pairs when a key is used: its pair, which may be new, is the last. -/
def usedLast (l : UseList κ α) (key : κ) (a : α) : List (κ × α) := l.without key ++ [(key, a)]

def get (l : UseList κ α) (key : κ) : Option α × UseList κ α :=
  match l.find? key with
  | none => (none, l)
  | some a => (some a, { l with pairs := l.usedLast key a })

theorem get_of_some {l : UseList κ α} {key : κ} {a : α} (h : l.find? key = some a) :
    l.get key = (some a, { l with pairs := l.usedLast key a }) := by
  simp [get, h]

theorem get_of_none {l : UseList κ α} {key : κ} (h : l.find? key = none) : l.get key = (none, l) := by
  simp [get, h]

/-- Answers the first pair, which leaves, if there are more than there is room for. -/
def insert (l : UseList κ α) (key : κ) (a : α) : Option (κ × α) × UseList κ α :=
  if (l.usedLast key a).length ≤ l.room then (none, { l with pairs := l.usedLast key a })
  else ((l.usedLast key a).head?, { l with pairs := (l.usedLast key a).tail })

def remove (l : UseList κ α) (key : κ) : Option α × UseList κ α :=
  (l.find? key, { l with pairs := l.without key })

def clear (l : UseList κ α) : UseList κ α := { l with pairs := [] }

end UseList

-- ---------------------------------------------------------------------------
-- Operations and their answers
-- ---------------------------------------------------------------------------

namespace Recency

inductive Operation (κ α : Type) where
  | insert (key : κ) (a : α)
  | get (key : κ)
  | peek (key : κ)
  | contains (key : κ)
  | remove (key : κ)
  | clear
  | len
  | keys

inductive Answer (κ α : Type) where
  | forgotten (pair : Option (κ × α))
  | value (a : Option α)
  | present (b : Bool)
  | length (n : Nat)
  | keys (keys : List κ)
  | cleared

variable {κ α : Type} [DecidableEq κ]

def perform (s : Recency κ α) : Operation κ α → Answer κ α × Recency κ α
  | .insert key a => Prod.map .forgotten id (s.insert key a)
  | .get key => Prod.map .value id (s.get key)
  | .peek key => (.value (s.peek? key), s)
  | .contains key => (.present (s.contains key), s)
  | .remove key => Prod.map .value id (s.remove key)
  | .clear => (.cleared, s.clear)
  | .len => (.length s.size, s)
  | .keys => (.keys s.keys, s)

def answers (s : Recency κ α) : List (Operation κ α) → List (Answer κ α)
  | [] => []
  | op :: rest => (s.perform op).1 :: (s.perform op).2.answers rest

def run (s : Recency κ α) (ops : List (Operation κ α)) : Recency κ α :=
  ops.foldl (fun s op => (s.perform op).2) s

end Recency

namespace UseList

open Recency (Operation Answer)

variable {κ α : Type} [DecidableEq κ]

def perform (l : UseList κ α) : Operation κ α → Answer κ α × UseList κ α
  | .insert key a => Prod.map .forgotten id (l.insert key a)
  | .get key => Prod.map .value id (l.get key)
  | .peek key => (.value (l.find? key), l)
  | .contains key => (.present (l.find? key).isSome, l)
  | .remove key => Prod.map .value id (l.remove key)
  | .clear => (.cleared, l.clear)
  | .len => (.length l.pairs.length, l)
  | .keys => (.keys (l.pairs.map Prod.fst), l)

def answers (l : UseList κ α) : List (Operation κ α) → List (Answer κ α)
  | [] => []
  | op :: rest => (l.perform op).1 :: (l.perform op).2.answers rest

def run (l : UseList κ α) (ops : List (Operation κ α)) : UseList κ α :=
  ops.foldl (fun l op => (l.perform op).2) l

end UseList

-- ---------------------------------------------------------------------------
-- The list of a store
-- ---------------------------------------------------------------------------

namespace Recency

variable {κ α : Type} [DecidableEq κ] {s : Recency κ α} {key : κ} {a : α}

def pair? (s : Recency κ α) (key : κ) : Option (κ × α) := (s.peek? key).map fun a => (key, a)

theorem pair?_of_some (h : s.peek? key = some a) : s.pair? key = some (key, a) := by
  rw [pair?, h]
  rfl

def useList (s : Recency κ α) : UseList κ α := ⟨s.capacity, s.keys.filterMap s.pair?⟩

theorem Coherent.map_fst_useList (h : s.Coherent) : s.useList.pairs.map Prod.fst = s.keys := by
  rw [useList, List.map_filterMap]
  refine (List.filterMap_congr fun k hk => ?_).trans List.filterMap_some
  obtain ⟨a, hpeek⟩ := h.mem_keys.mp hk
  rw [pair?_of_some hpeek]
  rfl

theorem Coherent.nodup_useList (h : s.Coherent) : (s.useList.pairs.map Prod.fst).Nodup := by
  rw [h.map_fst_useList]
  exact h.nodup_keys

theorem Coherent.length_useList (h : s.Coherent) : s.useList.pairs.length = s.size := by
  rw [← h.length_keys, ← h.map_fst_useList, List.length_map]

theorem Coherent.mem_useList (h : s.Coherent) : (key, a) ∈ s.useList.pairs ↔ s.peek? key = some a := by
  rw [useList, List.mem_filterMap]
  constructor
  · rintro ⟨k, -, hpair⟩
    obtain ⟨b, hpeek, heq⟩ := Option.map_eq_some_iff.mp hpair
    cases heq
    exact hpeek
  · intro hpeek
    exact ⟨key, h.mem_keys.mpr ⟨a, hpeek⟩, pair?_of_some hpeek⟩

theorem Coherent.find?_useList (h : s.Coherent) (key : κ) : s.useList.find? key = s.peek? key := by
  refine Option.ext fun a => ?_
  rw [UseList.find?, find?_key_eq_some_iff h.nodup_useList, h.mem_useList]

theorem Coherent.useList_drop (h : s.Coherent) (key : κ) :
    (s.drop key).useList = { s.useList with pairs := s.useList.without key } := by
  rw [useList, capacity_drop, h.keys_drop, UseList.without, useList, List.filterMap_filter,
    List.filter_filterMap]
  congr 1
  refine List.filterMap_congr fun k hk => ?_
  obtain ⟨a, hpeek⟩ := h.mem_keys.mp hk
  rw [pair?_of_some hpeek]
  by_cases hkey : k = key
  · simp [hkey, Option.filter]
  · rw [pair?_of_some ((peek?_drop_of_ne s hkey).trans hpeek)]
    simp [hkey, Option.filter]

/-- To use a key is to move its pair to the end. -/
theorem Coherent.useList_use (h : s.Coherent) (key : κ) (a : α) :
    (s.use key a).useList = { s.useList with pairs := s.useList.usedLast key a } := by
  have hdrop := congrArg UseList.pairs (h.useList_drop key)
  have hothers : (s.drop key).keys.filterMap (s.use key a).pair? = s.useList.without key := by
    refine (List.filterMap_congr fun k hk => ?_).trans hdrop
    rw [h.keys_drop] at hk
    have hne : k ≠ key := of_decide_eq_true (List.mem_filter.mp hk).2
    rw [pair?, pair?, peek?_use_of_ne s a hne, peek?_drop_of_ne s hne]
  have hself : [key].filterMap (s.use key a).pair? = [(key, a)] := by
    simp [pair?, peek?_use_self]
  rw [useList, capacity_use, h.keys_use, ← h.keys_drop, List.filterMap_append, hothers, hself]
  rfl

/-- To forget the first key of the order is to drop the first pair, which is the answer. -/
theorem Coherent.evict_useList (h : s.Coherent) :
    s.evict.1 = s.useList.pairs.head? ∧
      s.evict.2.useList = { s.useList with pairs := s.useList.pairs.tail } := by
  cases hkeys : s.keys with
  | nil =>
    have horder : s.order = [] := List.map_eq_nil_iff.mp hkeys
    simp [Recency.evict, horder, useList, hkeys]
  | cons key rest =>
    obtain ⟨n, order, horder⟩ := order_of_keys hkeys
    obtain ⟨a, hpeek⟩ := h.mem_keys.mp (hkeys ▸ List.mem_cons_self)
    have hpairs : s.useList.pairs = (key, a) :: rest.filterMap s.pair? := by
      rw [useList, hkeys, List.filterMap_cons_some (pair?_of_some hpeek)]
    have hnodup := h.nodup_useList
    rw [hpairs, List.map_cons, List.nodup_cons] at hnodup
    refine ⟨?_, ?_⟩
    · simp only [Recency.evict, horder, hpeek, hpairs, List.head?_cons, Option.map_some]
    · rw [h.evict_snd horder, h.useList_drop, UseList.without, hpairs,
        List.filter_cons_of_neg (by simp), List.tail_cons, List.filter_eq_self.mpr]
      intro p hp
      have hother : p.1 ∈ (rest.filterMap s.pair?).map Prod.fst := List.mem_map_of_mem hp
      exact decide_eq_true fun heq => hnodup.1 (heq ▸ hother)

-- ---------------------------------------------------------------------------
-- One operation
-- ---------------------------------------------------------------------------

theorem Coherent.get_useList (h : s.Coherent) (key : κ) :
    s.useList.get key = ((s.get key).1, (s.get key).2.useList) := by
  have hfind := h.find?_useList key
  cases hpeek : s.peek? key with
  | none =>
    rw [UseList.get_of_none (hfind.trans hpeek), get_of_none hpeek]
    rfl
  | some a => rw [UseList.get_of_some (hfind.trans hpeek), get_of_some hpeek, h.useList_use]

theorem Coherent.insert_useList (h : s.Coherent) (key : κ) (a : α) :
    s.useList.insert key a = ((s.insert key a).1, (s.insert key a).2.useList) := by
  have huse := h.use key a
  have hlist := h.useList_use key a
  have hsize : (s.useList.usedLast key a).length = (s.use key a).size := by
    rw [← huse.length_useList, hlist]
  obtain ⟨hanswer, hrest⟩ := huse.evict_useList
  rw [UseList.insert, hsize, Recency.insert, useList]
  split
  · rw [hlist]
    rfl
  · rw [hanswer, hrest, hlist]
    rfl

theorem Coherent.remove_useList (h : s.Coherent) (key : κ) :
    s.useList.remove key = ((s.remove key).1, (s.remove key).2.useList) := by
  rw [UseList.remove, h.find?_useList, remove, h.useList_drop]

theorem Sound.perform (h : s.Sound) (op : Operation κ α) : (s.perform op).2.Sound := by
  cases op with
  | insert key a => exact h.insert key a
  | get key => exact h.get key
  | remove key => exact h.remove key
  | clear => exact h.clear
  | peek | contains | len | keys => exact h

/-- An operation answers the same and leaves the same list. -/
theorem Coherent.perform_useList (h : s.Coherent) (op : Operation κ α) :
    s.useList.perform op = ((s.perform op).1, (s.perform op).2.useList) := by
  cases op with
  | insert key a =>
    rw [UseList.perform, h.insert_useList]
    rfl
  | get key =>
    rw [UseList.perform, h.get_useList]
    rfl
  | peek key =>
    rw [UseList.perform, h.find?_useList]
    rfl
  | contains key =>
    rw [UseList.perform, h.find?_useList, ← contains_eq]
    rfl
  | remove key =>
    rw [UseList.perform, h.remove_useList]
    rfl
  | clear => rfl
  | len =>
    rw [UseList.perform, h.length_useList]
    rfl
  | keys =>
    rw [UseList.perform, h.map_fst_useList]
    rfl

theorem tick_get (s : Recency κ α) (key : κ) : (s.get key).2.tick = s.tick + 1 := by
  unfold get
  split <;> rfl

theorem tick_insert (s : Recency κ α) (key : κ) (a : α) : (s.insert key a).2.tick = s.tick + 1 := by
  unfold insert
  split
  · rfl
  · exact tick_evict _

theorem tick_perform_le (s : Recency κ α) (op : Operation κ α) :
    (s.perform op).2.tick ≤ s.tick + 1 := by
  cases op with
  | insert key a => exact Nat.le_of_eq (tick_insert s key a)
  | get key => exact Nat.le_of_eq (tick_get s key)
  | remove key => exact Nat.le_succ_of_le (Nat.le_of_eq (tick_drop s key))
  | peek | contains | clear | len | keys => exact Nat.le_succ _

-- ---------------------------------------------------------------------------
-- Any number of operations
-- ---------------------------------------------------------------------------

theorem Sound.answers_useList (h : s.Sound) (ops : List (Operation κ α)) :
    s.answers ops = s.useList.answers ops := by
  induction ops generalizing s with
  | nil => rfl
  | cons op rest ih =>
    rw [answers, UseList.answers, h.perform_useList, ih (h.perform op)]

theorem Sound.run_useList (h : s.Sound) (ops : List (Operation κ α)) :
    (s.run ops).Sound ∧ (s.run ops).useList = s.useList.run ops := by
  induction ops generalizing s with
  | nil => exact ⟨h, rfl⟩
  | cons op rest ih =>
    obtain ⟨hsound, hlist⟩ := ih (h.perform op)
    refine ⟨hsound, hlist.trans ?_⟩
    rw [UseList.run, UseList.run, List.foldl_cons, h.perform_useList]

theorem tick_run_le (s : Recency κ α) (ops : List (Operation κ α)) :
    (s.run ops).tick ≤ s.tick + ops.length := by
  induction ops generalizing s with
  | nil => exact Nat.le_refl _
  | cons op rest ih =>
    have hstep := tick_perform_le s op
    have hrest := ih (s.perform op).2
    rw [run] at hrest ⊢
    rw [List.foldl_cons, List.length_cons]
    omega

theorem capacity_perform (s : Recency κ α) (op : Operation κ α) :
    (s.perform op).2.capacity = s.capacity := by
  cases op with
  | insert key a => exact capacity_insert ..
  | get key => exact capacity_get ..
  | remove key => exact capacity_drop ..
  | peek | contains | clear | len | keys => rfl

theorem capacity_run (s : Recency κ α) (ops : List (Operation κ α)) :
    (s.run ops).capacity = s.capacity := by
  induction ops generalizing s with
  | nil => rfl
  | cons op rest ih => exact (ih (s.perform op).2).trans (capacity_perform s op)

/-- A store gives the answers of a list in the order of use, in which no key stands twice and which
has at most as many pairs as the store has room for. All along its two maps are inverse to each other,
and its ticks count no further than to the number of operations. -/
theorem answers_eq_useList (capacity : Nat) (ops : List (Operation κ α)) :
    (empty capacity).answers ops = (UseList.empty capacity).answers ops ∧
    (((UseList.empty capacity : UseList κ α).run ops).pairs.map Prod.fst).Nodup ∧
    ((UseList.empty capacity : UseList κ α).run ops).pairs.length ≤ max capacity 1 ∧
    ((empty capacity : Recency κ α).run ops).Coherent ∧
    ((empty capacity : Recency κ α).run ops).tick ≤ ops.length := by
  have hempty := sound_empty (κ := κ) (α := α) capacity
  obtain ⟨hsound, hlist⟩ := hempty.run_useList ops
  have hreference : (UseList.empty capacity : UseList κ α) = (empty capacity).useList := rfl
  rw [hreference, ← hlist]
  refine ⟨hempty.answers_useList ops, hsound.nodup_useList, ?_, hsound.toCoherent, ?_⟩
  · rw [hsound.length_useList]
    exact Nat.le_trans hsound.fits (Nat.le_of_eq (capacity_run _ ops))
  · exact Nat.le_trans (tick_run_le _ ops) (Nat.le_of_eq (Nat.zero_add _))

end Recency

end TradingRules
