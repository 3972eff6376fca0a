/-!
# A bounded store that forgets what was used least recently

Two maps say the same from two sides: `entries` has the value of every key and the tick of its last
use, `order` has the keys by those ticks. Getting and inserting are uses; looking is not. When an
insertion makes the store too large, the first key of the order is forgotten.
-/

namespace TradingRules

structure Recency (κ α : Type) where
  capacity : Nat
  tick : Nat
  entries : List (κ × α × Nat)
  /-- The keys by their ticks, ascending. -/
  order : List (Nat × κ)

namespace Recency

variable {κ α : Type}

/-- At least one entry has room. -/
def empty (capacity : Nat) : Recency κ α := ⟨max capacity 1, 0, [], []⟩

def size (s : Recency κ α) : Nat := s.entries.length

def clear (s : Recency κ α) : Recency κ α := { s with entries := [], order := [] }

/-- The keys from the least to the most recently used. -/
def keys (s : Recency κ α) : List κ := s.order.map Prod.snd

-- ---------------------------------------------------------------------------
-- The order of the ticks
-- ---------------------------------------------------------------------------

/-- Files a key under a tick; the key of an existing tick is replaced. -/
def enter (n : Nat) (key : κ) : List (Nat × κ) → List (Nat × κ)
  | [] => [(n, key)]
  | (m, k) :: rest =>
    if n = m then (n, key) :: rest
    else if n < m then (n, key) :: (m, k) :: rest
    else (m, k) :: enter n key rest

def leave (n : Nat) (order : List (Nat × κ)) : List (Nat × κ) := order.filter fun p => p.1 ≠ n

variable [DecidableEq κ]

-- ---------------------------------------------------------------------------
-- The entries of the keys
-- ---------------------------------------------------------------------------

/-- The value of a key and the tick of its last use. -/
def find? (s : Recency κ α) (key : κ) : Option (α × Nat) :=
  (s.entries.find? fun e => e.1 = key).map Prod.snd

/-- The value of a key, without using it. -/
def peek? (s : Recency κ α) (key : κ) : Option α := (s.find? key).map Prod.fst

def contains (s : Recency κ α) (key : κ) : Bool := (s.find? key).isSome

def without (key : κ) (entries : List (κ × α × Nat)) : List (κ × α × Nat) :=
  entries.filter fun e => e.1 ≠ key

-- ---------------------------------------------------------------------------
-- Both at once
-- ---------------------------------------------------------------------------

/-- Takes a key out of both maps; its entry tells which tick leaves the order. -/
def drop (s : Recency κ α) (key : κ) : Recency κ α :=
  match s.find? key with
  | none => s
  | some (_, used) => { s with entries := without key s.entries, order := leave used s.order }

/-- Puts a key into both maps under a new tick, in place of what they had for it. -/
def use (s : Recency κ α) (key : κ) (a : α) : Recency κ α :=
  let tick := s.tick + 1
  let s := s.drop key
  { s with tick, entries := (key, a, tick) :: s.entries, order := enter tick key s.order }

/-- Forgets the first key of the order. -/
def evict (s : Recency κ α) : Option (κ × α) × Recency κ α :=
  match s.order with
  | [] => (none, s)
  | (_, oldest) :: order =>
    ((s.peek? oldest).map fun a => (oldest, a),
      { s with entries := without oldest s.entries, order })

/-- The value of a key, which is used by it. A key that is not there takes a tick nonetheless. -/
def get (s : Recency κ α) (key : κ) : Option α × Recency κ α :=
  match s.peek? key with
  | none => (none, { s with tick := s.tick + 1 })
  | some a => (some a, s.use key a)

/-- Puts in or replaces an entry, which is used by it, and answers the entry forgotten, if any. -/
def insert (s : Recency κ α) (key : κ) (a : α) : Option (κ × α) × Recency κ α :=
  if (s.use key a).size ≤ s.capacity then (none, s.use key a) else (s.use key a).evict

def remove (s : Recency κ α) (key : κ) : Option α × Recency κ α := (s.peek? key, s.drop key)

end Recency

end TradingRules
