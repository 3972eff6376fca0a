import TradingRules.Cache.Recency
import TradingRules.Double.Basic

/-! # A store that counts how often it was of use -/

namespace TradingRules

structure CacheStats where
  hits : Nat
  misses : Nat
  size : Nat
  capacity : Nat
  deriving DecidableEq, Repr

/-- The share of hits; zero before the first request. -/
def CacheStats.hitRate (s : CacheStats) : Double :=
  if s.hits + s.misses = 0 then 0 else Double.ofNat s.hits / Double.ofNat (s.hits + s.misses)

structure Counted (κ α : Type) where
  store : Recency κ α
  hits : Nat
  misses : Nat

namespace Counted

variable {κ α : Type} [DecidableEq κ]

def empty (capacity : Nat) : Counted κ α := ⟨.empty capacity, 0, 0⟩

def stats (c : Counted κ α) : CacheStats := ⟨c.hits, c.misses, c.store.size, c.store.capacity⟩

/-- The entries and the counts are dropped. -/
def clear (c : Counted κ α) : Counted κ α := ⟨c.store.clear, 0, 0⟩

/-- The value of a key if it passes a test, which counts as a hit; the key is used in either case. -/
def request (c : Counted κ α) (key : κ) (good : α → Bool) : Option α × Counted κ α :=
  let (found, store) := c.store.get key
  match found.filter good with
  | some a => (some a, ⟨store, c.hits + 1, c.misses⟩)
  | none => (none, ⟨store, c.hits, c.misses + 1⟩)

def insert (c : Counted κ α) (key : κ) (a : α) : Counted κ α :=
  { c with store := (c.store.insert key a).2 }

end Counted

end TradingRules
