/-!
# How far two names are apart

The least number of insertions, deletions and substitutions of characters that turn one text into the
other, computed row by row: the row of a text holds its distances to every start of the other. Two rows
are kept, and each new one is written over the row before the last.
-/

namespace TradingRules.Validation

/-- The row of the text read so far, and the row that is written over next. -/
structure Rows where
  last : List Nat
  spare : List Nat

/-- The entry right of column `j` in the row of `text ++ [c]`, from the three entries around it. -/
def entry (c d : Char) (last spare : List Nat) (j : Nat) : Nat :=
  min (min (last.getD (j + 1) 0 + 1) (spare.getD j 0 + 1)) (last.getD j 0 + if c = d then 0 else 1)

/-- Writes the entries right of column `j`. -/
def fill (c : Char) (last : List Nat) : Nat → List Char → List Nat → List Nat
  | _, [], spare => spare
  | j, d :: other, spare =>
    fill c last (j + 1) other (spare.set (j + 1) (entry c d last spare j))

/-- One more character is read, and the rows change their parts. -/
def Rows.next (other : List Char) (r : Rows) (read : Nat) (c : Char) : Rows :=
  ⟨fill c r.last 0 other (r.spare.set 0 (read + 1)), r.last⟩

def Rows.read (other : List Char) : List Char → Nat → Rows → Rows
  | [], _, r => r
  | c :: text, read, r => Rows.read other text (read + 1) (r.next other read c)

def editDistance (a b : String) : Nat :=
  let other := b.toList
  let start : Rows := ⟨List.range (other.length + 1), List.replicate (other.length + 1) 0⟩
  (Rows.read other a.toList 0 start).last.getD other.length 0

end TradingRules.Validation
