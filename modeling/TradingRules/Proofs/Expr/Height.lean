import TradingRules.Expr.Parser

/-!
# The height of a tree

A chain is a run of binary operators of one level, or of postfix steps: its first operand lies deepest
in the tree and every step is a node above it. The operand a step brings itself (the right side, the
key, the arguments) is a `later` child of its node. It stands between the first and the last operand
if the chain goes on above the node.

`span` is the height of a tree with the operands between left out, which is all of it that a count
from the peak of the first operand sees. A tree is as low as its span if every operand between is low
enough for the place it stands at (`height_le_of_span`).
-/

namespace TradingRules

def BinaryOp.level : BinaryOp → Expr.Level
  | .or => .or
  | .and => .and
  | .eq | .ne => .equality
  | .lt | .le | .gt | .ge | .member => .relation
  | .add | .sub => .sum
  | .mul | .div | .rem => .product

namespace Expr

-- ---------------------------------------------------------------------------
-- Height
-- ---------------------------------------------------------------------------

mutual

/-- A leaf has height 1; any other tree is one higher than its tallest child. -/
def height : Expr → Nat
  | .literal _ => 1
  | .ident _ => 1
  | .member target _ => 1 + target.height
  | .index target key => 1 + max target.height key.height
  | .call _ args => 1 + heightAll args
  | .unary _ operand => 1 + operand.height
  | .binary _ left right => 1 + max left.height right.height
  | .ternary condition yes no => 1 + max condition.height (max yes.height no.height)
  | .list items => 1 + heightAll items
  | .comprehension _ range _ body => 1 + max range.height body.height
  | .has target => 1 + target.height

def heightAll : List Expr → Nat
  | [] => 0
  | e :: rest => max e.height (heightAll rest)

end

theorem heightAll_le {items : List Expr} {bound : Nat} (h : ∀ e ∈ items, e.height ≤ bound) : heightAll items ≤ bound := by
  induction items with
  | nil => exact Nat.zero_le bound
  | cons e rest ih =>
    have hrest := ih fun x hx => h x (List.mem_cons_of_mem e hx)
    exact Nat.max_le.mpr ⟨h e List.mem_cons_self, hrest⟩

-- ---------------------------------------------------------------------------
-- Chains
-- ---------------------------------------------------------------------------

inductive Chain where
  | operators (level : Level)
  | steps
  deriving DecidableEq, Repr

def chain? : Expr → Option Chain
  | .binary op _ _ => some (.operators op.level)
  | .member _ _ | .index _ _ | .call _ _ | .comprehension _ _ _ _ => some .steps
  | _ => none

def first? : Expr → Option Expr
  | .member target _ => some target
  | .index target _ => some target
  | .call _ (e :: _) => some e
  | .binary _ left _ => some left
  | .comprehension _ range _ _ => some range
  | _ => none

def later : Expr → List Expr
  | .index _ key => [key]
  | .call _ (_ :: args) => args
  | .unary _ operand => [operand]
  | .binary _ _ right => [right]
  | .ternary condition yes no => [condition, yes, no]
  | .list items => items
  | .comprehension _ _ _ body => [body]
  | .has target => [target]
  | _ => []

/-- `x` stands `n` levels below the top of `e`, between the first and the last operand of a chain;
`under` is the chain that goes on above `e`. -/
inductive Between : Option Chain → Expr → Nat → Expr → Prop
  | here (hchain : e.chain? = some ch) (hx : x ∈ e.later) : Between (some ch) e 1 x
  | first (hf : e.first? = some f) (hx : Between e.chain? f n x) : Between under e (n + 1) x
  | later (hf : f ∈ e.later) (hx : Between none f n x) : Between under e (n + 1) x

def children (e : Expr) : List Expr := e.first?.toList ++ e.later

variable {e x : Expr} {under : Option Chain} {items : List Expr} {n bound : Nat}

theorem height_eq (e : Expr) : e.height = 1 + heightAll e.children := by
  cases e with
  | call name args => cases args <;> simp [height, heightAll, children, first?, later]
  | _ => simp [height, heightAll, children, first?, later]

theorem le_heightAll (h : x ∈ items) : x.height ≤ heightAll items := by
  induction h with
  | head rest => exact Nat.le_max_left _ _
  | tail e _ ih => exact Nat.le_trans ih (Nat.le_max_right _ _)

theorem height_lt_of_child (h : x ∈ e.children) : 1 + x.height ≤ e.height := by
  rw [height_eq e]
  exact Nat.add_le_add_left (le_heightAll h) 1

/-- What holds of a tree if it holds of its children holds of every tree. -/
theorem induction_on_children {p : Expr → Prop} (step : ∀ e, (∀ x ∈ e.children, p x) → p e)
    (e : Expr) : p e := by
  induction hn : e.height using Nat.strongRecOn generalizing e with
  | ind n ih =>
    refine step e fun x hx => ih x.height ?_ x rfl
    have := height_lt_of_child hx
    omega

theorem child_of_first (h : e.first? = some x) : x ∈ e.children := by
  simp [children, h]

theorem child_of_later (h : x ∈ e.later) : x ∈ e.children :=
  List.mem_append_right _ h

theorem Between.height_le (h : Between under e n x) : n + x.height ≤ e.height := by
  induction h with
  | here hchain hx => exact height_lt_of_child (child_of_later hx)
  | first hf _ ih =>
    have := height_lt_of_child (child_of_first hf)
    omega
  | later hf _ ih =>
    have := height_lt_of_child (child_of_later hf)
    omega

-- ---------------------------------------------------------------------------
-- Span
-- ---------------------------------------------------------------------------

/-- What the later children of a step count for: nothing if the chain goes on. -/
def Chain.counted (ch : Chain) (under : Option Chain) (n : Nat) : Nat :=
  if under = some ch then 0 else n

mutual

/-- The height with the operands between left out; `under` is the chain that goes on above. -/
def span : Option Chain → Expr → Nat
  | _, .literal _ => 1
  | _, .ident _ => 1
  | _, .member target _ => 1 + span (some .steps) target
  | under, .index target key =>
    1 + max (span (some .steps) target) (Chain.steps.counted under (span none key))
  | _, .call _ [] => 1
  | under, .call _ (e :: args) =>
    1 + max (span (some .steps) e) (Chain.steps.counted under (spanAll args))
  | _, .unary _ operand => 1 + span none operand
  | under, .binary op left right =>
    1 + max (span (some (.operators op.level)) left)
      ((Chain.operators op.level).counted under (span none right))
  | _, .ternary condition yes no =>
    1 + max (span none condition) (max (span none yes) (span none no))
  | _, .list items => 1 + spanAll items
  | under, .comprehension _ range _ body =>
    1 + max (span (some .steps) range) (Chain.steps.counted under (span none body))
  | _, .has target => 1 + span none target

def spanAll : List Expr → Nat
  | [] => 0
  | e :: rest => max (span none e) (spanAll rest)

end

theorem Chain.counted_le (ch : Chain) (under : Option Chain) (n : Nat) : ch.counted under n ≤ n := by
  unfold Chain.counted
  split
  · exact Nat.zero_le n
  · exact Nat.le_refl n

theorem Chain.counted_of_ne {ch : Chain} (h : under ≠ some ch) : ch.counted under n = n :=
  if_neg h

@[simp] theorem Chain.counted_none (ch : Chain) (n : Nat) : ch.counted none n = n := rfl

@[simp] theorem Chain.counted_self (ch : Chain) (n : Nat) : ch.counted (some ch) n = 0 := if_pos rfl

theorem span_le_spanAll (h : x ∈ items) : span none x ≤ spanAll items := by
  induction h with
  | head rest => exact Nat.le_max_left _ _
  | tail e _ ih => exact Nat.le_trans ih (Nat.le_max_right _ _)

theorem one_le_span (under : Option Chain) (e : Expr) : 1 ≤ span under e := by
  cases e with
  | call name args =>
    cases args <;> simp only [span] <;> omega
  | _ =>
    simp only [span]
    omega

theorem span_first_lt (under : Option Chain) (h : e.first? = some x) :
    1 + span e.chain? x ≤ span under e := by
  cases e with
  | call name args =>
    cases args with
    | nil => cases h
    | cons f args =>
      cases h
      simp only [span, chain?]
      omega
  | member | index | binary | comprehension =>
    cases h
    simp only [span, chain?]
    omega
  | _ => cases h

/-- A later child counts, unless the chain of its node goes on. -/
theorem span_later_lt (hx : x ∈ e.later) (hend : under = none ∨ under ≠ e.chain?) :
    1 + span none x ≤ span under e := by
  have hcounted {ch : Chain} (hch : e.chain? = some ch) (n : Nat) : ch.counted under n = n := by
    refine Chain.counted_of_ne ?_
    rintro rfl
    rcases hend with hnone | hne
    · cases hnone
    · exact hne hch.symm
  cases e with
  | call name args =>
    cases args with
    | nil => cases hx
    | cons f args =>
      have : span none x ≤ spanAll args := span_le_spanAll hx
      rw [span, hcounted rfl]
      omega
  | index | binary | comprehension =>
    cases List.mem_singleton.mp hx
    rw [span, hcounted rfl]
    omega
  | list items => exact Nat.add_le_add_left (span_le_spanAll hx) 1
  | unary | has =>
    cases List.mem_singleton.mp hx
    exact Nat.le_refl _
  | ternary condition yes no =>
    simp only [later, List.mem_cons, List.not_mem_nil, or_false] at hx
    rcases hx with rfl | rfl | rfl <;> simp only [span] <;> omega
  | literal | ident | member => cases hx

/-- A chain that goes on above a tree only leaves more operands out. -/
theorem span_le_span_none (under : Option Chain) (e : Expr) : span under e ≤ span none e := by
  have hcounted (ch : Chain) (n : Nat) : ch.counted under n ≤ ch.counted none n :=
    ch.counted_le under n
  cases e with
  | call name args =>
    cases args with
    | nil => exact Nat.le_refl 1
    | cons e args =>
      have := hcounted .steps (spanAll args)
      simp only [span]
      omega
  | index target key =>
    have := hcounted .steps (span none key)
    simp only [span]
    omega
  | binary op left right =>
    have := hcounted (.operators op.level) (span none right)
    simp only [span]
    omega
  | comprehension kind range var body =>
    have := hcounted .steps (span none body)
    simp only [span]
    omega
  | _ => simp only [span, Nat.le_refl]

/-- A tree is as low as its span if its operands between are low enough. -/
theorem height_le_of_span (e : Expr) :
    ∀ {under : Option Chain} {bound : Nat}, span under e ≤ bound →
      (∀ n x, Between under e n x → n + x.height ≤ bound) → e.height ≤ bound := by
  induction e using induction_on_children with
  | step e ih =>
    intro under bound hspan hbetween
    have hpos : 1 ≤ span under e := one_le_span under e
    have hchild : ∀ x ∈ e.children, 1 + x.height ≤ bound := by
      intro x hx
      suffices hle : x.height ≤ bound - 1 by omega
      rcases List.mem_append.mp hx with hfirst | hlater
      · have hf : e.first? = some x := Option.mem_toList.mp hfirst
        have := span_first_lt under hf
        refine ih x hx (show span e.chain? x ≤ bound - 1 by omega) fun n y hy => ?_
        have := hbetween _ y (.first hf hy)
        omega
      by_cases hon : under = none ∨ under ≠ e.chain?
      · have := span_later_lt hlater hon
        refine ih x hx (show span none x ≤ bound - 1 by omega) fun n y hy => ?_
        have := hbetween _ y (.later hlater hy)
        omega
      -- The chain goes on: the span leaves `x` out, which stands one level below the top.
      · obtain ⟨hsome, hsame⟩ := not_or.mp hon
        obtain ⟨ch, rfl⟩ := Option.ne_none_iff_exists'.mp hsome
        have := hbetween 1 x (.here (Decidable.not_not.mp hsame).symm hlater)
        omega
    have hall : heightAll e.children ≤ bound - 1 := by
      refine heightAll_le fun x hx => ?_
      have := hchild x hx
      omega
    rw [height_eq]
    omega

end Expr

end TradingRules
