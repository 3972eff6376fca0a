import TradingRules.Json.Reader
import TradingRules.Json.Record
import TradingRules.Proofs.Outcome

/-!
# The numbers that a text can denote

A number of a text is read as an integer in the range that is kept apart, as a finite double, or not at
all (`inRange_ofText?`). The parts of a document that is in range are in range (`InRange.part`).
-/

namespace TradingRules.Json

open Decimal (twoTo)

variable {text rest : List Char} {fuel : Nat} {j k : Json} {items : List Json}
  {members : List (String × Json)}

mutual

def InRange : Json → Prop
  | .int i => -(twoTo 63 : Int) ≤ i ∧ i < twoTo 64
  | .float x => x.isFinite = true
  | .arr items => InRangeItems items
  | .obj members => InRangeMembers members
  | .null | .bool _ | .str _ | .unreadable => True

def InRangeItems : List Json → Prop
  | [] => True
  | j :: rest => InRange j ∧ InRangeItems rest

def InRangeMembers : List (String × Json) → Prop
  | [] => True
  | (_, j) :: rest => InRange j ∧ InRangeMembers rest

end

theorem inRangeItems_iff : InRangeItems items ↔ ∀ j ∈ items, InRange j := by
  induction items with
  | nil => simp [InRangeItems]
  | cons j rest ih => simp [InRangeItems, ih]

theorem inRangeMembers_iff : InRangeMembers members ↔ ∀ m ∈ members, InRange m.2 := by
  induction members with
  | nil => simp [InRangeMembers]
  | cons m rest ih => simp [InRangeMembers, ih]

-- ---------------------------------------------------------------------------
-- Reading
-- ---------------------------------------------------------------------------

theorem inRange_ofDouble (x : Double) : InRange (ofDouble x) := by
  unfold ofDouble
  split
  · assumption
  · trivial

theorem inRange_ofWhole (negative : Bool) (n : Nat) : InRange (ofWhole negative n) := by
  have hpower : twoTo 63 ≤ twoTo 64 := by decide
  unfold ofWhole
  split
  · split
    · rename_i hn
      exact ⟨by omega, by omega⟩
    · exact inRange_ofDouble _
  · split
    · rename_i hn
      exact ⟨by omega, by omega⟩
    · exact inRange_ofDouble _

theorem inRange_unsigned? {negative : Bool} (h : unsigned? negative text = some (j, rest)) : InRange j := by
  simp only [unsigned?, Option.bind_eq_bind, Option.bind_eq_some_iff] at h
  obtain ⟨⟨whole, afterWhole⟩, -, ⟨fraction, afterFraction⟩, -, ⟨power, after⟩, -, h⟩ := h
  split at h <;> cases h
  · exact inRange_ofWhole _ _
  · exact inRange_ofDouble _

theorem inRange_number? (h : number? text = some (j, rest)) : InRange j := by
  unfold number? at h
  split at h <;> exact inRange_unsigned? h

theorem inRange_ofMembers {members : List (Option String × Json)} (h : ∀ m ∈ members, InRange m.2) :
    InRange (ofMembers members) := by
  unfold ofMembers
  split
  · rename_i named hnamed
    refine inRangeMembers_iff.mpr fun m hm => ?_
    obtain ⟨given, hgiven, hm⟩ := List.exists_of_mem_mapM hnamed hm
    obtain ⟨name, -, rfl⟩ := Option.map_eq_some_iff.mp hm
    exact h given hgiven
  · trivial

structure ReadsInRange (fuel : Nat) : Prop where
  value : ∀ {text rest : List Char} {j : Json}, value? fuel text = some (j, rest) → InRange j
  items : ∀ {text rest : List Char} {items : List Json},
    items? fuel text = some (items, rest) → ∀ j ∈ items, InRange j
  members : ∀ {text rest : List Char} {members : List (Option String × Json)},
    members? fuel text = some (members, rest) → ∀ m ∈ members, InRange m.2

theorem ReadsInRange.zero : ReadsInRange 0 where
  value h := nomatch h
  items h := nomatch h
  members h := nomatch h

theorem inRange_literal? {word : List Char} (h : literal? word k text = some (j, rest)) (hk : InRange k) :
    InRange j := by
  unfold literal? at h
  split at h <;> cases h
  exact hk

theorem ReadsInRange.value_succ (ih : ReadsInRange fuel) (h : value? (fuel + 1) text = some (j, rest)) :
    InRange j := by
  unfold value? at h
  split at h
  · split at h
    · cases h
      trivial
    · obtain ⟨⟨members, after⟩, hmembers, heq⟩ := Option.map_eq_some_iff.mp h
      cases heq
      exact inRange_ofMembers (ih.members hmembers)
  · split at h
    · cases h
      trivial
    · obtain ⟨⟨items, after⟩, hitems, heq⟩ := Option.map_eq_some_iff.mp h
      cases heq
      exact inRangeItems_iff.mpr (ih.items hitems)
  · obtain ⟨⟨s, after⟩, -, heq⟩ := Option.map_eq_some_iff.mp h
    cases heq
    cases s <;> trivial
  · exact inRange_literal? h trivial
  · exact inRange_literal? h trivial
  · exact inRange_literal? h trivial
  · exact inRange_number? h

theorem ReadsInRange.items_succ (ih : ReadsInRange fuel)
    (h : items? (fuel + 1) text = some (items, rest)) : ∀ j ∈ items, InRange j := by
  simp only [items?, Option.bind_eq_bind, Option.bind_eq_some_iff] at h
  obtain ⟨⟨first, after⟩, hfirst, h⟩ := h
  split at h
  · obtain ⟨⟨more, after⟩, hmore, heq⟩ := Option.bind_eq_some_iff.mp h
    cases heq
    exact List.forall_mem_cons.mpr ⟨ih.value hfirst, ih.items hmore⟩
  · cases h
    exact List.forall_mem_singleton.mpr (ih.value hfirst)
  · cases h

theorem ReadsInRange.members_succ (ih : ReadsInRange fuel) {members : List (Option String × Json)}
    (h : members? (fuel + 1) text = some (members, rest)) : ∀ m ∈ members, InRange m.2 := by
  unfold members? at h
  split at h
  · simp only [Option.bind_eq_bind, Option.bind_eq_some_iff] at h
    obtain ⟨⟨name, afterName⟩, -, h⟩ := h
    split at h
    · obtain ⟨⟨j, after⟩, hj, h⟩ := Option.bind_eq_some_iff.mp h
      split at h
      · obtain ⟨⟨more, after⟩, hmore, heq⟩ := Option.bind_eq_some_iff.mp h
        cases heq
        exact List.forall_mem_cons.mpr ⟨ih.value hj, ih.members hmore⟩
      · cases h
        exact List.forall_mem_singleton.mpr (ih.value hj)
      · cases h
    · cases h
  · cases h

theorem readsInRange (fuel : Nat) : ReadsInRange fuel := by
  induction fuel with
  | zero => exact .zero
  | succ fuel ih => exact ⟨ih.value_succ, ih.items_succ, ih.members_succ⟩

theorem inRange_ofText? {source : String} (h : ofText? source = some j) : InRange j := by
  unfold ofText? at h
  dsimp only at h
  split at h
  · rename_i read rest hread
    split at h <;> cases h
    exact (readsInRange _).value hread
  · cases h

-- ---------------------------------------------------------------------------
-- Parts of a document
-- ---------------------------------------------------------------------------

inductive Part : Json → Json → Prop
  | item {items : List Json} {k : Json} (h : k ∈ items) : Part (.arr items) k
  | member {members : List (String × Json)} {m : String × Json} (h : m ∈ members) :
    Part (.obj members) m.2

theorem InRange.part (h : InRange j) (hpart : Part j k) : InRange k := by
  cases hpart with
  | item hmem => exact inRangeItems_iff.mp h k hmem
  | member hmem => exact inRangeMembers_iff.mp h _ hmem

theorem mem_of_lookup {f : Fields} {name : String} (h : f.lookup name = some k) : (name, k) ∈ f := by
  obtain ⟨before, after, rfl, -⟩ := List.lookup_eq_some_iff.mp h
  simp

theorem part_of_field {names : List String} {f : Fields} {name : String} (h : fields? names j = some f)
    (hk : f.lookup name = some k) : Part j k := by
  have hmem := mem_of_lookup hk
  unfold fields? at h
  dsimp only at h
  split at h
  · split at h <;> cases h
    exact .member (List.mem_filter.mp hmem).1
  · split at h <;> cases h
    exact .item (List.of_mem_zip hmem).2
  · cases h

end TradingRules.Json
