import TradingRules.Proofs.Eval.Arithmetic
import TradingRules.Proofs.Eval.Paths
import TradingRules.Proofs.Eval.Comprehensions
import TradingRules.Proofs.Text.Search

/-!
# Membership

Whether a list has an element, or a string a part, can be asked with `contains`, `in`, `indexOf`, `count` and
`exists`. All of them tell whether one search ends at a place (`Searches`), and `indexOf` tells the place: it
is the first at which the element, or the part from there on, is equal to what is searched for
(`membership_agrees`).
-/

namespace TradingRules

open Text (OccursAt FirstAt)

-- ---------------------------------------------------------------------------
-- Runs that leave the host alone
-- ---------------------------------------------------------------------------

theorem Run.eq_pure {σ α : Type} {m : Run σ α} {a : α} (h : ∀ host, m.Yields host a host) : m = pure a :=
  funext h

namespace Eval

open TradingRules.Expr (ofPath)

/-- Where the body is a boolean on every element, `exists` asks for one that is true. -/
theorem comprehend_exists_eq {σ : Type} {body : Value → Run σ Value} {holds : Value → Bool}
    (h : ∀ item, body item = pure (.bool (holds item))) (matched : Bool) (items : List Value) :
    comprehend .exists body matched items = pure (.bool (items.any holds)) := by
  induction items with
  | nil => rfl
  | cons item rest ih =>
    simp only [comprehend, h, pure_bind, wantPredicate]
    cases hitem : holds item
    · simp [hitem, ih]
    · simp [hitem]

variable {σ : Type} [RegimeHost σ] {registry : Registry} {context : Context} {scope : Scope}
  {root x : String} {fields : List String} {v w : Value} {l r : Expr} {es : List Expr} {vs : List Value}

/-- A path that no comprehension binds and that has a value in the context. -/
structure InContext (context : Context) (scope : Scope) (root : String) (fields : List String) (v : Value) :
    Prop where
  free : scope.binds root = false
  found : context.lookup? (dotted root fields) = some v

theorem InContext.eval_eq (h : InContext context scope root fields v) :
    (eval registry context scope (ofPath root fields) : Run σ Value) = pure v :=
  Run.eq_pure fun _ => (yields_ofPath h.free).mpr
    ⟨rfl, fields, [], v, (List.append_nil fields).symm, .whole h.found, Value.descend_nil v⟩

theorem InContext.bind (h : InContext context scope root fields v) (hx : x ≠ root) (item : Value) :
    InContext context ((x, item) :: scope) root fields v where
  free := by
    have hfree := h.free
    simp only [Scope.binds, List.lookup_cons, beq_false_of_ne hx.symm] at hfree ⊢
    exact hfree
  found := h.found

theorem eval_literal_eq (v : Value) : (eval registry context scope (.literal v) : Run σ Value) = pure v := by
  rw [eval]

theorem eval_binary_eq {op : BinaryOp} (hand : op ≠ .and) (hor : op ≠ .or)
    (hl : (eval registry context scope l : Run σ Value) = pure v)
    (hr : (eval registry context scope r : Run σ Value) = pure w) :
    (eval registry context scope (.binary op l r) : Run σ Value) = Run.ofExcept (op.apply v w) := by
  cases op with
  | and => exact absurd rfl hand
  | or => exact absurd rfl hor
  | _ => simp only [eval, hl, hr, pure_bind]

theorem eval_binary_of_ok {op : BinaryOp} {u : Value} (hand : op ≠ .and) (hor : op ≠ .or)
    (hl : (eval registry context scope l : Run σ Value) = pure v)
    (hr : (eval registry context scope r : Run σ Value) = pure w) (happly : op.apply v w = .ok u) :
    (eval registry context scope (.binary op l r) : Run σ Value) = pure u := by
  rw [eval_binary_eq hand hor hl hr, happly]
  rfl

theorem eval_index_eq (hl : (eval registry context scope l : Run σ Value) = pure v)
    (hr : (eval registry context scope r : Run σ Value) = pure w) :
    (eval registry context scope (.index l r) : Run σ Value) = Run.ofExcept (v.index w) := by
  simp only [eval, hl, hr, pure_bind]

theorem eval_call_eq (function : String)
    (h : List.Forall₂ (fun e v => (eval registry context scope e : Run σ Value) = pure v) es vs) :
    (eval registry context scope (.call function es) : Run σ Value) = registry.call context function vs := by
  have hargs : (evalAll registry context scope es : Run σ (List Value)) = pure vs := by
    induction h with
    | nil => rw [evalAll]
    | cons he _ ih => simp only [evalAll, he, ih, pure_bind]
  simp only [eval, hargs, pure_bind]

end Eval

-- ---------------------------------------------------------------------------
-- Positions
-- ---------------------------------------------------------------------------

namespace Builtin.Collection

variable {hay needle : Value} {place : Option Nat}

/-- A list is searched for an element, a string for a part; the search ends at a place or at none. -/
inductive Searches : Value → Value → Option Nat → Prop where
  | list (items : List Value) (v : Value) : Searches (.list items) v (items.findIdx? (·.looseEq v))
  | str (text part : String) : Searches (.str text) (.str part) (Text.indexOf? part.toList text.toList)

def position : Option Nat → Value
  | some k => .int (Int64.ofNat k)
  | none => .int (-1)

theorem Searches.indexOf_eq (h : Searches hay needle place) : indexOf hay needle = .ok (position place) := by
  cases h with
  | list items _ => rw [indexOf]; cases items.findIdx? (·.looseEq needle) <;> rfl
  | str text part => rw [indexOf]; cases Text.indexOf? part.toList text.toList <;> rfl

theorem Searches.contains_eq (h : Searches hay needle place) :
    contains hay needle = .ok (.bool place.isSome) := by
  cases h with
  | list => rw [List.findIdx?_isSome]; rfl
  | str => rfl

theorem Searches.member_eq (h : Searches hay needle place) :
    BinaryOp.member.apply needle hay = .ok (.bool place.isSome) := by
  cases h with
  | list => rw [List.findIdx?_isSome]; rfl
  | str => rfl

theorem ge_zero_position (h : ∀ k ∈ place, k < 2 ^ 63) :
    BinaryOp.ge.apply (position place) (.int 0) = .ok (.bool place.isSome) := by
  have hzero : (0 : Int64).toInt = 0 := rfl
  cases place with
  | none => rfl
  | some k =>
    simp only [position, BinaryOp.ge_apply_int, Int64.le_iff_toInt_le, Int64.toInt_ofNat_of_lt (h k rfl), hzero,
      Int.natCast_nonneg, decide_true, Option.isSome_some]

theorem gt_zero_count {items : List Value} (h : items.length < 2 ^ 63) (v : Value) :
    BinaryOp.gt.apply (.int (Int64.ofNat (count items v))) (.int 0) =
      .ok (.bool (items.findIdx? (·.looseEq v)).isSome) := by
  have hcount : count items v ≤ items.length := List.countP_le_length
  have hfound : decide (0 < count items v) = (items.findIdx? (·.looseEq v)).isSome := by
    rw [Bool.eq_iff_iff, decide_eq_true_iff, List.findIdx?_isSome, List.any_eq_true]
    exact List.countP_pos_iff
  rw [gt_zero_apply (hcount.trans_lt h), hfound]

end Builtin.Collection

theorem Value.resolveIndex?_ofNat {length i : Nat} (hi : i < length) (h : length < 2 ^ 63) :
    resolveIndex? length (Int64.ofNat i) = some i := by
  have hi' : (Int64.ofNat i).toInt = i := Int64.toInt_ofNat_of_lt (by omega)
  have hnot : ¬Int64.ofNat i < 0 := by
    rw [Int64.lt_iff_toInt_lt, hi']
    exact Int.not_lt.mpr (Int.natCast_nonneg i)
  simp only [resolveIndex?, if_neg hnot, hi']
  rw [if_pos (by omega), Int.toNat_natCast]

theorem Value.index_ofNat {items : List Value} {i : Nat} (hi : i < items.length) (h : items.length < 2 ^ 63) :
    Value.index (.list items) (.int (Int64.ofNat i)) = .ok items[i] := by
  simp only [index, resolveIndex?_ofNat hi h, Strict.item, List.getElem?_eq_getElem hi]

namespace Builtin.Text

open TradingRules.Text (OccursAt occursAt_iff_part)

theorem substring_of_le {text : List Char} {start stop : Nat} (hstart : start ≤ stop)
    (hstop : stop ≤ text.length) :
    substring text start stop = .ok (.str (String.ofList ((text.take stop).drop start))) := by
  have hwithin : ¬((start : Int) < 0 ∨ (text.length : Int) < stop ∨ (stop : Int) < start) := by omega
  rw [substring, if_neg hwithin]
  simp only [Int.toNat_natCast, Strict.part, if_pos (And.intro hstart hstop)]
  rfl

theorem substring_of_outside {text : List Char} {start stop : Int} (h : start < 0 ∨ text.length < stop) :
    ∃ failure, substring text start stop = .error failure :=
  ⟨_, if_pos (by omega)⟩

/-- The part of a text that is as long as another one is the other one exactly where that occurs. -/
theorem substring_looseEq {text part : String} {k : Nat} (h : k + part.length ≤ text.length) :
    (Value.str (String.ofList ((text.toList.take (k + part.length)).drop k))).looseEq (.str part) = true ↔
      OccursAt part.toList text.toList k := by
  rw [Value.looseEq, beq_iff_eq, ← String.toList_inj, String.toList_ofList]
  exact (occursAt_iff_part h).symm

end Builtin.Text

section
variable {σ : Type} [RegimeHost σ] {registry : Registry} {context : Context}

theorem call_contains (h : Dict.find? "contains" registry = Dict.find? "contains" Registry.builtins)
    (hay needle : Value) : (registry.call context "contains" [hay, needle] : Run σ Value) =
      Run.ofExcept (Builtin.Collection.contains hay needle) := by
  rw [Registry.call, h, Registry.builtins, Dict.find?_ofList]
  rfl

theorem call_indexOf (h : Dict.find? "indexOf" registry = Dict.find? "indexOf" Registry.builtins)
    (hay needle : Value) : (registry.call context "indexOf" [hay, needle] : Run σ Value) =
      Run.ofExcept (Builtin.Collection.indexOf hay needle) := by
  rw [Registry.call, h, Registry.builtins, Dict.find?_ofList]
  rfl

theorem call_count (h : Dict.find? "count" registry = Dict.find? "count" Registry.builtins)
    (items : List Value) (v : Value) : (registry.call context "count" [.list items, v] : Run σ Value) =
      pure (.int (Int64.ofNat (Builtin.Collection.count items v))) := by
  rw [Registry.call, h, Registry.builtins, Dict.find?_ofList]
  rfl

theorem call_size_str (h : Dict.find? "size" registry = Dict.find? "size" Registry.builtins) (s : String) :
    (registry.call context "size" [.str s] : Run σ Value) = pure (.int (Int64.ofNat s.length)) := by
  rw [Registry.call, h, Registry.builtins, Dict.find?_ofList]
  rfl

theorem call_substring (h : Dict.find? "substring" registry = Dict.find? "substring" Registry.builtins)
    (s : String) (start stop : Int64) :
    (registry.call context "substring" [.str s, .int start, .int stop] : Run σ Value) =
      Run.ofExcept (Builtin.Text.substring s.toList start.toInt stop.toInt) := by
  rw [Registry.call, h, Registry.builtins, Dict.find?_ofList]
  rfl

end

namespace Eval

open TradingRules.Expr (ofPath)
open TradingRules.Builtin.Collection (Searches position)

variable {σ : Type} [RegimeHost σ] {registry : Registry} {context : Context} {scope : Scope}
  {hay needle : Expr} {v w : Value} {items : List Value} {text part : String} {place : Option Nat}
  {j : Int64} {k : Nat} {host : Option σ}

def elementAt (hay needle : Expr) (i : Nat) : Expr :=
  .binary .eq (.index hay (.literal (.int (Int64.ofNat i)))) needle

def partFrom (hay needle : Expr) (j : Int64) : Expr :=
  .call "substring" [hay, .literal (.int j), .binary .add (.literal (.int j)) (.call "size" [needle])]

def partAt (hay needle : Expr) (j : Int64) : Expr := .binary .eq (partFrom hay needle j) needle

def CallsBuiltins (registry : Registry) : Prop :=
  ∀ name ∈ ["contains", "indexOf", "count", "size", "substring"],
    Dict.find? name registry = Dict.find? name Registry.builtins

theorem eval_elementAt (hhay : (eval registry context scope hay : Run σ Value) = pure (.list items))
    (hneedle : (eval registry context scope needle : Run σ Value) = pure v) (hk : k < items.length)
    (hfits : items.length < 2 ^ 63) :
    (eval registry context scope (elementAt hay needle k) : Run σ Value) = pure (.bool (items[k].looseEq v)) := by
  have hindex : (eval registry context scope (.index hay (.literal (.int (Int64.ofNat k)))) : Run σ Value) =
      pure items[k] := by
    rw [eval_index_eq hhay (eval_literal_eq _), Value.index_ofNat hk hfits]
    rfl
  exact eval_binary_of_ok (by decide) (by decide) hindex hneedle rfl

section
variable (hregistry : CallsBuiltins registry)
  (hhay : (eval registry context scope hay : Run σ Value) = pure (.str text))
  (hneedle : (eval registry context scope needle : Run σ Value) = pure (.str part))
  (hfits : part.length < 2 ^ 63)
include hregistry hhay hneedle hfits

theorem eval_partFrom (j : Int64) : (eval registry context scope (partFrom hay needle j) : Run σ Value) =
    Run.ofExcept (BinaryOp.add.exactly (j.toInt + part.length)) >>= fun stop =>
      registry.call context "substring" [.str text, .int j, stop] := by
  have hsize : (eval registry context scope (.call "size" [needle]) : Run σ Value) =
      pure (.int (Int64.ofNat part.length)) :=
    (eval_call_eq "size" (.cons hneedle .nil)).trans (call_size_str (hregistry _ (by decide)) part)
  have hend : (eval registry context scope (.binary .add (.literal (.int j)) (.call "size" [needle])) :
      Run σ Value) = Run.ofExcept (BinaryOp.add.apply (.int j) (.int (Int64.ofNat part.length))) :=
    eval_binary_eq (by decide) (by decide) (eval_literal_eq _) hsize
  rw [BinaryOp.apply, Int64.toInt_ofNat_of_lt hfits] at hend
  rw [partFrom, eval]
  simp only [evalAll, hhay, eval_literal_eq, hend, pure_bind, bind_assoc]

theorem eval_partAt_of_le (hk : k + part.length ≤ text.length) (htext : text.length < 2 ^ 63) : ∃ b : Bool,
    (eval registry context scope (partAt hay needle (Int64.ofNat k)) : Run σ Value) = pure (.bool b) ∧
      (b = true ↔ OccursAt part.toList text.toList k) := by
  have hstart : (Int64.ofNat k).toInt = k := Int64.toInt_ofNat_of_lt (by omega)
  have hstop : (Int64.ofNat (k + part.length)).toInt = k + part.length := by
    rw [Int64.toInt_ofNat_of_lt (by omega), Int.natCast_add]
  have hpart : (eval registry context scope (partFrom hay needle (Int64.ofNat k)) : Run σ Value) =
      pure (.str (String.ofList ((text.toList.take (k + part.length)).drop k))) := by
    rw [eval_partFrom hregistry hhay hneedle hfits, BinaryOp.exactly, hstart,
      Decimal.int64?_eq_some_iff.mpr hstop]
    refine (call_substring (hregistry _ (by decide)) text _ _).trans ?_
    rw [hstart, hstop, ← Int.natCast_add, Builtin.Text.substring_of_le (Nat.le_add_right _ _) hk]
    rfl
  exact ⟨_, eval_binary_of_ok (by decide) (by decide) hpart hneedle rfl, Builtin.Text.substring_looseEq hk⟩

theorem eval_partAt_of_outside (h : j.toInt < 0 ∨ text.length < j.toInt + part.length) : ∃ failure,
    (eval registry context scope (partAt hay needle j) : Run σ Value) = throw failure := by
  have hpart : ∃ failure,
      (eval registry context scope (partFrom hay needle j) : Run σ Value) = throw failure := by
    rw [eval_partFrom hregistry hhay hneedle hfits, BinaryOp.exactly]
    cases hstop : Decimal.int64? (j.toInt + part.length) with
    | none => exact ⟨_, rfl⟩
    | some stop =>
      obtain ⟨failure, hrefused⟩ := Builtin.Text.substring_of_outside h
      refine ⟨failure, (call_substring (hregistry _ (by decide)) text j stop).trans ?_⟩
      rw [Decimal.int64?_eq_some_iff.mp hstop, hrefused]
      rfl
  obtain ⟨failure, hpart⟩ := hpart
  refine ⟨failure, ?_⟩
  simp only [partAt, eval, hpart]
  rfl

/-- The test of a part is true only where the part occurs. -/
theorem occursAt_of_gives_partAt (htext : text.length < 2 ^ 63)
    (h : (eval registry context scope (partAt hay needle j) : Run σ Value).Gives host (.bool true)) :
    ∃ k : Nat, j = Int64.ofNat k ∧ OccursAt part.toList text.toList k := by
  obtain ⟨last, h⟩ := h
  by_cases hwithin : j.toInt < 0 ∨ text.length < j.toInt + part.length
  · obtain ⟨failure, hrefused⟩ := eval_partAt_of_outside hregistry hhay hneedle hfits hwithin
    rw [hrefused] at h
    cases h
  · obtain ⟨k, hk⟩ := Int.eq_ofNat_of_zero_le (show 0 ≤ j.toInt by omega)
    have hj : j = Int64.ofNat k := by
      rw [← Int64.toInt_inj, hk, Int64.toInt_ofNat_of_lt (by omega)]
    subst hj
    obtain ⟨b, htested, hoccurs⟩ :=
      eval_partAt_of_le hregistry hhay hneedle hfits (show k + part.length ≤ text.length by omega) htext
    rw [htested] at h
    cases h
    exact ⟨k, rfl, hoccurs.mp rfl⟩

end

section
variable (hregistry : CallsBuiltins registry)
include hregistry

theorem eval_tests {hays : Value} (hhay : (eval registry context scope hay : Run σ Value) = pure hays)
    (hneedle : (eval registry context scope needle : Run σ Value) = pure v) (h : Searches hays v place)
    (hfits : ∀ k ∈ place, k < 2 ^ 63) :
    (eval registry context scope (.call "contains" [hay, needle]) : Run σ Value) = pure (.bool place.isSome) ∧
    (eval registry context scope (.binary .member needle hay) : Run σ Value) = pure (.bool place.isSome) ∧
    (eval registry context scope (.binary .ge (.call "indexOf" [hay, needle]) (.literal (.int 0))) :
      Run σ Value) = pure (.bool place.isSome) ∧
    (eval registry context scope (.call "indexOf" [hay, needle]) : Run σ Value) = pure (position place) := by
  have hindex : (eval registry context scope (.call "indexOf" [hay, needle]) : Run σ Value) =
      pure (position place) := by
    rw [eval_call_eq "indexOf" (.cons hhay (.cons hneedle .nil)), call_indexOf (hregistry _ (by decide)),
      h.indexOf_eq]
    rfl
  refine ⟨?_, ?_, ?_, hindex⟩
  · rw [eval_call_eq "contains" (.cons hhay (.cons hneedle .nil)), call_contains (hregistry _ (by decide)),
      h.contains_eq]
    rfl
  · exact eval_binary_of_ok (by decide) (by decide) hneedle hhay h.member_eq
  · exact eval_binary_of_ok (by decide) (by decide) hindex (eval_literal_eq _)
      (Builtin.Collection.ge_zero_position hfits)

theorem eval_count (hhay : (eval registry context scope hay : Run σ Value) = pure (.list items))
    (hneedle : (eval registry context scope needle : Run σ Value) = pure v) (hfits : items.length < 2 ^ 63) :
    (eval registry context scope (.binary .gt (.call "count" [hay, needle]) (.literal (.int 0))) : Run σ Value) =
      pure (.bool (items.findIdx? (·.looseEq v)).isSome) := by
  have hcount : (eval registry context scope (.call "count" [hay, needle]) : Run σ Value) =
      pure (.int (Int64.ofNat (Builtin.Collection.count items v))) :=
    (eval_call_eq "count" (.cons hhay (.cons hneedle .nil))).trans (call_count (hregistry _ (by decide)) items v)
  exact eval_binary_of_ok (by decide) (by decide) hcount (eval_literal_eq _)
    (Builtin.Collection.gt_zero_count hfits v)

end

theorem eval_exists {root x : String} {fields : List String}
    (hhay : (eval registry context scope hay : Run σ Value) = pure (.list items))
    (hneedle : InContext context scope root fields v) (hx : x ≠ root) :
    (eval registry context scope (.comprehension .exists hay x (.binary .eq (.ident x) (ofPath root fields))) :
      Run σ Value) = pure (.bool (items.findIdx? (·.looseEq v)).isSome) := by
  have hbody (item : Value) : (eval registry context ((x, item) :: scope)
      (.binary .eq (.ident x) (ofPath root fields)) : Run σ Value) = pure (.bool (item.looseEq v)) := by
    have hvar : (eval registry context ((x, item) :: scope) (.ident x) : Run σ Value) = pure item := by
      simp [eval, Scope.find?]
    exact eval_binary_of_ok (by decide) (by decide) hvar (hneedle.bind hx item).eval_eq rfl
  simp only [eval, hhay, elements, pure_bind]
  rw [List.findIdx?_isSome]
  exact comprehend_exists_eq hbody false items

-- ---------------------------------------------------------------------------
-- Membership
-- ---------------------------------------------------------------------------

/-- The position in a list is the first at which the element is equal. -/
theorem eval_elementAt_position (hhay : (eval registry context scope hay : Run σ Value) = pure (.list items))
    (hneedle : (eval registry context scope needle : Run σ Value) = pure v) (hfits : items.length < 2 ^ 63)
    (h : items.findIdx? (·.looseEq v) = some k) : k < items.length ∧
      (eval registry context scope (elementAt hay needle k) : Run σ Value) = pure (.bool true) ∧
      ∀ j < k, (eval registry context scope (elementAt hay needle j) : Run σ Value) = pure (.bool false) := by
  obtain ⟨hk, hequal, hnone⟩ := List.findIdx?_eq_some_iff_getElem.mp h
  refine ⟨hk, (eval_elementAt hhay hneedle hk hfits).trans (by rw [hequal]), fun j hj => ?_⟩
  refine (eval_elementAt hhay hneedle (hj.trans hk) hfits).trans ?_
  rw [Bool.eq_false_iff.mpr (hnone j hj)]

theorem eval_elementAt_of_none (hhay : (eval registry context scope hay : Run σ Value) = pure (.list items))
    (hneedle : (eval registry context scope needle : Run σ Value) = pure v) (hfits : items.length < 2 ^ 63)
    (h : items.findIdx? (·.looseEq v) = none) (hk : k < items.length) :
    (eval registry context scope (elementAt hay needle k) : Run σ Value) = pure (.bool false) := by
  rw [eval_elementAt hhay hneedle hk hfits, List.findIdx?_eq_none_iff.mp h _ (List.getElem_mem hk)]

/-- The position in a text is the first at which the part is equal, whichever positions are tried. -/
theorem eval_partAt_position (hregistry : CallsBuiltins registry)
    (hhay : (eval registry context scope hay : Run σ Value) = pure (.str text))
    (hneedle : (eval registry context scope needle : Run σ Value) = pure (.str part))
    (htext : text.length < 2 ^ 63) (hpart : part.length < 2 ^ 63)
    (h : FirstAt part.toList text.toList k) :
    (eval registry context scope (partAt hay needle (Int64.ofNat k)) : Run σ Value) = pure (.bool true) ∧
      ∀ j < Int64.ofNat k, ∀ host,
        ¬(eval registry context scope (partAt hay needle j) : Run σ Value).Gives host (.bool true) := by
  have hk : k + part.length ≤ text.length := h.found.le_length
  constructor
  · obtain ⟨b, htested, hoccurs⟩ := eval_partAt_of_le hregistry hhay hneedle hpart hk htext
    rw [htested, hoccurs.mpr h.found]
  · intro j hj host htrue
    obtain ⟨i, rfl, hi⟩ := occursAt_of_gives_partAt hregistry hhay hneedle hpart htext htrue
    have hlength : i + part.length ≤ text.length := hi.le_length
    rw [Int64.lt_iff_toInt_lt, Int64.toInt_ofNat_of_lt (by omega), Int64.toInt_ofNat_of_lt (by omega)] at hj
    exact h.none_before i (Int.ofNat_lt.mp hj) hi

/-- Take a list or a string, and a value, under paths of the context. `contains`, `in` and `indexOf`, for a
list also `count` and `exists`, give one answer. If it is true, `indexOf` tells the first position of a list
at which the element is equal, and the first of a string from which on the part is. Positions in a string
count characters: the bytes of the part stand first behind the bytes of so many. If the answer is false, there
is no such position. Lists and strings in memory are shorter than `2 ^ 63`. -/
theorem membership_agrees (hregistry : CallsBuiltins registry) {root root' : String}
    {fields fields' : List String} {v : Value} (hneedle : InContext context scope root' fields' v) :
    let hay := ofPath root fields
    let needle := ofPath root' fields'
    let run (e : Expr) : Run σ Value := eval registry context scope e
    let index := Expr.call "indexOf" [hay, needle]
    (∀ items x, InContext context scope root fields (.list items) → items.length < 2 ^ 63 → x ≠ root' →
      ∃ found : Bool,
        run (.call "contains" [hay, needle]) = pure (.bool found) ∧
        run (.binary .member needle hay) = pure (.bool found) ∧
        run (.binary .ge index (.literal (.int 0))) = pure (.bool found) ∧
        run (.binary .gt (.call "count" [hay, needle]) (.literal (.int 0))) = pure (.bool found) ∧
        run (.comprehension .exists hay x (.binary .eq (.ident x) needle)) = pure (.bool found) ∧
        (found = true → ∃ k < items.length, run index = pure (.int (Int64.ofNat k)) ∧
          run (elementAt hay needle k) = pure (.bool true) ∧
          ∀ j < k, run (elementAt hay needle j) = pure (.bool false)) ∧
        (found = false → run index = pure (.int (-1)) ∧
          ∀ j < items.length, run (elementAt hay needle j) = pure (.bool false))) ∧
    ∀ text part, InContext context scope root fields (.str text) → v = .str part →
      text.length < 2 ^ 63 → part.length < 2 ^ 63 → ∃ found : Bool,
        run (.call "contains" [hay, needle]) = pure (.bool found) ∧
        run (.binary .member needle hay) = pure (.bool found) ∧
        run (.binary .ge index (.literal (.int 0))) = pure (.bool found) ∧
        (found = true ↔ part.toList <:+: text.toList) ∧
        (found = true → ∃ k, run index = pure (.int (Int64.ofNat k)) ∧ k + part.length ≤ text.length ∧
          run (partAt hay needle (Int64.ofNat k)) = pure (.bool true) ∧
          (∀ j < Int64.ofNat k, ∀ host, ¬(run (partAt hay needle j)).Gives host (.bool true)) ∧
          FirstAt (Text.bytes part.toList) (Text.bytes text.toList) (Text.bytes (text.toList.take k)).length) ∧
        (found = false → run index = pure (.int (-1)) ∧
          ∀ j host, ¬(run (partAt hay needle j)).Gives host (.bool true)) := by
  intro hay needle run index
  have hv : run needle = pure v := hneedle.eval_eq
  constructor
  · intro items x hnames hfits hx
    have hhay : run hay = pure (.list items) := hnames.eval_eq
    have hplace : ∀ k ∈ items.findIdx? (·.looseEq v), k < 2 ^ 63 := fun k hk =>
      (List.findIdx?_eq_some_iff_getElem.mp hk).1.trans hfits
    obtain ⟨hcontains, hmember, hge, hindex⟩ := eval_tests hregistry hhay hv (.list items v) hplace
    refine ⟨_, hcontains, hmember, hge, eval_count hregistry hhay hv hfits, eval_exists hhay hneedle hx, ?_, ?_⟩
    · intro hfound
      obtain ⟨k, hk⟩ := Option.isSome_iff_exists.mp hfound
      obtain ⟨hwithin, hequal, hnone⟩ := eval_elementAt_position hhay hv hfits hk
      exact ⟨k, hwithin, hindex.trans (by rw [hk]; rfl), hequal, hnone⟩
    · intro hfound
      have hnone := Option.isNone_iff_eq_none.mp (Option.isSome_eq_false_iff.mp hfound)
      exact ⟨hindex.trans (by rw [hnone]; rfl), fun j hj => eval_elementAt_of_none hhay hv hfits hnone hj⟩
  · rintro text part hnames rfl htext hpart
    have hhay : run hay = pure (.str text) := hnames.eval_eq
    have hplace : ∀ k ∈ Text.indexOf? part.toList text.toList, k < 2 ^ 63 := fun k hk => by
      have hlength : k + part.length ≤ text.length := (Text.indexOf?_eq_some_iff.mp hk).found.le_length
      omega
    obtain ⟨hcontains, hmember, hge, hindex⟩ := eval_tests hregistry hhay hv (.str text part) hplace
    refine ⟨_, hcontains, hmember, hge, Text.contains_iff, ?_, ?_⟩
    · intro hfound
      obtain ⟨k, hk⟩ := Option.isSome_iff_exists.mp hfound
      have hfirst := Text.indexOf?_eq_some_iff.mp hk
      obtain ⟨hequal, hnone⟩ := eval_partAt_position hregistry hhay hv htext hpart hfirst
      exact ⟨k, hindex.trans (by rw [hk]; rfl), hfirst.found.le_length, hequal, hnone,
        Text.firstAt_bytes_iff.mpr ⟨k, hfirst, rfl⟩⟩
    · intro hfound
      have hnone := Option.isNone_iff_eq_none.mp (Option.isSome_eq_false_iff.mp hfound)
      refine ⟨hindex.trans (by rw [hnone]; rfl), fun j host htrue => ?_⟩
      obtain ⟨k, -, hk⟩ := occursAt_of_gives_partAt hregistry hhay hv hpart htext htrue
      exact Text.indexOf?_eq_none_iff.mp hnone k hk

def letters : Context :=
  ⟨[("letters.all", .list [.str "a", .str "é", .str "é"]), ("letters.one", .str "é"),
    ("letters.text", .str "aïéé")], ⟨1700000000, 0⟩⟩

theorem membership_agrees_letters :
    let scope : Scope := [("y", .null)]
    let all := ofPath "letters" ["all"]
    let one := ofPath "letters" ["one"]
    let text := ofPath "letters" ["text"]
    let chars := ['a', 'ï', 'é', 'é']
    let run (e : Expr) : Run FixedHost Value := eval Registry.builtins letters scope e
    CallsBuiltins Registry.builtins ∧ InContext letters scope "letters" ["one"] (.str "é") ∧
      InContext letters scope "letters" ["all"] (.list [.str "a", .str "é", .str "é"]) ∧
      InContext letters scope "letters" ["text"] (.str "aïéé") ∧
      run (.comprehension .exists all "x" (.binary .eq (.ident "x") one)) = pure (.bool true) ∧
      (∃ k, run (.call "indexOf" [all, one]) = pure (.int (Int64.ofNat k)) ∧
        run (elementAt all one k) = pure (.bool true)) ∧
      ∃ k, run (.call "indexOf" [text, one]) = pure (.int (Int64.ofNat k)) ∧
        run (partAt text one (Int64.ofNat k)) = pure (.bool true) ∧
        FirstAt (Text.bytes ['é']) (Text.bytes chars) (Text.bytes (chars.take k)).length := by
  intro scope all one text chars run
  have hregistry : CallsBuiltins Registry.builtins := fun _ _ => rfl
  have hone : InContext letters scope "letters" ["one"] (.str "é") := ⟨by decide, rfl⟩
  have hall : InContext letters scope "letters" ["all"] (.list [.str "a", .str "é", .str "é"]) := ⟨by decide, rfl⟩
  have htext : InContext letters scope "letters" ["text"] (.str "aïéé") := ⟨by decide, rfl⟩
  obtain ⟨found, -, hmember, -, -, hexists, hfound, -⟩ :=
    (membership_agrees (σ := FixedHost) hregistry hone).1 _ "x" hall (by decide) (by decide)
  obtain ⟨found', -, -, -, hinfix, hfound', -⟩ :=
    (membership_agrees (σ := FixedHost) hregistry hone).2 _ _ htext rfl (by decide) (by decide)
  have hsecond : run (.binary .member one all) = pure (.bool true) :=
    eval_binary_of_ok (by decide) (by decide) hone.eval_eq hall.eval_eq rfl
  obtain rfl : found = true := Value.bool.inj (Run.pure_inj.mp (hmember.symm.trans hsecond))
  obtain rfl : found' = true := hinfix.mpr ⟨['a', 'ï'], ['é'], rfl⟩
  obtain ⟨k, -, hindex, hequal, -⟩ := hfound rfl
  obtain ⟨k', hindex', -, hequal', -, hfirst⟩ := hfound' rfl
  exact ⟨hregistry, hone, hall, htext, hexists, ⟨k, hindex, hequal⟩, k', hindex', hequal', hfirst⟩

end Eval

end TradingRules
