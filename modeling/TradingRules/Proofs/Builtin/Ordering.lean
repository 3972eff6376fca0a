import TradingRules.Builtin.Library
import TradingRules.Proofs.Dict
import TradingRules.Proofs.Double.Integers
import TradingRules.Proofs.Eval.Runs
import TradingRules.Proofs.Value.Integers

/-!
# Sorting and extremes of integers

Sorting, the greatest and the least element go by the doubles that integers are rounded to, the relational
operators by the integers. Both agree as far as integers with one double come in the order of the integers:
`ordering_builtins_iff` says when the results are in order under the operators.
-/

namespace TradingRules.Builtin

open Double (ofInt64)

-- ---------------------------------------------------------------------------
-- Sorting by a key
-- ---------------------------------------------------------------------------

section
variable {α : Type} {key : α → Int} {R : α → α → Prop}

theorem le_key_trans (a b c : α) (hab : decide (key a ≤ key b) = true) (hbc : decide (key b ≤ key c) = true) :
    decide (key a ≤ key c) = true := by
  rw [decide_eq_true_eq] at *
  exact hab.trans hbc

theorem le_key_total (a b : α) : (decide (key a ≤ key b) || decide (key b ≤ key a)) = true := by
  rw [Bool.or_eq_true, decide_eq_true_eq, decide_eq_true_eq]
  exact le_total _ _

theorem filter_mergeSort (key : α → Int) (values : List α) (k : Int) :
    (values.mergeSort fun a b => key a ≤ key b).filter (key · = k) = values.filter (key · = k) := by
  have hperm := (List.mergeSort_perm values fun a b => decide (key a ≤ key b)).filter (key · = k)
  have hsame : (values.filter (key · = k)).Pairwise fun a b => decide (key a ≤ key b) = true := by
    refine List.pairwise_of_forall_mem_list fun a ha b hb => ?_
    simp only [List.mem_filter, decide_eq_true_eq] at ha hb ⊢
    omega
  have hsub : (values.filter (key · = k)).Sublist (values.mergeSort fun a b => key a ≤ key b) :=
    List.sublist_mergeSort le_key_trans le_key_total hsame List.filter_sublist
  have hfiltered := hsub.filter (key · = k)
  rw [List.filter_filter] at hfiltered
  simp only [Bool.and_self] at hfiltered
  exact (hfiltered.eq_of_length hperm.length_eq.symm).symm

theorem pairwise_same_key_iff {values : List α} :
    values.Pairwise (fun a b => key a = key b → R a b) ↔ ∀ k, (values.filter (key · = k)).Pairwise R := by
  simp only [List.pairwise_filter, decide_eq_true_eq]
  constructor
  · exact fun h k => h.imp fun hab ha hb => hab (ha.trans hb.symm)
  · intro h
    rw [List.pairwise_iff_forall_sublist]
    intro a b hsub heq
    exact List.pairwise_iff_forall_sublist.mp (h (key b)) hsub heq rfl

theorem pairwise_mergeSort_same_key_iff {values : List α} :
    (values.mergeSort fun a b => key a ≤ key b).Pairwise (fun a b => key a = key b → R a b) ↔
      values.Pairwise fun a b => key a = key b → R a b := by
  simp only [pairwise_same_key_iff, filter_mergeSort]

end

-- ---------------------------------------------------------------------------
-- Extremes
-- ---------------------------------------------------------------------------

/-- The first of the integers whose double no other one exceeds. -/
def Foremost (exceeds : Double → Double → Prop) (values : List Int64) (best : Int64) : Prop :=
  ∃ before after, values = before ++ best :: after ∧ (∀ a ∈ before, exceeds (ofInt64 best) (ofInt64 a)) ∧
    ∀ a ∈ after, ¬exceeds (ofInt64 a) (ofInt64 best)

section
variable {exceeds : Double → Double → Prop} {key : Int64 → Int} {values rest : List Int64}
  {best v most : Int64}

theorem Foremost.key_le (hkey : ∀ a b, exceeds (ofInt64 a) (ofInt64 b) ↔ key b < key a)
    (h : Foremost exceeds values best) : best ∈ values ∧ ∀ a ∈ values, key a ≤ key best := by
  obtain ⟨before, after, rfl, hbefore, hafter⟩ := h
  simp only [hkey, not_lt] at hbefore hafter
  refine ⟨by simp, fun a ha => ?_⟩
  rcases List.mem_append.mp ha with hin | hin
  · exact (hbefore a hin).le
  · rcases List.mem_cons.mp hin with rfl | hin
    · exact le_refl _
    · exact hafter a hin

theorem Foremost.cons_exceeded (hkey : ∀ a b, exceeds (ofInt64 a) (ofInt64 b) ↔ key b < key a)
    (h : Foremost exceeds (v :: rest) most) (hv : key best < key v) :
    Foremost exceeds (best :: v :: rest) most := by
  have hle := (h.key_le hkey).2 v List.mem_cons_self
  obtain ⟨before, after, heq, hbefore, hafter⟩ := h
  refine ⟨best :: before, after, by rw [heq, List.cons_append], ?_, hafter⟩
  exact List.forall_mem_cons.mpr ⟨(hkey ..).mpr (hv.trans_le hle), hbefore⟩

theorem Foremost.cons_kept (hkey : ∀ a b, exceeds (ofInt64 a) (ofInt64 b) ↔ key b < key a)
    (h : Foremost exceeds (best :: rest) most) (hv : key v ≤ key best) :
    Foremost exceeds (best :: v :: rest) most := by
  obtain ⟨before, after, heq, hbefore, hafter⟩ := h
  cases before with
  | nil =>
    obtain ⟨rfl, rfl⟩ := List.cons.inj heq
    refine ⟨[], v :: rest, rfl, nofun, List.forall_mem_cons.mpr ⟨?_, hafter⟩⟩
    exact mt (hkey ..).mp hv.not_gt
  | cons first before =>
    obtain ⟨rfl, rfl⟩ := List.cons.inj heq
    obtain ⟨hfirst, hbefore⟩ := List.forall_mem_cons.mp hbefore
    refine ⟨best :: v :: before, after, rfl, List.forall_mem_cons.mpr ⟨hfirst, ?_⟩, hafter⟩
    exact List.forall_mem_cons.mpr ⟨(hkey ..).mpr (hv.trans_lt ((hkey ..).mp hfirst)), hbefore⟩

variable [DecidableRel exceeds]

theorem extreme_cons (best v : Int64) (rest : List Int64) :
    Math.extreme (fun x y => exceeds x y) (.int best) ((v :: rest).map .int) =
      Math.extreme (fun x y => exceeds x y) (.int (if exceeds (ofInt64 v) (ofInt64 best) then v else best))
        (rest.map .int) := by
  have hnext : (if decide (exceeds (ofInt64 v) (ofInt64 best)) = true then Value.int v else .int best) =
      .int (if exceeds (ofInt64 v) (ofInt64 best) then v else best) := by
    split <;> simp_all
  rw [← hnext]
  rfl

theorem exists_extreme (hkey : ∀ a b, exceeds (ofInt64 a) (ofInt64 b) ↔ key b < key a) (best : Int64)
    (rest : List Int64) : ∃ most,
      Math.extreme (fun x y => exceeds x y) (.int best) (rest.map .int) = .int most ∧
      Foremost exceeds (best :: rest) most := by
  induction rest generalizing best with
  | nil => exact ⟨best, rfl, [], [], rfl, nofun, nofun⟩
  | cons v rest ih =>
    rw [extreme_cons]
    by_cases hv : exceeds (ofInt64 v) (ofInt64 best)
    · obtain ⟨most, heq, hmost⟩ := ih v
      rw [if_pos hv]
      exact ⟨most, heq, hmost.cons_exceeded hkey ((hkey ..).mp hv)⟩
    · obtain ⟨most, heq, hmost⟩ := ih best
      rw [if_neg hv]
      exact ⟨most, heq, hmost.cons_kept hkey (Int.not_lt.mp (mt (hkey ..).mpr hv))⟩

theorem exists_extremeOf (exceeds : Double → Double → Prop) [DecidableRel exceeds]
    (hkey : ∀ a b, exceeds (ofInt64 a) (ofInt64 b) ↔ key b < key a) (hvalues : values ≠ []) :
    ∃ most, Foremost exceeds values most ∧ ∀ name,
      Math.extremeOf (fun x y => exceeds x y) name [.list (values.map .int)] = .ok (.int most) := by
  obtain ⟨best, rest, rfl⟩ := List.exists_cons_of_ne_nil hvalues
  obtain ⟨most, heq, hmost⟩ := exists_extreme hkey best rest
  refine ⟨most, hmost, fun name => ?_⟩
  have hnumbers : Math.numbers name [.list ((best :: rest).map .int)] = .ok ((best :: rest).map .int) := by
    have hfind : ((best :: rest).map Value.int).find? (fun v => !v.isNumber) = none := by
      simp [Value.isNumber]
    simp only [Math.numbers, hfind]
    rfl
  have hrest : Strict.rest ((best :: rest).map Value.int) 1 = .ok (rest.map .int) := by
    simp [Strict.rest, Strict.part]
  have hrun : Math.extremeOf (fun x y => exceeds x y) name [.list ((best :: rest).map .int)] =
      (Strict.rest ((best :: rest).map .int) 1).map (Math.extreme (fun x y => exceeds x y) (.int best)) := by
    rw [Math.extremeOf, hnumbers]
    exact bind_pure_comp (Math.extreme _ (.int best)) (Strict.rest ((best :: rest).map .int) 1)
  rw [hrun, hrest]
  exact congrArg Except.ok heq

end

-- ---------------------------------------------------------------------------
-- The functions
-- ---------------------------------------------------------------------------

section
variable {σ : Type} [RegimeHost σ] (context : Context)

theorem call_sort (values : List Value) :
    (Registry.builtins.call context "sort" [.list values] : Run σ Value) =
      Run.ofExcept ((Collection.sort values).map .list) := by
  rw [Registry.call, Registry.builtins, Dict.find?_ofList]
  rfl

theorem call_greatest {name : String} (h : name ∈ ["max", "highest"]) (values : List Value) :
    (Registry.builtins.call context name [.list values] : Run σ Value) =
      Run.ofExcept (Math.greatest name [.list values]) := by
  rw [Registry.call, Registry.builtins, Dict.find?_ofList]
  obtain rfl | rfl : name = "max" ∨ name = "highest" := by simpa using h
  · rfl
  · rfl

theorem call_least {name : String} (h : name ∈ ["min", "lowest"]) (values : List Value) :
    (Registry.builtins.call context name [.list values] : Run σ Value) =
      Run.ofExcept (Math.least name [.list values]) := by
  rw [Registry.call, Registry.builtins, Dict.find?_ofList]
  obtain rfl | rfl : name = "min" ∨ name = "lowest" := by simpa using h
  · rfl
  · rfl

def Ascends (a b : Int64) : Prop := BinaryOp.lt.apply (.int b) (.int a) = .ok (.bool false)

theorem lt_apply_false_iff {a b : Int64} :
    BinaryOp.lt.apply (.int a) (.int b) = .ok (.bool false) ↔ b ≤ a := by
  rw [BinaryOp.lt_apply_int]
  simp

theorem gt_apply_false_iff {a b : Int64} :
    BinaryOp.gt.apply (.int a) (.int b) = .ok (.bool false) ↔ a ≤ b := by
  rw [BinaryOp.gt_apply_int]
  simp

theorem ascends_iff {a b : Int64} : Ascends a b ↔ a ≤ b := lt_apply_false_iff

/-- Integers in the order of their doubles are in order unless they have one double. -/
theorem le_of_totalRank_le {a b : Int64} (h : (ofInt64 a).totalRank ≤ (ofInt64 b).totalRank)
    (hsame : ofInt64 a = ofInt64 b → a ≤ b) : a ≤ b := by
  by_contra hnot
  have hle : b ≤ a := Int64.le_of_lt (Int64.not_le.mp hnot)
  have heq := Int.le_antisymm h (Double.totalRank_ofInt64_mono hle)
  exact hnot (hsame (Double.eq_of_totalRank_eq heq))

instance : Trans Ascends Ascends Ascends where
  trans hab hbc := ascends_iff.mpr (Int64.le_trans (ascends_iff.mp hab) (ascends_iff.mp hbc))

def sortedInts (values : List Int64) : List Int64 :=
  values.mergeSort fun a b => (ofInt64 a).totalRank ≤ (ofInt64 b).totalRank

theorem pairwise_sortedInts (values : List Int64) :
    (sortedInts values).Pairwise fun a b => (ofInt64 a).totalRank ≤ (ofInt64 b).totalRank :=
  (List.pairwise_mergeSort le_key_trans le_key_total values).imp of_decide_eq_true

theorem sort_ints (values : List Int64) : Collection.sort (values.map .int) =
    .ok ((sortedInts values).map .int) := by
  have hnumbers : (values.map Value.int).all Value.isNumber = true := by
    simp [Value.isNumber]
  rw [Collection.sort, if_pos hnumbers]
  refine congrArg Except.ok (List.map_mergeSort ?_).symm
  exact fun a _ b _ => rfl

theorem isChain_sortedInts_iff (values : List Int64) : (sortedInts values).IsChain Ascends ↔
    values.Pairwise fun a b => ofInt64 a = ofInt64 b → a ≤ b := by
  have hrank (a b : Int64) : ofInt64 a = ofInt64 b ↔ (ofInt64 a).totalRank = (ofInt64 b).totalRank :=
    ⟨congrArg Double.totalRank, Double.eq_of_totalRank_eq⟩
  simp only [hrank]
  rw [List.isChain_iff_pairwise, ← pairwise_mergeSort_same_key_iff]
  constructor
  · intro h
    refine List.Pairwise.imp ?_ h
    exact fun hascends _ => ascends_iff.mp hascends
  · intro h
    refine (h.and (pairwise_sortedInts values)).imp fun hab => ascends_iff.mpr ?_
    exact le_of_totalRank_le hab.2 fun heq => hab.1 ((hrank ..).mp heq)

/-- The greatest integers of one double are the greatest of all if the double is the greatest. -/
theorem gt_apply_most_iff {values : List Int64} {most : Int64}
    (hmost : ∀ a ∈ values, (ofInt64 a).totalRank ≤ (ofInt64 most).totalRank) :
    (∀ a ∈ values, BinaryOp.gt.apply (.int a) (.int most) = .ok (.bool false)) ↔
      ∀ a ∈ values, ofInt64 a = ofInt64 most → a ≤ most := by
  simp only [gt_apply_false_iff]
  exact ⟨fun h a ha _ => h a ha, fun h a ha => le_of_totalRank_le (hmost a ha) (h a ha)⟩

theorem lt_apply_least_iff {values : List Int64} {least : Int64}
    (hleast : ∀ a ∈ values, (ofInt64 least).totalRank ≤ (ofInt64 a).totalRank) :
    (∀ a ∈ values, BinaryOp.lt.apply (.int a) (.int least) = .ok (.bool false)) ↔
      ∀ a ∈ values, ofInt64 a = ofInt64 least → least ≤ a := by
  simp only [lt_apply_false_iff]
  exact ⟨fun h a ha _ => h a ha, fun h a ha => le_of_totalRank_le (hleast a ha) fun heq => h a ha heq.symm⟩

theorem call_sort_ints (values : List Int64) :
    (Registry.builtins.call context "sort" [.list (values.map .int)] : Run σ Value) =
      pure (.list ((sortedInts values).map .int)) := by
  rw [call_sort, sort_ints]
  rfl

theorem exists_greatest {values : List Int64} (hvalues : values ≠ []) :
    ∃ most ∈ values, (∀ name ∈ ["max", "highest"],
        (Registry.builtins.call context name [.list (values.map .int)] : Run σ Value) = pure (.int most)) ∧
      Foremost (fun x y => y < x) values most ∧
      ((∀ a ∈ values, BinaryOp.gt.apply (.int a) (.int most) = .ok (.bool false)) ↔
        ∀ a ∈ values, ofInt64 a = ofInt64 most → a ≤ most) := by
  have hkey (a b : Int64) : ofInt64 b < ofInt64 a ↔ (ofInt64 b).totalRank < (ofInt64 a).totalRank :=
    Double.ofInt64_lt_iff b a
  obtain ⟨most, hmost, hrun⟩ := exists_extremeOf (fun x y => y < x) hkey hvalues
  obtain ⟨hmem, hle⟩ := hmost.key_le hkey
  refine ⟨most, hmem, fun name hname => ?_, hmost, gt_apply_most_iff hle⟩
  rw [call_greatest context hname]
  exact congrArg Run.ofExcept (hrun name)

/-- The least double is the greatest under the key with its sign changed. -/
theorem exists_least {values : List Int64} (hvalues : values ≠ []) :
    ∃ least ∈ values, (∀ name ∈ ["min", "lowest"],
        (Registry.builtins.call context name [.list (values.map .int)] : Run σ Value) = pure (.int least)) ∧
      Foremost (fun x y => x < y) values least ∧
      ((∀ a ∈ values, BinaryOp.lt.apply (.int a) (.int least) = .ok (.bool false)) ↔
        ∀ a ∈ values, ofInt64 a = ofInt64 least → least ≤ a) := by
  have hkey (a b : Int64) : ofInt64 a < ofInt64 b ↔ -(ofInt64 b).totalRank < -(ofInt64 a).totalRank :=
    (Double.ofInt64_lt_iff a b).trans Int.neg_lt_neg_iff.symm
  obtain ⟨least, hleast, hrun⟩ := exists_extremeOf (fun x y => x < y) hkey hvalues
  obtain ⟨hmem, hle⟩ := hleast.key_le hkey
  refine ⟨least, hmem, fun name hname => ?_, hleast,
    lt_apply_least_iff fun a ha => Int.neg_le_neg_iff.mp (hle a ha)⟩
  rw [call_least context hname]
  exact congrArg Run.ofExcept (hrun name)

/-- Sorting a list of integers sorts their doubles and keeps those of one double in their order; so no
element is below its predecessor exactly if the integers of each double were in order. The greatest and
the least element are the first with the greatest and the least double; so no element exceeds the one or
is below the other exactly if it does not do so among the integers of that double. -/
theorem ordering_builtins_iff (values : List Int64) :
    let call (name : String) : Run σ Value := Registry.builtins.call context name [.list (values.map .int)]
    (∃ sorted : List Int64, call "sort" = pure (.list (sorted.map .int)) ∧ sorted.Perm values ∧
      sorted.Pairwise (fun a b => ¬ofInt64 b < ofInt64 a) ∧
      (sorted.IsChain Ascends ↔ values.Pairwise fun a b => ofInt64 a = ofInt64 b → a ≤ b)) ∧
    (values ≠ [] →
      (∃ most ∈ values, (∀ name ∈ ["max", "highest"], call name = pure (.int most)) ∧
        Foremost (fun x y => y < x) values most ∧
        ((∀ a ∈ values, BinaryOp.gt.apply (.int a) (.int most) = .ok (.bool false)) ↔
          ∀ a ∈ values, ofInt64 a = ofInt64 most → a ≤ most)) ∧
      ∃ least ∈ values, (∀ name ∈ ["min", "lowest"], call name = pure (.int least)) ∧
        Foremost (fun x y => x < y) values least ∧
        ((∀ a ∈ values, BinaryOp.lt.apply (.int a) (.int least) = .ok (.bool false)) ↔
          ∀ a ∈ values, ofInt64 a = ofInt64 least → least ≤ a)) := by
  intro call
  refine ⟨⟨sortedInts values, call_sort_ints context values, List.mergeSort_perm _ _, ?_,
    isChain_sortedInts_iff values⟩, fun hvalues => ⟨exists_greatest context hvalues, exists_least context hvalues⟩⟩
  refine (pairwise_sortedInts values).imp fun hle => ?_
  rw [Double.ofInt64_lt_iff]
  exact hle.not_gt

/-- Two times in nanoseconds have one double, stand in order and are no extremes. -/
theorem ordering_builtins_iff_ascending :
    let values : List Int64 := [3, 1700000000000000000, 1700000000000000001, 1800000000000000000]
    let call (name : String) : Run FixedHost Value :=
      Registry.builtins.call ⟨[], ⟨1700000000, 0⟩⟩ name [.list (values.map .int)]
    values ≠ [] ∧ ofInt64 1700000000000000000 = ofInt64 1700000000000000001 ∧
      (∃ sorted : List Int64, call "sort" = pure (.list (sorted.map .int)) ∧ sorted.Perm values ∧
        sorted.IsChain Ascends) ∧
      (∃ most ∈ values, (∀ name ∈ ["max", "highest"], call name = pure (.int most)) ∧
        ∀ a ∈ values, BinaryOp.gt.apply (.int a) (.int most) = .ok (.bool false)) ∧
      ∃ least ∈ values, (∀ name ∈ ["min", "lowest"], call name = pure (.int least)) ∧
        ∀ a ∈ values, BinaryOp.lt.apply (.int a) (.int least) = .ok (.bool false) := by
  intro values call
  have hne : values ≠ [] := List.cons_ne_nil _ _
  have hcases (a : Int64) (ha : a ∈ values) : a = 3 ∨ a = 1700000000000000000 ∨ a = 1700000000000000001 ∨
      a = 1800000000000000000 := by simpa [values] using ha
  obtain ⟨⟨sorted, hsort, hperm, -, hchain⟩, hextremes⟩ :=
    ordering_builtins_iff (σ := FixedHost) ⟨[], ⟨1700000000, 0⟩⟩ values
  obtain ⟨⟨most, hmost, hcallMost, hgreatest, hgt⟩, least, hleast, hcallLeast, hsmallest, hlt⟩ := hextremes hne
  refine ⟨hne, rfl, ⟨sorted, hsort, hperm, hchain.mpr ?_⟩, ⟨most, hmost, hcallMost, hgt.mpr ?_⟩,
    least, hleast, hcallLeast, hlt.mpr ?_⟩
  · have hascending : values.Pairwise (· ≤ ·) := by decide
    refine List.Pairwise.imp ?_ hascending
    exact fun hle _ => hle
  · have hbound : values.all (· ≤ 1800000000000000000) = true := by decide
    have hle := (hgreatest.key_le fun a b => Double.ofInt64_lt_iff b a).2 1800000000000000000 (by simp [values])
    obtain rfl | rfl | rfl | rfl := hcases most hmost
    · exact absurd hle (by decide)
    · exact absurd hle (by decide)
    · exact absurd hle (by decide)
    · exact fun a ha _ => of_decide_eq_true (List.all_eq_true.mp hbound a ha)
  · have hbound : values.all (3 ≤ ·) = true := by decide
    have hle := (hsmallest.key_le fun a b => (Double.ofInt64_lt_iff a b).trans Int.neg_lt_neg_iff.symm).2 3
      (by simp [values])
    obtain rfl | rfl | rfl | rfl := hcases least hleast
    · exact fun a ha _ => of_decide_eq_true (List.all_eq_true.mp hbound a ha)
    · exact absurd hle (by decide)
    · exact absurd hle (by decide)
    · exact absurd hle (by decide)

/-- Two times in nanoseconds that have one double keep their order, and the first of them is both the
greatest and the least. -/
theorem ordering_builtins_of_one_double :
    let call (name : String) (values : List Value) : Run FixedHost Value :=
      Registry.builtins.call ⟨[], ⟨1700000000, 0⟩⟩ name [.list values]
    let falling : List Value := [.int 1700000000000000001, .int 1700000000000000000]
    let rising : List Value := [.int 1700000000000000000, .int 1700000000000000001]
    call "sort" falling = pure (.list falling) ∧
      BinaryOp.lt.apply (.int 1700000000000000000) (.int 1700000000000000001) = .ok (.bool true) ∧
      call "max" rising = pure (.int 1700000000000000000) ∧
      BinaryOp.gt.apply (.int 1700000000000000001) (.int 1700000000000000000) = .ok (.bool true) ∧
      call "min" falling = pure (.int 1700000000000000001) := by
  intro call falling rising
  refine ⟨?_, by rw [BinaryOp.lt_apply_int]; rfl, ?_, by rw [BinaryOp.gt_apply_int]; rfl, ?_⟩
  · have hsorted : sortedInts [1700000000000000001, 1700000000000000000] =
        [1700000000000000001, 1700000000000000000] :=
      List.mergeSort_of_pairwise (by decide)
    have hsort := sort_ints [1700000000000000001, 1700000000000000000]
    rw [hsorted] at hsort
    exact (call_sort ..).trans (congrArg (fun r => Run.ofExcept (r.map Value.list)) hsort)
  · exact (call_greatest _ (by simp) _).trans (congrArg Run.ofExcept rfl)
  · exact (call_least _ (by simp) _).trans (congrArg Run.ofExcept rfl)

end

end TradingRules.Builtin
