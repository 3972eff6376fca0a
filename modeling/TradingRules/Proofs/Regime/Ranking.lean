import TradingRules.Proofs.Outcome
import TradingRules.Proofs.Regime.BarClose
import Mathlib.Data.List.Pairwise

/-!
# The order of the rules does not matter

Rules are accepted if each is sound by itself and no two share a label or a priority
(`ofRules_eq_ok_iff`); neither asks in which order they stand. An accepted list has one arrangement by
priority, so that the first rule that matches is the one of the highest priority among all that match
(`snapshot_perm`).
-/

namespace TradingRules.Regime

open TradingRules.Builtin.Trade (unknownRegime)

variable {r q : Rule} {rules rules' accepted : List Rule} {indicators : Indicators}

-- ---------------------------------------------------------------------------
-- Sound rules
-- ---------------------------------------------------------------------------

structure Rule.Sound (r : Rule) : Prop where
  named : Text.trim r.label.toList ≠ []
  known : r.label ≠ unknownRegime
  ranked : unknownPriority < r.priority
  conditional : r.conditions ≠ []
  bounded : ∀ c ∈ r.conditions, c.isBounded = true

def Rule.Apart (r q : Rule) : Prop := r.priority ≠ q.priority ∧ r.label ≠ q.label

theorem Rule.Apart.symm (h : r.Apart q) : q.Apart r := ⟨h.1.symm, h.2.symm⟩

instance : Std.Symm Rule.Apart := ⟨fun _ _ h => h.symm⟩

theorem guard_eq_none {α : Type} {p : Prop} [Decidable p] {fault : α} {next : Option α} :
    (if p then some fault else next) = none ↔ ¬p ∧ next = none := by
  by_cases h : p <;> simp [h]

theorem Rule.fault?_eq_none_iff :
    r.fault? accepted = none ↔ r.Sound ∧ ∀ q ∈ accepted, q.Apart r := by
  simp only [fault?, guard_eq_none, Bool.or_eq_true, not_or, beq_iff_eq, Bool.not_eq_true,
    List.any_eq_false, Option.map_eq_none_iff, List.find?_eq_none, Bool.not_eq_true', Int64.not_le,
    List.isEmpty_eq_false_iff, Bool.not_eq_false]
  constructor
  · rintro ⟨⟨hnamed, hknown⟩, hranked, hpriority, hlabel, hconditional, hbounded⟩
    exact ⟨⟨hnamed, hknown, hranked, hconditional, hbounded⟩,
      fun q hq => ⟨hpriority q hq, hlabel q hq⟩⟩
  · rintro ⟨h, hapart⟩
    exact ⟨⟨h.named, h.known⟩, h.ranked, fun q hq => (hapart q hq).1, fun q hq => (hapart q hq).2,
      h.conditional, h.bounded⟩

namespace Classifier

/-- The rules still to check are sound and apart, from those accepted before as well. -/
theorem checkFrom_eq_ok_iff : checkFrom accepted rules = .ok () ↔
    (∀ r ∈ rules, r.Sound) ∧ rules.Pairwise Rule.Apart ∧ ∀ r ∈ rules, ∀ q ∈ accepted, q.Apart r := by
  induction rules generalizing accepted with
  | nil => simp [checkFrom]
  | cons first rest ih =>
    rw [checkFrom]
    cases hfault : first.fault? accepted with
    | some fault =>
      refine iff_of_false nofun fun ⟨hsound, _, hapart⟩ => ?_
      have hnone := Rule.fault?_eq_none_iff.mpr
        ⟨hsound first List.mem_cons_self, hapart first List.mem_cons_self⟩
      rw [hfault] at hnone
      cases hnone
    | none =>
      obtain ⟨hsound, hapart⟩ := Rule.fault?_eq_none_iff.mp hfault
      simp only [ih, List.forall_mem_cons, List.pairwise_cons]
      constructor
      · rintro ⟨hrest, hpairs, hbefore⟩
        exact ⟨⟨hsound, hrest⟩, ⟨fun r hr => (hbefore r hr).1, hpairs⟩, hapart,
          fun r hr => (hbefore r hr).2⟩
      · rintro ⟨⟨-, hrest⟩, ⟨hfirst, hpairs⟩, -, hbefore⟩
        exact ⟨hrest, hpairs, fun r hr => ⟨hfirst r hr, hbefore r hr⟩⟩

structure Acceptable (rules : List Rule) : Prop where
  nonempty : rules ≠ []
  sound : ∀ r ∈ rules, r.Sound
  apart : rules.Pairwise Rule.Apart

theorem ofRules_eq_ok_iff {c : Classifier} :
    ofRules rules = .ok c ↔ Acceptable rules ∧ c = ⟨byPriority rules⟩ := by
  cases rules with
  | nil => exact iff_of_false nofun fun h => h.1.nonempty rfl
  | cons first rest =>
    simp only [ofRules, List.isEmpty_cons, Bool.false_eq_true, ↓reduceIte, Except.map_eq_ok]
    constructor
    · rintro ⟨_, hok, rfl⟩
      obtain ⟨hsound, hapart, -⟩ := checkFrom_eq_ok_iff.mp hok
      exact ⟨⟨nofun, hsound, hapart⟩, rfl⟩
    · rintro ⟨h, rfl⟩
      exact ⟨(), checkFrom_eq_ok_iff.mpr ⟨h.sound, h.apart, fun _ _ => nofun⟩, rfl⟩

theorem isOk_ofRules_iff : (ofRules rules).isOk = true ↔ Acceptable rules := by
  rw [Except.isOk_iff]
  constructor
  · rintro ⟨c, hc⟩
    exact (ofRules_eq_ok_iff.mp hc).1
  · exact fun h => ⟨_, ofRules_eq_ok_iff.mpr ⟨h, rfl⟩⟩

theorem Acceptable.perm (h : Acceptable rules) (hperm : rules.Perm rules') : Acceptable rules' where
  nonempty hnil := h.nonempty (List.perm_nil.mp (hnil ▸ hperm))
  sound r hr := h.sound r (hperm.mem_iff.mpr hr)
  apart := h.apart.perm hperm Rule.Apart.symm

-- ---------------------------------------------------------------------------
-- Rules by priority
-- ---------------------------------------------------------------------------

theorem perm_byPriority (rules : List Rule) : (byPriority rules).Perm rules := List.mergeSort_perm _ _

theorem descending_byPriority (rules : List Rule) :
    (byPriority rules).Pairwise fun r q => q.priority ≤ r.priority := by
  refine (List.pairwise_mergeSort ?_ ?_ rules).imp fun h => of_decide_eq_true h
  · intro a b c hab hbc
    exact decide_eq_true (Int64.le_trans (of_decide_eq_true hbc) (of_decide_eq_true hab))
  · intro a b
    simpa using Int64.le_total b.priority a.priority

theorem Acceptable.priority_inj (h : Acceptable rules) (hr : r ∈ rules) (hq : q ∈ rules)
    (hpriority : r.priority = q.priority) : r = q := by
  by_contra hne
  exact (h.apart.forall hr hq hne).1 hpriority

/-- An acceptable list has one arrangement by priority. -/
theorem byPriority_of_perm (h : Acceptable rules) (hperm : rules.Perm rules') :
    byPriority rules' = byPriority rules := by
  have hsame := ((perm_byPriority rules).trans hperm).trans (perm_byPriority rules').symm
  refine (hsame.eq_of_pairwise ?_ (descending_byPriority rules) (descending_byPriority rules')).symm
  intro r q hr hq hrq hqr
  have hr := (perm_byPriority rules).mem_iff.mp hr
  have hq := hperm.mem_iff.mpr ((perm_byPriority rules').mem_iff.mp hq)
  exact h.priority_inj hr hq (Int64.le_antisymm hqr hrq)

end Classifier

-- ---------------------------------------------------------------------------
-- The rule that matches
-- ---------------------------------------------------------------------------

theorem Rule.isMet_iff : r.isMet indicators = true ↔ ∀ a ∈ r.conditions,
    ∃ x, Dict.find? a.indicator indicators = some x ∧ x.isNaN = false ∧ a.holds x = true := by
  rw [isMet, List.all_eq_true]
  refine forall₂_congr fun a _ => ?_
  unfold Condition.isMet
  cases Dict.find? a.indicator indicators <;> simp

structure Rule.Leads (r : Rule) (rules : List Rule) (indicators : Indicators) : Prop where
  mem : r ∈ rules
  met : r.isMet indicators = true
  highest : ∀ q ∈ rules, q.isMet indicators = true → q.priority ≤ r.priority

def Unmet (rules : List Rule) (indicators : Indicators) : Prop :=
  ∀ r ∈ rules, r.isMet indicators = false

namespace Classifier

variable {c : Classifier}

/-- In descending order the first rule that matches has the highest priority. -/
theorem leads_of_find? (hsorted : rules.Pairwise fun r q => q.priority ≤ r.priority)
    (h : rules.find? (fun r => r.isMet indicators) = some r) : r.Leads rules indicators := by
  obtain ⟨hmet, front, back, rfl, hfront⟩ := List.find?_eq_some_iff_append.mp h
  refine ⟨List.mem_append_right _ List.mem_cons_self, hmet, fun q hq hqmet => ?_⟩
  rcases List.mem_append.mp hq with hq | hq
  · have hunmet : q.isMet indicators = false := by simpa using hfront q hq
    rw [hunmet] at hqmet
    cases hqmet
  · rcases List.mem_cons.mp hq with rfl | hq
    · exact Int64.le_refl _
    · exact (List.pairwise_cons.mp (List.pairwise_append.mp hsorted).2.1).1 q hq

theorem rule?_cases (h : ofRules rules = .ok c) (indicators : Indicators) :
    (∃ r, r.Leads rules indicators ∧ c.rule? indicators = some r) ∨
      Unmet rules indicators ∧ c.rule? indicators = none := by
  obtain ⟨-, rfl⟩ := ofRules_eq_ok_iff.mp h
  have hmem : ∀ {r}, r ∈ byPriority rules ↔ r ∈ rules := (perm_byPriority rules).mem_iff
  cases hrule : (⟨byPriority rules⟩ : Classifier).rule? indicators with
  | some r =>
    obtain ⟨hr, hmet, hhighest⟩ := leads_of_find? (descending_byPriority rules) hrule
    exact .inl ⟨r, ⟨hmem.mp hr, hmet, fun q hq => hhighest q (hmem.mpr hq)⟩, rfl⟩
  | none =>
    refine .inr ⟨fun r hr => ?_, rfl⟩
    simpa using List.find?_eq_none.mp hrule r (hmem.mpr hr)

/-- The label and the priority that the rules give indicators. -/
inductive Gives (rules : List Rule) (indicators : Indicators) : String → Int64 → Prop
  | leader {r : Rule} (h : r.Leads rules indicators) : Gives rules indicators r.label r.priority
  | unknown (h : Unmet rules indicators) : Gives rules indicators unknownRegime unknownPriority

theorem gives_snapshot (h : ofRules rules = .ok c) (indicators : Indicators) (moment : Moment)
    (time : Instant) :
    Gives rules indicators (c.snapshot indicators moment time).label
      (c.snapshot indicators moment time).priority := by
  rcases rule?_cases h indicators with ⟨r, hleads, hrule⟩ | ⟨hunmet, hrule⟩
  · simpa only [snapshot, hrule] using Gives.leader hleads
  · simpa only [snapshot, hrule] using Gives.unknown hunmet

/-- A rule is not named or ranked as the unknown regime is, so that either tells whether one matches. -/
theorem Gives.unknown_iff {label : String} {priority : Int64} (hrules : Acceptable rules)
    (h : Gives rules indicators label priority) :
    (label = unknownRegime ↔ Unmet rules indicators) ∧
      (priority = unknownPriority ↔ Unmet rules indicators) := by
  cases h with
  | leader hleads =>
    have hsound := hrules.sound _ hleads.mem
    have hmet : ¬Unmet rules indicators := fun hunmet =>
      Bool.false_ne_true ((hunmet _ hleads.mem).symm.trans hleads.met)
    have hranked : ∀ {p}, unknownPriority < p → p ≠ unknownPriority :=
      fun hlt heq => Int64.lt_irrefl (heq ▸ hlt)
    exact ⟨iff_of_false hsound.known hmet, iff_of_false (hranked hsound.ranked) hmet⟩
  | unknown hunmet => exact ⟨iff_of_true rfl hunmet, iff_of_true rfl hunmet⟩

theorem Acceptable.nodup (h : Acceptable rules) :
    (rules.map Rule.priority).Nodup ∧ (rules.map Rule.label).Nodup :=
  ⟨List.pairwise_map.mpr (h.apart.imp And.left), List.pairwise_map.mpr (h.apart.imp And.right)⟩

/-- Rules are accepted or refused whatever their order is, and make up one classifier. Their priorities
differ, as their labels do, and are above that of the unknown regime. Indicators get the label and the
priority of the rule of the highest priority among all that match, and are unknown exactly if none
matches; a condition on an indicator that is missing, or not a number, is not met. -/
theorem snapshot_perm (hperm : rules.Perm rules') :
    (ofRules rules').isOk = (ofRules rules).isOk ∧
    ∀ c, ofRules rules = .ok c → ofRules rules' = .ok c ∧
      (rules.map Rule.priority).Nodup ∧ (rules.map Rule.label).Nodup ∧
      (∀ r ∈ rules, unknownPriority < r.priority) ∧
      ∀ indicators moment time,
        let s := c.snapshot indicators moment time
        c.label indicators = s.label ∧ Gives rules indicators s.label s.priority ∧
        (s.label = unknownRegime ↔ Unmet rules indicators) ∧
        (s.priority = unknownPriority ↔ Unmet rules indicators) ∧
        ∀ r ∈ rules, r.isMet indicators = true ↔ ∀ a ∈ r.conditions,
          ∃ x, Dict.find? a.indicator indicators = some x ∧ x.isNaN = false ∧ a.holds x = true := by
  refine ⟨?_, fun c hc => ?_⟩
  · rw [Bool.eq_iff_iff, isOk_ofRules_iff, isOk_ofRules_iff]
    exact ⟨fun h => h.perm hperm.symm, fun h => h.perm hperm⟩
  · obtain ⟨hrules, rfl⟩ := ofRules_eq_ok_iff.mp hc
    have hother := ofRules_eq_ok_iff.mpr
      ⟨hrules.perm hperm, (congrArg mk (byPriority_of_perm hrules hperm)).symm⟩
    refine ⟨hother, hrules.nodup.1, hrules.nodup.2, fun r hr => (hrules.sound r hr).ranked, ?_⟩
    intro indicators moment time s
    have hgives := gives_snapshot hc indicators moment time
    obtain ⟨hlabel, hpriority⟩ := hgives.unknown_iff hrules
    exact ⟨(label_snapshot _ indicators moment time).symm, hgives, hlabel, hpriority,
      fun r _ => Rule.isMet_iff⟩

def calmAndWild : List Rule :=
  [⟨"CALM", 10, [condition "rsi" .atLeast 40]⟩, ⟨"WILD", 20, [condition "rsi" .atLeast 60]⟩]

theorem label_of_gives_calmAndWild {label : String} {priority : Int64}
    (h : Gives calmAndWild [("rsi", 70)] label priority) : label = "WILD" := by
  have hwild : ⟨"WILD", 20, [condition "rsi" .atLeast 60]⟩ ∈ calmAndWild :=
    List.mem_cons_of_mem _ List.mem_cons_self
  have hmet : (Rule.mk "WILD" 20 [condition "rsi" .atLeast 60]).isMet [("rsi", 70)] = true := by
    decide +kernel
  cases h with
  | @leader r hleads =>
    rcases List.mem_cons.mp hleads.mem with rfl | hrest
    · exact absurd (hleads.highest _ hwild hmet) (by decide)
    · rw [List.mem_singleton.mp hrest]
  | unknown hunmet =>
    rw [hunmet _ hwild] at hmet
    cases hmet

theorem snapshot_perm_calmAndWild : calmAndWild.Perm calmAndWild.reverse ∧
    ∃ c, ofRules calmAndWild = .ok c ∧ ofRules calmAndWild.reverse = .ok c ∧
      c.label [("rsi", 70)] = "WILD" ∧ c.label [("rsi", .notANumber)] = unknownRegime := by
  have hperm : calmAndWild.Perm calmAndWild.reverse := (List.reverse_perm _).symm
  have haccepted : (ofRules calmAndWild).isOk = true := by decide +kernel
  obtain ⟨c, hc⟩ := Except.isOk_iff.mp haccepted
  obtain ⟨hother, -, -, -, hgives⟩ := (snapshot_perm hperm).2 c hc
  refine ⟨hperm, c, hc, hother, ?_, ?_⟩
  · obtain ⟨hlabel, hgiven, -⟩ := hgives [("rsi", 70)] .live ⟨0, 0⟩
    rw [hlabel]
    exact label_of_gives_calmAndWild hgiven
  · obtain ⟨hlabel, -, hunknown, -⟩ := hgives [("rsi", .notANumber)] .live ⟨0, 0⟩
    rw [hlabel, hunknown]
    have hnone : calmAndWild.all (fun r => !r.isMet [("rsi", .notANumber)]) = true := by decide +kernel
    exact fun r hr => by simpa using List.all_eq_true.mp hnone r hr

end Classifier

end TradingRules.Regime
