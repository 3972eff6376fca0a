import Mathlib.Data.List.Basic
import TradingRules.Builtin.Library

/-!
# What the built-in functions read

A body is given the whole context. The built-in ones look at the clock and at a few fixed names: the
position, the label of the regime, the current and the previous bar. Two contexts that agree there
give every call of a built-in function the same run.
-/

namespace TradingRules

namespace Builtin

def contextNames : List String :=
  ["trade.side", "trade.is_open", "trade.pnl_pct", "trade.unrealized_pnl", "regime.current"] ++
    Price.barFields.flatMap fun field => ["chart." ++ field, "chart.prev_" ++ field]

structure SameReads (c₁ c₂ : Context) : Prop where
  clock : c₁.clock = c₂.clock
  values : ∀ name ∈ contextNames, c₁.find? name = c₂.find? name

end Builtin

open Builtin

/-- A body to which contexts with the same reads are the same. -/
def Body.ReadsOnly : Body → Prop
  | .reads f =>
    ∀ c₁ c₂, SameReads c₁ c₂ → ∀ args report, f args ⟨c₁, report⟩ = f args ⟨c₂, report⟩
  | .recomputes => True

def AllReadOnly (functions : List Function) : Prop := ∀ f ∈ functions, f.body.ReadsOnly

theorem AllReadOnly.nil : AllReadOnly [] := fun _ h => nomatch h

theorem AllReadOnly.cons {f : Function} {rest : List Function} (hf : f.body.ReadsOnly)
    (hrest : AllReadOnly rest) : AllReadOnly (f :: rest) :=
  List.forall_mem_cons.mpr ⟨hf, hrest⟩

theorem Body.ReadsOnly.of_args {g : List Value → Except Failure Value} :
    (Body.reads fun args _ => g args).ReadsOnly :=
  fun _ _ _ _ _ => rfl

namespace Builtin

variable {c₁ c₂ : Context}

-- ---------------------------------------------------------------------------
-- The position and the regime
-- ---------------------------------------------------------------------------

namespace Trade

theorem field?_same (h : SameReads c₁ c₂) (args : List Value) {name : String}
    (hname : "trade." ++ name ∈ contextNames) : field? args c₁ name = field? args c₂ name := by
  unfold field?
  split
  · rfl
  · exact h.values _ hname

theorem side_same (h : SameReads c₁ c₂) (args : List Value) : side args c₁ = side args c₂ := by
  unfold side
  rw [field?_same h args (by decide)]

theorem isOpen_same (h : SameReads c₁ c₂) (args : List Value) :
    isOpen args c₁ = isOpen args c₂ := by
  unfold isOpen
  rw [field?_same h args (by decide), side_same h args]

theorem isProfitable_same (h : SameReads c₁ c₂) (args : List Value) :
    isProfitable args c₁ = isProfitable args c₂ := by
  unfold isProfitable
  rw [isOpen_same h args, field?_same h args (by decide), field?_same h args (by decide)]

theorem inRegime_same (h : SameReads c₁ c₂) (args : List Value) (report : Option RegimeReport) :
    inRegime args ⟨c₁, report⟩ = inRegime args ⟨c₂, report⟩ := by
  simp only [inRegime, currentRegime?, h.values "regime.current" (by decide)]

theorem question_readsOnly {name description : String} {holds : List Value → Context → Bool}
    (hholds : ∀ c₁ c₂, SameReads c₁ c₂ → ∀ args, holds args c₁ = holds args c₂) :
    (question name description holds).body.ReadsOnly := by
  intro c₁ c₂ h args report
  exact congrArg (fun b => Except.ok (Value.bool b)) (hholds c₁ c₂ h args)

theorem functions_readOnly : AllReadOnly functions := by
  refine .cons (question_readsOnly fun _ _ h => isOpen_same h) ?_
  refine .cons (question_readsOnly fun c₁ c₂ h args => ?_) ?_
  · rw [isLong, isLong, isOpen_same h, side_same h]
  refine .cons (question_readsOnly fun c₁ c₂ h args => ?_) ?_
  · rw [isShort, isShort, isOpen_same h, side_same h]
  refine .cons (question_readsOnly fun c₁ c₂ h args => ?_) ?_
  · rw [isOpen_same h]
  refine .cons (question_readsOnly fun _ _ h => isProfitable_same h) ?_
  exact .cons (fun _ _ h => inRegime_same h) .nil

theorem hostFunctions_readOnly : AllReadOnly hostFunctions :=
  .cons trivial <| .cons (fun _ _ _ _ _ => rfl) <| .cons (fun _ _ _ _ _ => rfl) <|
    .cons (fun _ _ _ _ _ => rfl) .nil

end Trade

-- ---------------------------------------------------------------------------
-- Bars
-- ---------------------------------------------------------------------------

theorem Price.candle_same (h : SameReads c₁ c₂) (offset : Int64) :
    candle offset c₁ = candle offset c₂ := by
  have hbar (lead : String) (hlead : ∀ field ∈ barFields, lead ++ field ∈ contextNames) :
      (barFields.filterMap fun field => (c₁.find? (lead ++ field)).map fun v => (field, v)) =
        barFields.filterMap fun field => (c₂.find? (lead ++ field)).map fun v => (field, v) := by
    refine List.filterMap_congr fun field hfield => ?_
    rw [h.values _ (hlead field hfield)]
  unfold candle
  by_cases hcurrent : offset = 0
  · simp only [if_pos hcurrent, pure_bind, hbar "chart." (by decide)]
  by_cases hprevious : offset = -1
  · simp only [if_neg hcurrent, if_pos hprevious, pure_bind, hbar "chart.prev_" (by decide)]
  · simp only [if_neg hcurrent, if_neg hprevious]
    rfl

theorem Price.functions_readOnly : AllReadOnly Price.functions := by
  unfold functions
  iterate 16 refine .cons .of_args ?_
  exact .cons (fun _ _ h args _ => candle_same h (integer args 0)) .nil

-- ---------------------------------------------------------------------------
-- The clock
-- ---------------------------------------------------------------------------

namespace Time

theorem timeOr_same (h : SameReads c₁ c₂) (name : String) (arg : Option Value)
    (report : Option RegimeReport) : timeOr name arg ⟨c₁, report⟩ = timeOr name arg ⟨c₂, report⟩ := by
  simp only [timeOr, h.clock]

theorem elapsed_same (h : SameReads c₁ c₂) (name : String) (since : Int64)
    (report : Option RegimeReport) :
    elapsed name since ⟨c₁, report⟩ = elapsed name since ⟨c₂, report⟩ := by
  simp only [elapsed, h.clock]

theorem barsSince_same (h : SameReads c₁ c₂) (since : Int64) (bar : Value)
    (report : Option RegimeReport) :
    barsSince since bar ⟨c₁, report⟩ = barsSince since bar ⟨c₂, report⟩ := by
  simp only [barsSince, elapsed_same h]

theorem inSession_same (h : SameReads c₁ c₂) (args : List Value) (report : Option RegimeReport) :
    inSession args ⟨c₁, report⟩ = inSession args ⟨c₂, report⟩ := by
  simp only [inSession, timeOr_same h]

theorem clockPart_readsOnly (name description : String) (part : Instant → Nat) :
    (clockPart name description part).body.ReadsOnly := by
  intro c₁ c₂ h args report
  exact congrArg (· >>= fun t => pure (Value.int (Int64.ofNat (part t))))
    (timeOr_same h name args[0]? report)

theorem functions_readOnly : AllReadOnly functions := by
  refine .cons (fun _ _ h _ _ => ?_) ?_
  · simp only [h.clock]
  refine .cons .of_args ?_
  refine .cons (fun _ _ h args report => ?_) ?_
  · simp only [elapsed_same h]
  refine .cons (fun _ _ h args report => ?_) ?_
  · simp only [barsSince_same h]
  refine .cons .of_args (.cons .of_args ?_)
  iterate 3 refine .cons (clockPart_readsOnly _ _ _) ?_
  refine .cons (fun _ _ h args report => ?_) ?_
  · simp only [timeOr_same h]
  exact .cons .of_args (.cons (fun _ _ h => inSession_same h) .nil)

end Time

-- ---------------------------------------------------------------------------
-- The other functions
-- ---------------------------------------------------------------------------

theorem Math.functions_readOnly : AllReadOnly Math.functions := by
  unfold functions
  repeat refine .cons .of_args ?_
  exact .nil

theorem Text.functions_readOnly : AllReadOnly Text.functions := by
  unfold functions
  repeat refine .cons .of_args ?_
  exact .nil

theorem Collection.functions_readOnly : AllReadOnly Collection.functions := by
  unfold functions
  repeat refine .cons .of_args ?_
  exact .nil

end Builtin

/-- No built-in function reads more of a context than the clock and the names above. -/
theorem Registry.builtins_readOnly : AllReadOnly (Dict.values builtins) :=
  forall_builtins Math.functions_readOnly Trade.functions_readOnly Price.functions_readOnly
    Time.functions_readOnly Text.functions_readOnly Collection.functions_readOnly
    Trade.hostFunctions_readOnly

theorem Registry.call_same {σ : Type} [RegimeHost σ] {r₁ r₂ : Registry} {c₁ c₂ : Context}
    {name : String} (hentry : Dict.find? name r₁ = Dict.find? name r₂)
    (hbuiltin : ∀ f, Dict.find? name r₁ = some f → f ∈ Dict.values builtins)
    (h : SameReads c₁ c₂) (args : List Value) :
    (r₁.call c₁ name args : Run σ Value) = r₂.call c₂ name args := by
  unfold call
  rw [← hentry]
  cases hfound : Dict.find? name r₁ with
  | none => rfl
  | some f =>
    have hreads := builtins_readOnly f (hbuiltin f hfound)
    cases hbody : f.body with
    | recomputes => simp only [hbody]
    | reads body =>
      rw [hbody] at hreads
      have hsame := hreads c₁ c₂ h args
      simp only [hbody, hsame]

end TradingRules
