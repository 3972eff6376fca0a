import TradingRules.Builtin.Library
import TradingRules.Proofs.Eval.Folding

/-!
# Questions about the position

A question about the position depends on four fields alone (`Question.holds_congr`). Where the names of
these fields are leaves of the context, the map of everything below `trade.` has the same fields
(`HoldsPosition.field?_folded`), so that the question is answered alike with the map and without it.
-/

namespace TradingRules

open TradingRules.Field (qualified)

namespace Builtin.Trade

variable {context other : Context} {args args' : List Value}

inductive Question where
  | isOpen
  | isLong
  | isShort
  | isFlat
  | isProfitable
  deriving DecidableEq, Repr

namespace Question

def name : Question → String
  | isOpen => "is_trade_open"
  | isLong => "is_long"
  | isShort => "is_short"
  | isFlat => "is_flat"
  | isProfitable => "is_profitable"

def holds : Question → List Value → Context → Bool
  | isOpen => Trade.isOpen
  | isLong => Trade.isLong
  | isShort => Trade.isShort
  | isFlat => fun args context => !Trade.isOpen args context
  | isProfitable => Trade.isProfitable

theorem find?_builtins (q : Question) : ∃ description,
    Dict.find? q.name Registry.builtins = some (question q.name description q.holds) := by
  rw [Registry.builtins, Dict.find?_ofList]
  cases q <;> exact ⟨_, rfl⟩

end Question

def asked : List String := ["side", "is_open", "pnl_pct", "unrealized_pnl"]

theorem side_congr (h : ∀ field ∈ asked, field? args context field = field? args' other field) :
    side args context = side args' other := by
  rw [side, h "side" (by decide), side]

theorem isOpen_congr (h : ∀ field ∈ asked, field? args context field = field? args' other field) :
    isOpen args context = isOpen args' other := by
  rw [isOpen, h "is_open" (by decide), side_congr h, isOpen]

/-- No question depends on more than these fields. -/
theorem Question.holds_congr (h : ∀ field ∈ asked, field? args context field = field? args' other field)
    (q : Question) : q.holds args context = q.holds args' other := by
  cases q with
  | isOpen => exact isOpen_congr h
  | isLong => simp only [holds, Trade.isLong, isOpen_congr h, side_congr h]
  | isShort => simp only [holds, Trade.isShort, isOpen_congr h, side_congr h]
  | isFlat => simp only [holds, isOpen_congr h]
  | isProfitable =>
    simp only [holds, Trade.isProfitable, isOpen_congr h, h "pnl_pct" (by decide),
      h "unrealized_pnl" (by decide)]

theorem isOpen_of_isLong (h : isLong args context = true) : isOpen args context = true :=
  (Bool.and_eq_true_iff.mp h).1

theorem isOpen_of_isShort (h : isShort args context = true) : isOpen args context = true :=
  (Bool.and_eq_true_iff.mp h).1

theorem isShort_of_isLong (h : isLong args context = true) : isShort args context = false := by
  have hside : side args context = "long" := by simpa using (Bool.and_eq_true_iff.mp h).2
  simp [isShort, hside]

-- ---------------------------------------------------------------------------
-- Calls
-- ---------------------------------------------------------------------------

def Accepted (args : List Value) : Prop := args = [] ∨ ∃ fields, args = [.map fields]

section
variable {σ : Type} [RegimeHost σ] {registry : Registry} {q : Question}

theorem Question.call_of_accepted (h : Dict.find? q.name registry = Dict.find? q.name Registry.builtins)
    (hargs : Accepted args) :
    (registry.call context q.name args : Run σ Value) = pure (.bool (q.holds args context)) := by
  obtain ⟨description, hfind⟩ := q.find?_builtins
  rw [Registry.call, h, hfind]
  rcases hargs with rfl | ⟨fields, rfl⟩ <;> rfl

theorem Question.call_of_not_accepted (h : Dict.find? q.name registry = Dict.find? q.name Registry.builtins)
    (hargs : ¬Accepted args) : ∃ expected got,
    (registry.call context q.name args : Run σ Value) = throw (.argument q.name expected got) := by
  obtain ⟨description, hfind⟩ := q.find?_builtins
  rw [Registry.call, h, hfind]
  match args with
  | [] => exact absurd (.inl rfl) hargs
  | [.map fields] => exact absurd (.inr ⟨fields, rfl⟩) hargs
  | [.null] | [.bool _] | [.int _] | [.float _] | [.str _] | [.list _] => exact ⟨_, _, rfl⟩
  | first :: second :: rest =>
    refine ⟨"0 to 1 arguments", Arity.ofCall (rest.length + 2), ?_⟩
    have hcheck : (question q.name description q.holds).signature.check q.name (first :: second :: rest) =
        .error (.argument q.name "0 to 1 arguments" (Arity.ofCall (rest.length + 2))) := by
      simp [Signature.check, question, Function.withArity, Function.of, Arity.accepts]
      rfl
    simp only [hcheck]
    rfl

end

-- ---------------------------------------------------------------------------
-- The folded position
-- ---------------------------------------------------------------------------

/-- There are names below `trade.`, no value under `trade` itself, and no name that goes on below that of a
field which is asked for. A context has a name once. -/
structure HoldsPosition (context : Context) : Prop where
  distinct : (context.values.map Prod.fst).Nodup
  position : ∃ name ∈ Dict.names context.values, IsBelow "trade" name
  folded : context.find? "trade" = none
  leaves : ∀ field ∈ asked, ∀ e ∈ context.values, ¬IsBelow (qualified "trade" field) e.1

theorem HoldsPosition.lookup?_trade (h : HoldsPosition context) :
    context.lookup? "trade" = some (.map (Context.fold "trade" context.values)) := by
  obtain ⟨name, hmem, hbelow⟩ := h.position
  rw [Context.lookup?, h.folded]
  exact Context.namespace?_of_isBelow hmem hbelow

theorem HoldsPosition.field?_folded (h : HoldsPosition context) :
    ∀ field ∈ asked, field? [.map (Context.fold "trade" context.values)] context field =
      field? [] context field := by
  intro field hfield
  have hplain : ∀ field ∈ asked, '.' ∉ field.toList := by decide
  exact Context.find?_fold_of_leaf h.distinct (hplain field hfield) (h.leaves field hfield)

section
variable {σ : Type} [RegimeHost σ] {registry : Registry}

theorem eval_call_nil {q : Question}
    (h : Dict.find? q.name registry = Dict.find? q.name Registry.builtins) (scope : Scope) :
    (Eval.eval registry context scope (.call q.name []) : Run σ Value) = pure (.bool (q.holds [] context)) := by
  simp only [Eval.eval, Eval.evalAll, pure_bind]
  exact Question.call_of_accepted h (.inl rfl)

theorem eval_call_trade {q : Question} {scope : Scope}
    (h : Dict.find? q.name registry = Dict.find? q.name Registry.builtins)
    (hfree : scope.binds "trade" = false) (hposition : HoldsPosition context) :
    (Eval.eval registry context scope (.call q.name [.ident "trade"]) : Run σ Value) =
      pure (.bool (q.holds [] context)) := by
  have hident : (Eval.eval registry context scope (.ident "trade") : Run σ Value) =
      pure (.map (Context.fold "trade" context.values)) := by
    have hscope : scope.find? "trade" = none := by simpa [Scope.binds, Scope.find?] using hfree
    rw [Eval.eval, hscope, hposition.lookup?_trade]
  rw [Eval.eval]
  simp only [Eval.evalAll, hident, pure_bind]
  rw [Question.call_of_accepted h (.inr ⟨_, rfl⟩), q.holds_congr hposition.field?_folded]

/-- Put to the folded position, a question has the answer that it has without an argument, whatever the values
of the fields are. In every context the answers to the same arguments fit together, and arguments that one
question refuses are refused by all. -/
theorem questions_agree
    (hregistry : ∀ q : Question, Dict.find? q.name registry = Dict.find? q.name Registry.builtins) :
    (∀ context scope, scope.binds "trade" = false → HoldsPosition context → ∀ q : Question, ∃ answer : Bool,
      (Eval.eval registry context scope (.call q.name []) : Run σ Value) = pure (.bool answer) ∧
      (Eval.eval registry context scope (.call q.name [.ident "trade"]) : Run σ Value) = pure (.bool answer)) ∧
    ∀ context args,
      let call (q : Question) : Run σ Value := registry.call context q.name args
      (Accepted args → ∃ opened long short : Bool,
        call .isOpen = pure (.bool opened) ∧ call .isFlat = pure (.bool !opened) ∧
        call .isLong = pure (.bool long) ∧ call .isShort = pure (.bool short) ∧
        (long → opened) ∧ (short → opened) ∧ ¬(long ∧ short)) ∧
      (¬Accepted args → ∀ q : Question, ∃ expected got, call q = throw (.argument q.name expected got)) := by
  constructor
  · intro context scope hfree hposition q
    exact ⟨q.holds [] context, eval_call_nil (hregistry q) scope, eval_call_trade (hregistry q) hfree hposition⟩
  intro context args
  constructor
  · intro hargs
    have hcall (q : Question) : (registry.call context q.name args : Run σ Value) =
        pure (.bool (q.holds args context)) := Question.call_of_accepted (hregistry q) hargs
    refine ⟨_, _, _, hcall .isOpen, hcall .isFlat, hcall .isLong, hcall .isShort, isOpen_of_isLong,
      isOpen_of_isShort, ?_⟩
    rintro ⟨hlong, hshort⟩
    have hnot := isShort_of_isLong hlong
    rw [show Trade.isShort args context = true from hshort] at hnot
    cases hnot
  · intro hargs q
    exact Question.call_of_not_accepted (hregistry q) hargs

def shortPosition : Context :=
  ⟨[("bar.close", .int 3), ("trade.bar.open", .int 4), ("trade.is_open", .str "yes"),
    ("trade.side", .str "SHORT"), ("trade.unrealized_pnl", .int 7)], ⟨1700000000, 0⟩⟩

theorem holdsPosition_shortPosition : HoldsPosition shortPosition where
  distinct := by decide
  position := ⟨"trade.side", by decide, by decide⟩
  folded := rfl
  leaves := by decide

theorem questions_shortPosition :
    (∀ q : Question, Dict.find? q.name Registry.builtins = Dict.find? q.name Registry.builtins) ∧
      Scope.binds [("x", .null)] "trade" = false ∧ HoldsPosition shortPosition ∧
      (Eval.eval Registry.builtins shortPosition [("x", .null)] (.call "is_short" [.ident "trade"]) :
        Run FixedHost Value) = pure (.bool true) ∧
      Accepted [.map [("is_open", .bool true)]] ∧ ¬Accepted [.str "long"] ∧
      ∃ expected got, (Registry.builtins.call shortPosition "is_flat" [.str "long"] : Run FixedHost Value) =
        throw (.argument "is_flat" expected got) := by
  have hfree : Scope.binds [("x", .null)] "trade" = false := by decide
  have hrefused : ¬Accepted [.str "long"] := by simp [Accepted]
  have hregistry (q : Question) :
      Dict.find? q.name Registry.builtins = Dict.find? q.name Registry.builtins := rfl
  have hagree := questions_agree (σ := FixedHost) hregistry
  obtain ⟨answer, hnil, htrade⟩ :=
    hagree.1 shortPosition [("x", .null)] hfree holdsPosition_shortPosition .isShort
  have hanswer : answer = Question.isShort.holds [] shortPosition := by
    simpa using Run.pure_inj.mp (hnil.symm.trans (eval_call_nil rfl _))
  have hshort : Question.isShort.holds [] shortPosition = true := by decide
  rw [hanswer, hshort] at htrade
  exact ⟨hregistry, hfree, holdsPosition_shortPosition, htrade, .inr ⟨_, rfl⟩, hrefused,
    (hagree.2 shortPosition [.str "long"]).2 hrefused .isFlat⟩

end

end Builtin.Trade
end TradingRules
