import TradingRules.Builtin.Library
import TradingRules.Proofs.Eval.Verdicts
import TradingRules.Proofs.Outcome

/-!
# Functions that look first

A built-in function asks for no argument that its signature does not demand, and looks at the operands of
an operation before it asks for the result. So it has a verdict whatever values it is given. There is one
exception, `clamp`, which is left out here.
-/

namespace TradingRules

@[simp] def Arity.least : Arity → Nat
  | .exact n => n
  | .range least _ => least
  | .atLeast n => n

theorem Arity.least_le_of_accepts {arity : Arity} {count : Nat} (h : arity.accepts count = true) :
    arity.least ≤ count := by
  cases arity <;> simp_all [accepts, least]

/-- A call with arguments that the signature allows is a call of a function, with as many arguments
and of the types that it names. -/
theorem Signature.check_eq_ok {s : Signature} {callee : String} {args : List Value} :
    s.check callee args = .ok () ↔ s.isMacro = false ∧ s.arity.accepts args.length = true ∧
      s.checkTypes callee 0 args = .ok () := by
  unfold check
  split
  · simp_all
  · split <;> simp_all

/-- With arguments that the signature allows the function has a verdict, whatever it sees. -/
def Function.Careful (f : Function) : Prop :=
  match f.body with
  | .reads body => ∀ callee args view, f.signature.check callee args = .ok () →
      HasVerdict (body args view)
  | .recomputes => True

def AllCareful (functions : List Function) : Prop :=
  ∀ f ∈ functions, f.signature.name ≠ "clamp" → f.Careful

theorem Function.Careful.of_least {s : Signature} {body : List Value → View → Except Failure Value}
    (h : ∀ args view, s.arity.least ≤ args.length → HasVerdict (body args view)) :
    Function.Careful ⟨s, .reads body⟩ := fun _ args view hcheck =>
  h args view (Arity.least_le_of_accepts (Signature.check_eq_ok.mp hcheck).2.1)

namespace AllCareful

variable {f : Function} {rest : List Function}

theorem nil : AllCareful [] := fun _ h => nomatch h

theorem cons (hf : f.Careful) (hrest : AllCareful rest) : AllCareful (f :: rest) :=
  List.forall_mem_cons.mpr ⟨fun _ => hf, hrest⟩

theorem cons_clamp (hname : f.signature.name = "clamp") (hrest : AllCareful rest) :
    AllCareful (f :: rest) :=
  List.forall_mem_cons.mpr ⟨fun hne => absurd hname hne, hrest⟩

theorem cons_of_least {s : Signature} {body : List Value → View → Except Failure Value}
    (h : ∀ args view, s.arity.least ≤ args.length → HasVerdict (body args view))
    (hrest : AllCareful rest) : AllCareful (⟨s, .reads body⟩ :: rest) :=
  cons (.of_least h) hrest

end AllCareful

namespace Builtin

@[simp] theorem hasVerdict_argument {args : List Value} {i : Nat} :
    HasVerdict (argument args i) ↔ i < args.length :=
  Strict.hasVerdict_item

@[simp] theorem hasVerdict_finite (name : String) (x : Double) : HasVerdict (finite name x) := by
  simp [finite]

@[simp] theorem hasVerdict_nonzero (x : Double) : HasVerdict (nonzero x) := by
  simp [nonzero]

namespace Math

@[simp] theorem hasVerdict_absolute (v : Value) : HasVerdict (absolute v) := by
  cases v <;> simp [absolute]

theorem numbers_ne_nil {name : String} {args values : List Value}
    (h : numbers name args = .ok values) : values ≠ [] := by
  unfold numbers at h
  obtain ⟨hvalues, h⟩ := Except.guarded_eq_ok.mp h
  split at h
  · cases h
  · cases h
    simpa using hvalues

@[simp] theorem hasVerdict_numbers (name : String) (args : List Value) :
    HasVerdict (numbers name args) := by
  unfold numbers
  extract_lets values check
  have hcheck : HasVerdict (check ()) := by
    unfold check
    split <;> simp
  simp [hcheck]

@[simp] theorem hasVerdict_extremeOf (beats : Double → Double → Bool) (name : String)
    (args : List Value) : HasVerdict (extremeOf beats name args) := by
  simp only [extremeOf, hasVerdict_bind, hasVerdict_numbers, true_and]
  intro values hvalues
  have hlength : 0 < values.length := List.length_pos_iff.mpr (numbers_ne_nil hvalues)
  exact ⟨Strict.hasVerdict_item.mpr hlength, fun best _ => ⟨Strict.hasVerdict_rest.mpr hlength,
    fun rest _ => hasVerdict_pure⟩⟩

@[simp] theorem hasVerdict_roundTo (x : Double) (places : Int64) : HasVerdict (roundTo x places) := by
  simp [roundTo]

theorem functions_careful : AllCareful functions := by
  unfold functions
  refine .cons_of_least (fun args _ h => ?_) ?_
  · simp at h ⊢
    omega
  refine .cons_of_least (fun args _ h => by simp) ?_
  refine .cons_of_least (fun args _ h => by simp [least]) ?_
  refine .cons_of_least (fun args _ h => by simp [greatest]) ?_
  iterate 8 refine .cons_of_least (fun args _ h => by simp) ?_
  refine .cons_clamp rfl ?_
  iterate 7 refine .cons_of_least (fun args _ h => by simp) ?_
  iterate 2
    refine .cons_of_least (fun args _ h => ?_) ?_
    · simp at h ⊢
      omega
  exact .cons_of_least (fun args _ h => by simp) .nil

end Math

namespace Trade

theorem hasVerdict_inRegime {args : List Value} (h : 0 < args.length) (view : View) :
    HasVerdict (inRegime args view) := by
  unfold inRegime
  split
  · simp
  · simp only [hasVerdict_bind, hasVerdict_argument, h, true_and]
    intro v _
    split <;> simp

theorem functions_careful : AllCareful functions := by
  unfold functions
  iterate 5 refine .cons_of_least (fun args view h => by simp) ?_
  exact .cons_of_least (fun args view h => hasVerdict_inRegime h view) .nil

theorem hostFunctions_careful : AllCareful hostFunctions :=
  .cons trivial <| .cons_of_least (fun _ _ _ => by simp) <| .cons_of_least (fun _ _ _ => by simp) <|
    .cons_of_least (fun _ _ _ => by simp) .nil

end Trade

namespace Price

@[simp] theorem hasVerdict_isLongSide (name side : String) : HasVerdict (isLongSide name side) := by
  unfold isLongSide
  split <;> simp

@[simp] theorem hasVerdict_candle (offset : Int64) (context : Context) :
    HasVerdict (candle offset context) := by
  simp [candle]

theorem functions_careful : AllCareful functions := by
  unfold functions
  iterate 17 refine .cons_of_least (fun args view h => by simp) ?_
  exact .nil

end Price

namespace Time

@[simp] theorem hasVerdict_instant (name : String) (seconds : Int64) :
    HasVerdict (instant name seconds) := by
  unfold instant
  split <;> simp

@[simp] theorem hasVerdict_timeOr (name : String) (arg : Option Value) (view : View) :
    HasVerdict (timeOr name arg view) := by
  unfold timeOr
  split <;> simp

@[simp] theorem hasVerdict_elapsed (name : String) (since : Int64) (view : View) :
    HasVerdict (elapsed name since view) := by
  unfold elapsed
  split <;> simp

@[simp] theorem hasVerdict_hourMinute (name text : String) : HasVerdict (hourMinute name text) := by
  unfold hourMinute
  split <;> simp

@[simp] theorem hasVerdict_timestamp (v : Value) : HasVerdict (timestamp v) := by
  cases v with
  | str text =>
    unfold timestamp
    dsimp only
    split <;> simp
  | _ => simp [timestamp]

@[simp] theorem hasVerdict_timeframe (v : Value) : HasVerdict (timeframe v) := by
  cases v <;> simp [timeframe]

@[simp] theorem hasVerdict_barsSince (since : Int64) (bar : Value) (view : View) :
    HasVerdict (barsSince since bar view) := by
  simp only [barsSince, hasVerdict_bind, hasVerdict_timeframe, true_and]
  intro length _
  split
  · simp
  · rename_i hpositive
    simp only [hasVerdict_bind, hasVerdict_elapsed, Strict.hasVerdict_quotient, true_and]
    refine fun seconds _ => ⟨⟨?_, fun _ => ?_⟩, fun _ _ => hasVerdict_pure⟩
    all_goals
      rintro rfl
      revert hpositive
      decide

@[simp] theorem hasVerdict_isNewHour (before now : Int64) : HasVerdict (isNewHour before now) := by
  have h : HasVerdict (Strict.quotient before 3600) := by simp
  simp [isNewHour]

theorem hasVerdict_inSession {args : List Value} (h : 2 ≤ args.length) (view : View) :
    HasVerdict (inSession args view) := by
  simp [inSession, h]

theorem functions_careful : AllCareful functions := by
  unfold functions
  refine .cons_of_least (fun args view h => by simp) ?_
  refine .cons_of_least (fun args view h => ?_) ?_
  · simp at h ⊢
    omega
  refine .cons_of_least (fun args view h => by simp) ?_
  refine .cons_of_least (fun args view h => ?_) ?_
  · simp at h ⊢
    omega
  iterate 6 refine .cons_of_least (fun args view h => by simp) ?_
  refine .cons_of_least (fun args view h => ?_) ?_
  · split <;> simp
  exact .cons_of_least (fun args view h => hasVerdict_inSession h view) .nil

end Time

namespace Collection

@[simp] theorem hasVerdict_size (v : Value) : HasVerdict (size v) := by
  cases v <;> simp [size]

@[simp] theorem hasVerdict_bools (name : String) (values : List Value) :
    HasVerdict (bools name values) := by
  unfold bools
  induction values with
  | nil => simp
  | cons v rest ih =>
    simp only [List.mapM_cons, hasVerdict_bind, ih, hasVerdict_pure, implies_true, and_true]
    split <;> simp

theorem hasVerdict_sumCore (whole : Int) (fits : Bool) (real : Double) (ints : Bool)
    (values : List Value) : HasVerdict (sumCore whole fits real ints values) := by
  fun_induction sumCore whole fits real ints values <;> simp_all

@[simp] theorem hasVerdict_sum (values : List Value) : HasVerdict (sum values) :=
  hasVerdict_sumCore 0 true 0 true values

@[simp] theorem hasVerdict_nonempty (name : String) (values : List Value) :
    HasVerdict (nonempty name values) := by
  simp [nonempty]

theorem length_pos_of_nonempty {name : String} {values found : List Value}
    (h : nonempty name values = .ok found) : 0 < found.length := by
  unfold nonempty at h
  split at h
  · cases h
  · rename_i hvalues
    cases h
    exact List.length_pos_iff.mpr (by simpa using hvalues)

@[simp] theorem hasVerdict_average (values : List Value) : HasVerdict (average values) := by
  simp [average]

@[simp] theorem hasVerdict_indexOf (hay needle : Value) : HasVerdict (indexOf hay needle) := by
  unfold indexOf
  split <;> simp

@[simp] theorem hasVerdict_contains (hay needle : Value) : HasVerdict (contains hay needle) := by
  unfold contains
  split <;> simp

theorem bound_le (i : Int64) (length : Nat) : bound i length ≤ length := Nat.min_le_right _ _

theorem hasVerdict_slice {values : List Value} {start stop : Nat} (h : stop ≤ values.length) :
    HasVerdict (slice values start stop) := by
  simp [slice]
  omega

@[simp] theorem hasVerdict_sort (values : List Value) : HasVerdict (sort values) := by
  simp [sort]

theorem functions_careful : AllCareful functions := by
  unfold functions
  refine .cons_of_least (fun args view h => ?_) ?_
  · simp at h ⊢
    omega
  iterate 9 refine .cons_of_least (fun args view h => by simp) ?_
  refine .cons_of_least (fun args view h => ?_) ?_
  · simp only [hasVerdict_bind, hasVerdict_nonempty, Strict.hasVerdict_item, true_and]
    exact fun values hvalues => length_pos_of_nonempty hvalues
  refine .cons_of_least (fun args view h => ?_) ?_
  · simp only [hasVerdict_bind, hasVerdict_nonempty, Strict.hasVerdict_item, true_and]
    exact fun values hvalues => Nat.sub_lt (length_pos_of_nonempty hvalues) Nat.one_pos
  refine .cons_of_least (fun args view h => ?_) ?_
  · simp at h ⊢
    exact ⟨by omega, fun _ _ => by omega⟩
  refine .cons_of_least (fun args view h => hasVerdict_slice ?_) ?_
  · split
    · exact bound_le _ _
    · exact Nat.le_refl _
  iterate 3 refine .cons_of_least (fun args view h => by simp) ?_
  refine .cons_of_least (fun args view h => by simp [Math.greatest]) ?_
  refine .cons_of_least (fun args view h => by simp [Math.least]) ?_
  refine .cons_of_least (fun args view h => by simp) ?_
  refine .cons_of_least (fun args view h => ?_) .nil
  simp at h ⊢
  omega

end Collection

namespace Text

@[simp] theorem hasVerdict_cannot (name what : String) : HasVerdict (cannot name what) := by
  simp [cannot]

@[simp] theorem hasVerdict_toInt (v : Value) : HasVerdict (toInt v) := by
  cases v with
  | str s =>
    unfold toInt
    dsimp only
    split <;> simp
  | _ => simp [toInt]

@[simp] theorem hasVerdict_toDouble (v : Value) : HasVerdict (toDouble v) := by
  cases v with
  | str s =>
    unfold toDouble
    dsimp only
    split <;> simp
  | _ => simp [toDouble]

@[simp] theorem hasVerdict_toBool (v : Value) : HasVerdict (toBool v) := by
  cases v with
  | str s =>
    unfold toBool
    dsimp only
    split <;> simp
  | _ => simp [toBool]

@[simp] theorem hasVerdict_substring (text : List Char) (start stop : Int) :
    HasVerdict (substring text start stop) := by
  simp [substring]
  omega

@[simp] theorem hasVerdict_split (text separator : String) : HasVerdict (split text separator) := by
  simp [Text.split]

theorem functions_careful : AllCareful functions := by
  unfold functions
  iterate 5
    refine .cons_of_least (fun args view h => ?_) ?_
    · simp at h ⊢
      omega
  refine .cons_of_least (fun args view h => ?_) ?_
  · simp at h ⊢
    exact ⟨by omega, fun _ _ => by omega⟩
  iterate 9 refine .cons_of_least (fun args view h => by simp) ?_
  exact .nil

end Text

end Builtin

open Builtin in
/-- All built-in functions but `clamp` have a verdict. -/
theorem Registry.builtins_careful : AllCareful (Dict.values builtins) :=
  forall_builtins Math.functions_careful Trade.functions_careful Price.functions_careful
    Time.functions_careful Text.functions_careful Collection.functions_careful
    Trade.hostFunctions_careful

end TradingRules
