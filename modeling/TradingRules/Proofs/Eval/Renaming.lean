import TradingRules.Proofs.Eval.Visits
import TradingRules.Proofs.Eval.Paths
import TradingRules.Proofs.Expr.Renaming

/-!
# The variable of a comprehension under another name

What the variable is called does not matter: a name that occurs nowhere in the body can take its place,
whatever the context and the enclosing comprehensions have under either name. The value is the same, or the
same failure; only a path that is missing below the variable is missing under its new name
(`comprehension_renamed`).
-/

namespace TradingRules

-- ---------------------------------------------------------------------------
-- Runs that end in the same way
-- ---------------------------------------------------------------------------

/-- The same failure, but that a path missing below `x` is missing below `y`. -/
inductive Failure.Renamed (x y : String) : Failure → Failure → Prop where
  | same {e} : Renamed x y e e
  | path {fields} (hfields : fields ≠ []) :
      Renamed x y (.unknownVariable (dotted x fields)) (.unknownVariable (dotted y fields))

/-- Two ways to end with one value or, up to the name of the variable, one failure, and with one host. -/
inductive SameEnd (x y : String) {α σ : Type} :
    Except Failure α × Option σ → Except Failure α × Option σ → Prop where
  | value {a host} : SameEnd x y (.ok a, host) (.ok a, host)
  | failure {e e' host} (h : Failure.Renamed x y e e') : SameEnd x y (.error e, host) (.error e', host)

theorem SameEnd.refl {x y : String} {α σ : Type} : ∀ o : Except Failure α × Option σ, SameEnd x y o o
  | (.ok _, _) => .value
  | (.error _, _) => .failure .same

namespace Run

variable {σ α β : Type} {x y : String} {m m' instead instead' : Run σ α} {f f' : α → Run σ β}

def SameUpTo (x y : String) (m m' : Run σ α) : Prop :=
  ∀ host, SameEnd x y (m.outcome host) (m'.outcome host)

theorem SameUpTo.refl (m : Run σ α) : m.SameUpTo x y m := fun host => .refl (m.outcome host)

theorem sameUpTo_throw {e e' : Failure} (h : Failure.Renamed x y e e') :
    SameUpTo x y (throw e : Run σ α) (throw e') := fun _ => .failure h

theorem SameUpTo.bind (hm : m.SameUpTo x y m') (hf : ∀ a, (f a).SameUpTo x y (f' a)) :
    (m >>= f).SameUpTo x y (m' >>= f') := by
  intro host
  have hend := hm host
  rw [outcome_bind, outcome_bind]
  revert hend
  generalize m.outcome host = o
  generalize m'.outcome host = o'
  rintro (_ | h)
  · exact hf _ _
  · exact .failure h

theorem SameUpTo.bind_right (hm : m.SameUpTo x y m') (f : α → Run σ β) :
    (m >>= f).SameUpTo x y (m' >>= f) :=
  hm.bind fun a => .refl (f a)

end Run

namespace Eval

open Run (SameUpTo sameUpTo_throw)
open TradingRules.Expr (ofPath identifiers identifiersAll renamed renamedAll)

variable {σ : Type} {x y var root : String} {scope scope' : Scope} {v item : Value} {fields : List String}
  {kind : Comprehension} {body body' : Value → Run σ Value}

theorem sameUpTo_orMissing {α : Type} {action action' instead instead' : Run σ α}
    (hm : action.SameUpTo x y action') (hinstead : instead.SameUpTo x y instead') :
    (orMissing action instead).SameUpTo x y (orMissing action' instead') := by
  intro host
  have hend := hm host
  rw [outcome_orMissing, outcome_orMissing]
  revert hend
  generalize action.outcome host = o
  generalize action'.outcome host = o'
  rintro (_ | @⟨e, _, _, _ | _⟩)
  · exact .value
  · cases e with
    | unknownVariable name => exact hinstead _
    | _ => exact .failure .same
  · exact hinstead _

theorem sameUpTo_comprehend (h : ∀ item, (body item).SameUpTo x y (body' item)) (matched : Bool)
    (items : List Value) :
    (comprehend kind body matched items).SameUpTo x y (comprehend kind body' matched items) := by
  induction items generalizing matched with
  | nil => exact .refl _
  | cons item rest ih =>
    have hconsing (v : Value) (matched : Bool) :
        (comprehend.consing v (comprehend kind body matched rest)).SameUpTo x y
          (comprehend.consing v (comprehend kind body' matched rest)) := (ih matched).bind_right _
    rw [comprehend, comprehend]
    refine (h item).bind fun v => ?_
    cases kind with
    | map => exact hconsing v matched
    | all =>
      refine SameUpTo.bind (.refl _) fun keep => ?_
      cases keep
      · exact .refl _
      · exact ih matched
    | «exists» =>
      refine SameUpTo.bind (.refl _) fun keep => ?_
      cases keep
      · exact ih matched
      · exact .refl _
    | existsOne =>
      refine SameUpTo.bind (.refl _) fun keep => ?_
      dsimp only
      split
      · exact .refl _
      · exact ih _
    | filter =>
      refine SameUpTo.bind (.refl _) fun keep => ?_
      cases keep
      · exact ih matched
      · exact hconsing item matched

theorem sameEnd_answer (d : Descent) (hfields : fields ≠ []) (host : Option σ) :
    SameEnd x y (d.answer (dotted x fields), host) (d.answer (dotted y fields), host) := by
  cases d with
  | reached w => exact .value
  | lacking => exact .failure (.path hfields)
  | stuck field w => exact .failure .same

-- ---------------------------------------------------------------------------
-- Scopes
-- ---------------------------------------------------------------------------

theorem find?_cons (var name : String) (item : Value) (scope : Scope) :
    Scope.find? ((var, item) :: scope) name = if name = var then some item else scope.find? name := by
  rw [Scope.find?, List.lookup_cons]
  by_cases hname : name = var
  · simp [hname]
  · have hne : (name == var) = false := beq_false_of_ne hname
    simp [hname, hne, Scope.find?]

/-- `x` has on the one side what `y` has on the other, and every other name has the same on both. -/
structure Rescoped (x y : String) (scope scope' : Scope) : Prop where
  named : ∃ v, scope.find? x = some v ∧ scope'.find? y = some v
  others : ∀ name, name ≠ x → name ≠ y → scope.find? name = scope'.find? name

theorem rescoped_cons (x y : String) (item : Value) (scope : Scope) :
    Rescoped x y ((x, item) :: scope) ((y, item) :: scope) where
  named := ⟨item, by rw [find?_cons, if_pos rfl], by rw [find?_cons, if_pos rfl]⟩
  others name hx hy := by rw [find?_cons, find?_cons, if_neg hx, if_neg hy]

theorem Rescoped.cons (h : Rescoped x y scope scope') (hx : var ≠ x) (hy : var ≠ y) (item : Value) :
    Rescoped x y ((var, item) :: scope) ((var, item) :: scope') where
  named := by
    obtain ⟨v, hold, hnew⟩ := h.named
    exact ⟨v, by rw [find?_cons, if_neg hx.symm, hold], by rw [find?_cons, if_neg hy.symm, hnew]⟩
  others name hnx hny := by rw [find?_cons, find?_cons, h.others name hnx hny]

/-- Where `x` is bound once more the two sides differ in `y` alone. -/
theorem Rescoped.shadowed (h : Rescoped x y scope scope') (item : Value) {name : String} (hy : name ≠ y) :
    Scope.find? ((x, item) :: scope) name = Scope.find? ((x, item) :: scope') name := by
  rw [find?_cons, find?_cons]
  by_cases hx : name = x
  · rw [if_pos hx, if_pos hx]
  · rw [if_neg hx, if_neg hx, h.others name hx hy]

-- ---------------------------------------------------------------------------
-- Names that an evaluation does not read
-- ---------------------------------------------------------------------------

variable [RegimeHost σ] {registry : Registry} {context : Context}

theorem eval_member_congr {target : Expr} {field : String}
    (h : ∀ name ∈ target.identifiers, scope.find? name = scope'.find? name)
    (htarget : (eval registry context scope target : Run σ Value) = eval registry context scope' target) :
    (eval registry context scope (.member target field) : Run σ Value) =
      eval registry context scope' (.member target field) := by
  have hbound : target.root?.map scope.binds = target.root?.map scope'.binds := by
    cases hroot : target.root? with
    | none => rfl
    | some root =>
      have hfind := h root (Expr.mem_identifiers_of_root? hroot)
      simp only [Scope.find?] at hfind
      simp only [Option.map_some, Scope.binds, hfind]
  simp only [eval, hbound, htarget]

mutual

theorem eval_congr : ∀ (scope scope' : Scope) (e : Expr),
    (∀ name ∈ e.identifiers, scope.find? name = scope'.find? name) →
      (eval registry context scope e : Run σ Value) = eval registry context scope' e
  | _, _, .literal _, _ => by simp only [eval]
  | scope, scope', .ident name, h => by simp only [eval, h name (List.mem_singleton_self name)]
  | scope, scope', .member target field, h => eval_member_congr h (eval_congr scope scope' target h)
  | scope, scope', .index target key, h => by
    simp only [eval, eval_congr scope scope' target fun n hn => h n (List.mem_append_left _ hn),
      eval_congr scope scope' key fun n hn => h n (List.mem_append_right _ hn)]
  | scope, scope', .call function args, h => by simp only [eval, evalAll_congr scope scope' args h]
  | scope, scope', .unary op operand, h => by simp only [eval, eval_congr scope scope' operand h]
  | scope, scope', .binary op left right, h => by
    have hleft := eval_congr scope scope' left fun n hn => h n (List.mem_append_left _ hn)
    have hright := eval_congr scope scope' right fun n hn => h n (List.mem_append_right _ hn)
    cases op <;> simp only [eval, hleft, hright]
  | scope, scope', .ternary condition yes no, h => by
    have hbranches := fun n hn => h n (List.mem_append_left _ hn)
    simp only [eval, eval_congr scope scope' condition fun n hn => hbranches n (List.mem_append_left _ hn),
      eval_congr scope scope' yes fun n hn => hbranches n (List.mem_append_right _ hn),
      eval_congr scope scope' no fun n hn => h n (List.mem_append_right _ hn)]
  | scope, scope', .list items, h => by simp only [eval, evalAll_congr scope scope' items h]
  | scope, scope', .comprehension kind range var body, h => by
    have hbody (item : Value) : (eval registry context ((var, item) :: scope) body : Run σ Value) =
        eval registry context ((var, item) :: scope') body := by
      refine eval_congr _ _ body fun n hn => ?_
      rw [find?_cons, find?_cons, h n (List.mem_append_right _ (List.mem_cons_of_mem _ hn))]
    simp only [eval, eval_congr scope scope' range fun n hn => h n (List.mem_append_left _ hn), hbody]
  | scope, scope', .has target, h => by simp only [eval, eval_congr scope scope' target h]

theorem evalAll_congr : ∀ (scope scope' : Scope) (es : List Expr),
    (∀ name ∈ identifiersAll es, scope.find? name = scope'.find? name) →
      (evalAll registry context scope es : Run σ (List Value)) = evalAll registry context scope' es
  | _, _, [], _ => by simp only [evalAll]
  | scope, scope', e :: rest, h => by
    simp only [evalAll, eval_congr scope scope' e fun n hn => h n (List.mem_append_left _ hn),
      evalAll_congr scope scope' rest fun n hn => h n (List.mem_append_right _ hn)]

end

-- ---------------------------------------------------------------------------
-- Paths below a variable
-- ---------------------------------------------------------------------------

/-- A path below a bound variable is read from its value field by field, whatever the context has. -/
theorem outcome_path_of_bound (h : scope.find? root = some v) (fields : List String) (host : Option σ) :
    (eval registry context scope (ofPath root fields)).outcome host =
      ((v.descend fields).answer (dotted root fields), host) := by
  induction fields using List.reverseRecOn with
  | nil =>
    simp only [ofPath, List.foldl_nil, eval, h, Value.descend_nil]
    rfl
  | append_singleton fields field ih =>
    have hbound : scope.binds root = true := congrArg Option.isSome h
    have hpath : (Expr.member (ofPath root fields) field).path? = some (dotted root (fields ++ [field])) := by
      rw [← Expr.ofPath_concat, Expr.path?_ofPath]
    rw [Expr.ofPath_concat, eval]
    simp only [hpath, Expr.root?_ofPath, Option.map_some, Option.getD_some, hbound, if_true,
      Option.isSome_some, Run.outcome_bind, outcome_orMissing, ih]
    cases hend : v.descend fields with
    | reached w =>
      rw [Value.descend_append hend]
      exact outcome_fieldOf _ field w host
    | lacking =>
      rw [Value.descend_append_of_ne (by simp [hend]), hend]
      rfl
    | stuck f w =>
      rw [Value.descend_append_of_ne (by simp [hend]), hend]
      rfl

/-- A path is read from the variable under its new name as it was under the old one. -/
theorem sameUpTo_ofPath (h : Rescoped x y scope scope') (hfresh : root ≠ y) (fields : List String) :
    (eval registry context scope (ofPath root fields) : Run σ Value).SameUpTo x y
      (eval registry context scope' ((ofPath root fields).renamed x y)) := by
  by_cases hroot : root = x
  · subst hroot
    obtain ⟨v, hold, hnew⟩ := h.named
    intro host
    rw [Expr.renamed_ofPath, if_pos rfl, outcome_path_of_bound hold, outcome_path_of_bound hnew]
    cases fields with
    | nil =>
      rw [Value.descend_nil]
      exact .value
    | cons field rest => exact sameEnd_answer _ (List.cons_ne_nil field rest) host
  · have heval : (eval registry context scope (ofPath root fields) : Run σ Value) =
        eval registry context scope' (ofPath root fields) := by
      refine eval_congr scope scope' _ fun name hname => ?_
      rw [Expr.identifiers_ofPath] at hname
      rw [List.mem_singleton.mp hname, h.others root hroot hfresh]
    rw [Expr.renamed_ofPath_of_ne hroot, heval]
    exact .refl _

theorem eval_member_of_no_path {target : Expr} {field : String}
    (h : (Expr.member target field).path? = none) :
    (eval registry context scope (.member target field) : Run σ Value) =
      eval registry context scope target >>= fieldOf (.unknownVariable field) field := by
  rw [eval_member]
  have hwhole : whole? context scope target field = none := by
    rw [whole?, h, Option.bind_none, ite_self]
  simp [hwhole, h]

-- ---------------------------------------------------------------------------
-- The body
-- ---------------------------------------------------------------------------

mutual

/-- The renamed expression evaluates where `y` is bound as the expression does where `x` is. -/
theorem sameUpTo_renamed : ∀ (scope scope' : Scope) (e : Expr), Rescoped x y scope scope' →
    y ∉ e.identifiers → (eval registry context scope e : Run σ Value).SameUpTo x y
      (eval registry context scope' (e.renamed x y))
  | _, _, .literal _, _, _ => by
    simp only [renamed, eval]
    exact .refl _
  | scope, scope', .ident name, hscope, hfresh =>
    sameUpTo_ofPath hscope (List.ne_of_not_mem_cons hfresh).symm []
  | scope, scope', .member target field, hscope, hfresh => by
    have htarget := sameUpTo_renamed scope scope' target hscope hfresh
    cases hpath : (Expr.member target field).path? with
    | none =>
      have hrenamed : (Expr.member (target.renamed x y) field).path? = none :=
        Expr.path?_renamed_of_no_path (e := .member target field) hpath
      rw [renamed, eval_member_of_no_path hpath, eval_member_of_no_path hrenamed]
      exact htarget.bind_right _
    | some path =>
      obtain ⟨root, fields, heq, -⟩ := Expr.eq_ofPath_of_path? hpath
      rw [heq, Expr.identifiers_ofPath] at hfresh
      rw [heq]
      exact sameUpTo_ofPath hscope (List.ne_of_not_mem_cons hfresh).symm fields
  | scope, scope', .index target key, hscope, hfresh => by
    simp only [identifiers, List.mem_append, not_or] at hfresh
    simp only [renamed, eval]
    exact (sameUpTo_renamed scope scope' target hscope hfresh.1).bind fun _ =>
      (sameUpTo_renamed scope scope' key hscope hfresh.2).bind_right _
  | scope, scope', .call function args, hscope, hfresh => by
    simp only [renamed, eval]
    exact (sameUpToAll_renamed scope scope' args hscope hfresh).bind_right _
  | scope, scope', .unary op operand, hscope, hfresh => by
    simp only [renamed, eval]
    exact (sameUpTo_renamed scope scope' operand hscope hfresh).bind_right _
  | scope, scope', .binary op left right, hscope, hfresh => by
    simp only [identifiers, List.mem_append, not_or] at hfresh
    have hleft := sameUpTo_renamed scope scope' left hscope hfresh.1
    have hright := sameUpTo_renamed scope scope' right hscope hfresh.2
    cases op with
    | and =>
      simp only [renamed, eval]
      refine hleft.bind fun v => SameUpTo.bind (.refl _) fun b => ?_
      cases b
      · exact .refl _
      · exact hright.bind_right _
    | or =>
      simp only [renamed, eval]
      refine hleft.bind fun v => SameUpTo.bind (.refl _) fun b => ?_
      cases b
      · exact hright.bind_right _
      · exact .refl _
    | _ =>
      simp only [renamed, eval]
      exact hleft.bind fun _ => hright.bind_right _
  | scope, scope', .ternary condition yes no, hscope, hfresh => by
    simp only [identifiers, List.mem_append, not_or] at hfresh
    simp only [renamed, eval]
    refine (sameUpTo_renamed scope scope' condition hscope hfresh.1.1).bind fun v =>
      SameUpTo.bind (.refl _) fun b => ?_
    cases b
    · exact sameUpTo_renamed scope scope' no hscope hfresh.2
    · exact sameUpTo_renamed scope scope' yes hscope hfresh.1.2
  | scope, scope', .list items, hscope, hfresh => by
    simp only [renamed, eval]
    exact (sameUpToAll_renamed scope scope' items hscope hfresh).bind_right _
  | scope, scope', .comprehension kind range var body, hscope, hfresh => by
    simp only [identifiers, List.mem_append, List.mem_cons, not_or] at hfresh
    obtain ⟨hrange, hvar, hbody⟩ := hfresh
    have hitem (item : Value) : (eval registry context ((var, item) :: scope) body : Run σ Value).SameUpTo x y
        (eval registry context ((var, item) :: scope') (if var = x then body else body.renamed x y)) := by
      by_cases hshadow : var = x
      · subst hshadow
        have heval : (eval registry context ((var, item) :: scope) body : Run σ Value) =
            eval registry context ((var, item) :: scope') body :=
          eval_congr _ _ body fun name hname => hscope.shadowed item (ne_of_mem_of_not_mem hname hbody)
        rw [if_pos rfl, heval]
        exact .refl _
      · rw [if_neg hshadow]
        exact sameUpTo_renamed _ _ body (hscope.cons hshadow (Ne.symm hvar) item) hbody
    simp only [renamed, eval]
    exact (sameUpTo_renamed scope scope' range hscope hrange).bind fun v =>
      SameUpTo.bind (.refl _) fun items => sameUpTo_comprehend hitem false items
  | scope, scope', .has target, hscope, hfresh => by
    simp only [renamed, eval]
    exact sameUpTo_orMissing
      ((sameUpTo_renamed scope scope' target hscope hfresh).bind_right _) (.refl _)

theorem sameUpToAll_renamed : ∀ (scope scope' : Scope) (es : List Expr), Rescoped x y scope scope' →
    y ∉ identifiersAll es → (evalAll registry context scope es : Run σ (List Value)).SameUpTo x y
      (evalAll registry context scope' (renamedAll x y es))
  | _, _, [], _, _ => by
    simp only [renamedAll, evalAll]
    exact .refl _
  | scope, scope', e :: rest, hscope, hfresh => by
    simp only [identifiersAll, List.mem_append, not_or] at hfresh
    simp only [renamedAll, evalAll]
    exact (sameUpTo_renamed scope scope' e hscope hfresh.1).bind fun _ =>
      (sameUpToAll_renamed scope scope' rest hscope hfresh.2).bind_right _

end

/-- A name that occurs nowhere in the body can take the place of a comprehension's variable, whatever the
context and the enclosing comprehensions have under the two names. The free names and the called names stay,
under whatever enclosing variables, and so does the evaluation: the value and the host, or the failure but
for the name of the variable in a missing path. -/
theorem comprehension_renamed (registry : Registry) (context : Context) (kind : Comprehension)
    (range : Expr) (x y : String) {body : Expr} (hfresh : y ∉ body.identifiers) :
    let before := Expr.comprehension kind range x body
    let after := Expr.comprehension kind range y (body.renamed x y)
    after.freeNames = before.freeNames ∧ after.calledNames = before.calledNames ∧
      (∀ bound, after.paths bound = before.paths bound) ∧
      ∀ (scope : Scope) (host : Option σ), SameEnd x y
        ((eval registry context scope before).outcome host)
        ((eval registry context scope after).outcome host) := by
  intro before after
  have hpaths (bound : List String) : after.paths bound = before.paths bound := by
    simp only [before, after, Expr.paths,
      Expr.paths_renamed _ _ body (Expr.rebound_cons x y bound) hfresh]
  have hcalls : after.calls = before.calls := by
    simp only [before, after, Expr.calls, Expr.calls_renamed]
  refine ⟨congrArg Names.ofList (hpaths []), congrArg Names.ofList hcalls, hpaths, fun scope => ?_⟩
  have hbody (item : Value) :
      (eval registry context ((x, item) :: scope) body : Run σ Value).SameUpTo x y
        (eval registry context ((y, item) :: scope) (body.renamed x y)) :=
    sameUpTo_renamed _ _ body (rescoped_cons x y item scope) hfresh
  simp only [before, after, eval]
  exact SameUpTo.bind (.refl _) fun v =>
    SameUpTo.bind (.refl _) fun items => sameUpTo_comprehend hbody false items

def crossed : Context :=
  ⟨[("x", .int 7), ("x.f", .bool true), ("y", .int 9), ("y.f", .bool false)], ⟨1700000000, 0⟩⟩

/-- The new name is that of the enclosing variable and of values in the context, and the comprehension in
the body binds the old one once more. -/
theorem comprehension_renamed_crossed :
    let body : Expr := .binary .and (.member (.ident "x") "f")
      (.comprehension .all (.ident "x") "x" (.ident "x"))
    let before : Expr := .comprehension .map (.list [.ident "y"]) "x" body
    let after : Expr := .comprehension .map (.list [.ident "y"]) "y"
      (.binary .and (.member (.ident "y") "f") (.comprehension .all (.ident "y") "x" (.ident "x")))
    "y" ∉ body.identifiers ∧ after.freeNames = before.freeNames ∧
      after.calledNames = before.calledNames ∧ after.paths ["y"] = before.paths ["y"] ∧
      SameEnd "x" "y"
        ((eval Registry.builtins crossed [("y", .map [])] before).outcome (none : Option FixedHost))
        ((eval Registry.builtins crossed [("y", .map [])] after).outcome none) := by
  intro body before after
  have hfresh : "y" ∉ body.identifiers := by decide
  obtain ⟨hfree, hcalled, hpaths, hend⟩ := comprehension_renamed (σ := FixedHost) Registry.builtins crossed
    .map (.list [.ident "y"]) "x" "y" hfresh
  exact ⟨hfresh, hfree, hcalled, hpaths ["y"], hend [("y", .map [])] none⟩

end Eval

end TradingRules
