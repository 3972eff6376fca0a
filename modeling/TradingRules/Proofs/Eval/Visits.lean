import Mathlib.Logic.Relation
import TradingRules.Proofs.Eval.Runs

/-!
# What an evaluation visits

To evaluate an expression some of its parts are evaluated, each in a scope and from a host of its own
(`Starts`): a lookup, a short circuit or an answer that is known early leaves the others out. The
calls that an evaluation makes are those that it visits and whose arguments all yield (`Makes`). An
evaluation aborts exactly if a call it makes aborts (`Point.aborts_iff`).
-/

namespace TradingRules

/-- Whether the right operand is evaluated, by the value of the left one. -/
def BinaryOp.goesOn : BinaryOp → Value → Bool
  | .and, .bool b => b
  | .or, .bool b => !b
  | .and, _ | .or, _ => false
  | _, _ => true

/-- Whether one element has matched, after one more element whose body has the value `v`; `none` if
that ends the comprehension. -/
def Comprehension.goesOn? (matched : Bool) : Comprehension → Value → Option Bool
  | .map, _ => some matched
  | .filter, .bool _ => some matched
  | .all, .bool keep => if keep then some matched else none
  | .exists, .bool keep => if keep then none else some matched
  | .existsOne, .bool keep => if keep && matched then none else some (matched || keep)
  | _, _ => none

namespace Eval

variable {σ : Type}

/-- What a path that no comprehension binds is in the context as a whole. -/
def whole? (context : Context) (scope : Scope) (target : Expr) (field : String) : Option Value :=
  if (target.root?.map scope.binds).getD false then none
  else (Expr.member target field).path?.bind context.lookup?

/-- A comprehension over the elements comes to the element `item`, from the host `host'`. -/
inductive Reaches (kind : Comprehension) (body : Value → Run σ Value) :
    Bool → List Value → Option σ → Value → Option σ → Prop where
  | here {matched item rest host} : Reaches kind body matched (item :: rest) host item host
  | later {matched matched' first v rest host next item host'}
      (hbody : (body first).Yields host v next) (hgoes : kind.goesOn? matched v = some matched')
      (hrest : Reaches kind body matched' rest next item host') :
      Reaches kind body matched (first :: rest) host item host'

structure Point (σ : Type) where
  scope : Scope
  expr : Expr
  host : Option σ

section

variable [RegimeHost σ] (registry : Registry) (context : Context)

/-- Evaluating at a point evaluates at another one, a part of its expression. -/
inductive Starts : Point σ → Point σ → Prop where
  | target {scope target field host} (hwhole : whole? context scope target field = none) :
      Starts ⟨scope, .member target field, host⟩ ⟨scope, target, host⟩
  | indexed {scope target key host} : Starts ⟨scope, .index target key, host⟩ ⟨scope, target, host⟩
  | key {scope target key host v next}
      (htarget : (eval registry context scope target).Yields host v next) :
      Starts ⟨scope, .index target key, host⟩ ⟨scope, key, next⟩
  | argument {scope function before e after host vs next}
      (hbefore : (evalAll registry context scope before).Yields host vs next) :
      Starts ⟨scope, .call function (before ++ e :: after), host⟩ ⟨scope, e, next⟩
  | item {scope before e after host vs next}
      (hbefore : (evalAll registry context scope before).Yields host vs next) :
      Starts ⟨scope, .list (before ++ e :: after), host⟩ ⟨scope, e, next⟩
  | operand {scope op operand host} : Starts ⟨scope, .unary op operand, host⟩ ⟨scope, operand, host⟩
  | left {scope op left right host} :
      Starts ⟨scope, .binary op left right, host⟩ ⟨scope, left, host⟩
  | right {scope op left right host v next}
      (hleft : (eval registry context scope left).Yields host v next) (hgoes : op.goesOn v = true) :
      Starts ⟨scope, .binary op left right, host⟩ ⟨scope, right, next⟩
  | condition {scope condition yes no host} :
      Starts ⟨scope, .ternary condition yes no, host⟩ ⟨scope, condition, host⟩
  | branch {scope condition yes no host b next}
      (hcondition : (eval registry context scope condition).Yields host (.bool b) next) :
      Starts ⟨scope, .ternary condition yes no, host⟩ ⟨scope, if b then yes else no, next⟩
  | range {scope kind range var body host} :
      Starts ⟨scope, .comprehension kind range var body, host⟩ ⟨scope, range, host⟩
  | body {scope kind range var body host items next item host'}
      (hrange : (eval registry context scope range >>= elements kind).Yields host items next)
      (hitem : Reaches kind (fun item => eval registry context ((var, item) :: scope) body) false
        items next item host') :
      Starts ⟨scope, .comprehension kind range var body, host⟩ ⟨(var, item) :: scope, body, host'⟩
  | has {scope target host} : Starts ⟨scope, .has target, host⟩ ⟨scope, target, host⟩

/-- Evaluating at a point calls a function with values, from the host `host'`. -/
inductive Makes (p : Point σ) (function : String) (values : List Value) (host' : Option σ) :
    Prop where
  | intro {scope args host}
      (hvisits : Relation.ReflTransGen (Starts registry context) p ⟨scope, .call function args, host⟩)
      (hargs : (evalAll registry context scope args).Yields host values host')

def Point.Aborts (p : Point σ) : Prop := (eval registry context p.scope p.expr).Aborts p.host

end

-- ---------------------------------------------------------------------------
-- The small steps
-- ---------------------------------------------------------------------------

section

variable {host next : Option σ} {matched : Bool} {kind : Comprehension} {item v : Value}
  {rest items : List Value} {body : Value → Run σ Value} {operation : String} {b : Bool}

theorem not_aborts_wantBool (operation : String) (v : Value) :
    ¬(wantBool operation v : Run σ Bool).Aborts host := by
  cases v <;> simp [wantBool]

theorem yields_wantBool :
    (wantBool operation v : Run σ Bool).Yields host b next ↔ v = .bool b ∧ host = next := by
  cases v with
  | bool a =>
    constructor
    · rintro ⟨⟩
      exact ⟨rfl, rfl⟩
    · rintro ⟨⟨⟩, rfl⟩
      exact Run.yields_pure
  | _ => exact iff_of_false nofun fun h => nomatch h.1

theorem aborts_asked {m : Run σ Value} {f : Bool → Run σ Value} :
    (m >>= fun v => wantBool operation v >>= f).Aborts host ↔
      m.Aborts host ∨ ∃ b next, m.Yields host (.bool b) next ∧ (f b).Aborts next := by
  rw [Run.aborts_bind]
  refine or_congr_right ⟨?_, ?_⟩
  · rintro ⟨v, next, hv, h⟩
    rcases Run.aborts_bind.mp h with h | ⟨b, next', hb, h⟩
    · exact absurd h (not_aborts_wantBool operation v)
    · obtain ⟨rfl, rfl⟩ := yields_wantBool.mp hb
      exact ⟨b, next, hv, h⟩
  · rintro ⟨b, next, hb, h⟩
    exact ⟨.bool b, next, hb, Run.aborts_bind.mpr (.inr ⟨b, next, yields_wantBool.mpr ⟨rfl, rfl⟩, h⟩)⟩

theorem not_aborts_fieldOf (path field : String) (v : Value) :
    ¬(fieldOf (.unknownVariable path) field v : Run σ Value).Aborts host := by
  cases v with
  | map fields =>
    unfold fieldOf
    dsimp only
    split <;> simp
  | _ => simp [fieldOf]

theorem not_aborts_elements (kind : Comprehension) (v : Value) :
    ¬(elements kind v : Run σ (List Value)).Aborts host := by
  cases v <;> simp [elements]

/-- Only a missing variable is caught. -/
theorem aborts_orMissing {α : Type} {action instead : Run σ α} (h : ∀ host, ¬instead.Aborts host) :
    (orMissing action instead).Aborts host ↔ action.Aborts host := by
  unfold Run.Aborts orMissing
  rw [Run.outcome_tryCatch]
  rcases action.outcome host with ⟨e | a, next⟩
  · cases e with
    | unknownVariable name => exact iff_of_false (h next) nofun
    | _ => exact Iff.rfl
  · exact Iff.rfl

theorem aborts_consing (v : Value) (rest : Run σ Value) :
    (comprehend.consing v rest).Aborts host ↔ rest.Aborts host := by
  refine Run.aborts_bind_of_not fun w next => ?_
  cases w <;> simp

theorem aborts_comprehend_cons : (comprehend kind body matched (item :: rest)).Aborts host ↔
      (body item).Aborts host ∨ ∃ v next, (body item).Yields host v next ∧
        ∃ matched', kind.goesOn? matched v = some matched' ∧
          (comprehend kind body matched' rest).Aborts next := by
  rw [comprehend, Run.aborts_bind]
  refine or_congr_right (exists_congr fun v => exists_congr fun next => and_congr_right fun _ => ?_)
  cases kind with
  | map => simp [Comprehension.goesOn?, aborts_consing]
  | _ =>
    cases v with
    | bool keep =>
      cases keep <;> cases matched <;>
        simp [Comprehension.goesOn?, wantPredicate, aborts_consing]
    | _ => simp [Comprehension.goesOn?, wantPredicate]

theorem aborts_comprehend_nil : ¬(comprehend kind body matched []).Aborts host := by
  cases kind <;> exact Run.aborts_pure

/-- A comprehension aborts at an element that it comes to. -/
theorem aborts_comprehend : (comprehend kind body matched items).Aborts host ↔
    ∃ item host', Reaches kind body matched items host item host' ∧ (body item).Aborts host' := by
  constructor
  · intro h
    induction items generalizing matched host with
    | nil => exact absurd h aborts_comprehend_nil
    | cons item rest ih =>
      rcases aborts_comprehend_cons.mp h with h | ⟨v, next, hbody, matched', hgoes, h⟩
      · exact ⟨item, host, .here, h⟩
      · obtain ⟨found, host', hreach, habort⟩ := ih h
        exact ⟨found, host', .later hbody hgoes hreach, habort⟩
  · rintro ⟨item, host', hreach, habort⟩
    induction hreach with
    | here => exact aborts_comprehend_cons.mpr (.inl habort)
    | later hbody hgoes _ ih =>
      exact aborts_comprehend_cons.mpr (.inr ⟨_, _, hbody, _, hgoes, ih habort⟩)

end

-- ---------------------------------------------------------------------------
-- Where an expression aborts
-- ---------------------------------------------------------------------------

section

variable [RegimeHost σ] {registry : Registry} {context : Context} {scope : Scope}
  {host next : Option σ} {field function var : String} {v : Value} {vs : List Value}
  {e target key operand left right condition yes no range body : Expr} {items args rest : List Expr}

-- Here an evaluation is opened by one step at a time.
attribute [local simp] eval evalAll

theorem aborts_evalAll_cons :
    (evalAll registry context scope (e :: rest)).Aborts host ↔
      (eval registry context scope e).Aborts host ∨
        ∃ v next, (eval registry context scope e).Yields host v next ∧
          (evalAll registry context scope rest).Aborts next := by
  simp only [evalAll, Run.aborts_bind, Run.aborts_pure, and_false, exists_false, or_false]

theorem yields_evalAll_cons {host' : Option σ}
    (he : (eval registry context scope e).Yields host v next)
    (hrest : (evalAll registry context scope rest).Yields next vs host') :
    (evalAll registry context scope (e :: rest)).Yields host (v :: vs) host' := by
  simp only [evalAll, Run.yields_bind]
  exact ⟨v, next, he, vs, host', hrest, Run.yields_pure⟩

theorem aborts_evalAll : (evalAll registry context scope items).Aborts host ↔
    ∃ before e after vs next, items = before ++ e :: after ∧
      (evalAll registry context scope before).Yields host vs next ∧
        (eval registry context scope e).Aborts next := by
  constructor
  · intro h
    induction items generalizing host with
    | nil =>
      simp only [evalAll] at h
      exact absurd h Run.aborts_pure
    | cons e rest ih =>
      rcases aborts_evalAll_cons.mp h with h | ⟨v, next, he, h⟩
      · refine ⟨[], e, rest, [], host, rfl, ?_, h⟩
        simp only [evalAll]
        exact Run.yields_pure
      · obtain ⟨before, found, after, vs, host', rfl, hbefore, habort⟩ := ih h
        exact ⟨e :: before, found, after, v :: vs, host', rfl, yields_evalAll_cons he hbefore, habort⟩
  · rintro ⟨before, e, after, vs, next, rfl, hbefore, habort⟩
    induction before generalizing host vs with
    | nil =>
      simp only [evalAll] at hbefore
      cases hbefore
      exact aborts_evalAll_cons.mpr (.inl habort)
    | cons first rest ih =>
      simp only [evalAll, Run.yields_bind] at hbefore
      obtain ⟨v, middle, hfirst, ws, host', hrest, ⟨⟩⟩ := hbefore
      exact aborts_evalAll_cons.mpr (.inr ⟨v, middle, hfirst, ih ws hrest⟩)

theorem eval_member : (eval registry context scope (.member target field) : Run σ Value) =
    match whole? context scope target field with
    | some v => pure v
    | none =>
      let path := (Expr.member target field).path?
      let missing := Failure.unknownVariable (path.getD field)
      (if path.isSome then orMissing (eval registry context scope target) (throw missing)
        else eval registry context scope target) >>= fieldOf missing field := by
  cases hwhole : whole? context scope target field with
  | some v =>
    rw [whole?] at hwhole
    simp only [eval, hwhole]
  | none =>
    rw [whole?] at hwhole
    simp only [eval, hwhole]
    split <;> rfl

theorem aborts_member : (eval registry context scope (.member target field)).Aborts host ↔
    whole? context scope target field = none ∧ (eval registry context scope target).Aborts host := by
  rw [eval_member]
  cases whole? context scope target field with
  | some v => simp
  | none =>
    dsimp only
    rw [Run.aborts_bind_of_not fun base next => not_aborts_fieldOf _ field base]
    split
    · rw [aborts_orMissing fun _ => by simp, and_iff_right rfl]
    · rw [and_iff_right rfl]

theorem aborts_index : (eval registry context scope (.index target key)).Aborts host ↔
    (eval registry context scope target).Aborts host ∨
      ∃ v next, (eval registry context scope target).Yields host v next ∧
        (eval registry context scope key).Aborts next := by
  have hindex (base key : Value) (host : Option σ) :
      ¬(Run.ofExcept (base.index key) : Run σ Value).Aborts host :=
    Run.not_aborts_ofExcept (base.hasVerdict_index key)
  simp only [eval, Run.aborts_bind, hindex, and_false, exists_false, or_false]

theorem aborts_unary {op : UnaryOp} : (eval registry context scope (.unary op operand)).Aborts host ↔
    (eval registry context scope operand).Aborts host := by
  simp only [eval]
  refine Run.aborts_bind_of_not fun v next => ?_
  exact Run.not_aborts_ofExcept (op.hasVerdict_apply v)

theorem aborts_binary {op : BinaryOp} : (eval registry context scope (.binary op left right)).Aborts host ↔
    (eval registry context scope left).Aborts host ∨
      ∃ v, op.goesOn v = true ∧ ∃ next, (eval registry context scope left).Yields host v next ∧
        (eval registry context scope right).Aborts next := by
  cases op with
  | and =>
    have hgoes (v : Value) : BinaryOp.and.goesOn v = true ↔ v = .bool true := by
      cases v <;> simp [BinaryOp.goesOn]
    simp [aborts_asked, hgoes, -bind_pure_comp]
  | or =>
    have hgoes (v : Value) : BinaryOp.or.goesOn v = true ↔ v = .bool false := by
      cases v <;> simp [BinaryOp.goesOn]
    simp [aborts_asked, hgoes, -bind_pure_comp]
  | _ =>
    have happly (op : BinaryOp) (l r : Value) (host : Option σ) :
        ¬(Run.ofExcept (op.apply l r) : Run σ Value).Aborts host :=
      Run.not_aborts_ofExcept (op.hasVerdict_apply l r)
    simp only [eval, Run.aborts_bind, happly, and_false, exists_false, or_false, BinaryOp.goesOn,
      true_and]

theorem aborts_ternary : (eval registry context scope (.ternary condition yes no)).Aborts host ↔
    (eval registry context scope condition).Aborts host ∨
      ∃ b next, (eval registry context scope condition).Yields host (.bool b) next ∧
        (eval registry context scope (if b then yes else no)).Aborts next := by
  simp only [eval, aborts_asked]
  refine or_congr_right (exists_congr fun b => exists_congr fun next => ?_)
  cases b <;> rfl

theorem aborts_list : (eval registry context scope (.list items)).Aborts host ↔
    (evalAll registry context scope items).Aborts host := by
  simp only [eval]
  exact Run.aborts_bind_of_not fun _ _ => Run.aborts_pure

theorem aborts_has : (eval registry context scope (.has target)).Aborts host ↔
    (eval registry context scope target).Aborts host := by
  simp only [eval]
  rw [aborts_orMissing fun _ => Run.aborts_pure]
  exact Run.aborts_bind_of_not fun _ _ => Run.aborts_pure

theorem aborts_comprehension {kind : Comprehension} :
    (eval registry context scope (.comprehension kind range var body)).Aborts host ↔
      (eval registry context scope range).Aborts host ∨
        ∃ items next item host',
          (eval registry context scope range >>= elements kind).Yields host items next ∧
          Reaches kind (fun item => eval registry context ((var, item) :: scope) body) false
            items next item host' ∧
          (eval registry context ((var, item) :: scope) body).Aborts host' := by
  simp only [eval, ← bind_assoc]
  rw [Run.aborts_bind, Run.aborts_bind_of_not fun v next => not_aborts_elements kind v]
  simp only [aborts_comprehend, exists_and_left]

theorem aborts_call : (eval registry context scope (.call function args)).Aborts host ↔
    (evalAll registry context scope args).Aborts host ∨
      ∃ values next, (evalAll registry context scope args).Yields host values next ∧
        (registry.call context function values).Aborts next := by
  simp only [eval]
  exact Run.aborts_bind

-- ---------------------------------------------------------------------------
-- What is visited
-- ---------------------------------------------------------------------------

variable {p q : Point σ}

theorem Starts.aborts (h : Starts registry context p q) (hq : q.Aborts registry context) :
    p.Aborts registry context := by
  unfold Point.Aborts at hq ⊢
  cases h with
  | target hwhole => exact aborts_member.mpr ⟨hwhole, hq⟩
  | indexed => exact aborts_index.mpr (.inl hq)
  | key htarget => exact aborts_index.mpr (.inr ⟨_, _, htarget, hq⟩)
  | argument hbefore =>
    exact aborts_call.mpr (.inl (aborts_evalAll.mpr ⟨_, _, _, _, _, rfl, hbefore, hq⟩))
  | item hbefore => exact aborts_list.mpr (aborts_evalAll.mpr ⟨_, _, _, _, _, rfl, hbefore, hq⟩)
  | operand => exact aborts_unary.mpr hq
  | left => exact aborts_binary.mpr (.inl hq)
  | right hleft hgoes => exact aborts_binary.mpr (.inr ⟨_, hgoes, _, hleft, hq⟩)
  | condition => exact aborts_ternary.mpr (.inl hq)
  | branch hcondition => exact aborts_ternary.mpr (.inr ⟨_, _, hcondition, hq⟩)
  | range => exact aborts_comprehension.mpr (.inl hq)
  | body hrange hitem => exact aborts_comprehension.mpr (.inr ⟨_, _, _, _, hrange, hitem, hq⟩)
  | has => exact aborts_has.mpr hq

/-- An evaluation that aborts does so in a part that it evaluates, or it is a call that aborts. -/
theorem starts_of_aborts (h : p.Aborts registry context) :
    (∃ q, Starts registry context p q ∧ q.Aborts registry context) ∨
      ∃ function args values host', p.expr = .call function args ∧
        (evalAll registry context p.scope args).Yields p.host values host' ∧
          (registry.call context function values).Aborts host' := by
  obtain ⟨scope, e, host⟩ := p
  unfold Point.Aborts at h
  cases e with
  | literal v =>
    simp only [eval] at h
    exact absurd h Run.aborts_pure
  | ident name =>
    simp only [eval] at h
    split at h
    · exact absurd h Run.aborts_pure
    · split at h
      · exact absurd h Run.aborts_pure
      · exact nomatch Run.aborts_throw.mp h
  | member target field =>
    obtain ⟨hwhole, h⟩ := aborts_member.mp h
    exact .inl ⟨_, .target hwhole, h⟩
  | index target key =>
    rcases aborts_index.mp h with h | ⟨v, next, htarget, h⟩
    · exact .inl ⟨_, .indexed, h⟩
    · exact .inl ⟨_, .key htarget, h⟩
  | call function args =>
    rcases aborts_call.mp h with h | ⟨values, next, hargs, h⟩
    · obtain ⟨before, e, after, vs, next, rfl, hbefore, h⟩ := aborts_evalAll.mp h
      exact .inl ⟨_, .argument hbefore, h⟩
    · exact .inr ⟨function, args, values, next, rfl, hargs, h⟩
  | unary op operand => exact .inl ⟨_, .operand, aborts_unary.mp h⟩
  | binary op left right =>
    rcases aborts_binary.mp h with h | ⟨v, hgoes, next, hleft, h⟩
    · exact .inl ⟨_, .left, h⟩
    · exact .inl ⟨_, .right hleft hgoes, h⟩
  | ternary condition yes no =>
    rcases aborts_ternary.mp h with h | ⟨b, next, hcondition, h⟩
    · exact .inl ⟨_, .condition, h⟩
    · exact .inl ⟨_, .branch hcondition, h⟩
  | list items =>
    obtain ⟨before, e, after, vs, next, rfl, hbefore, h⟩ := aborts_evalAll.mp (aborts_list.mp h)
    exact .inl ⟨_, .item hbefore, h⟩
  | comprehension kind range var body =>
    rcases aborts_comprehension.mp h with h | ⟨items, next, item, host', hrange, hitem, h⟩
    · exact .inl ⟨_, .range, h⟩
    · exact .inl ⟨_, .body hrange hitem, h⟩
  | has target => exact .inl ⟨_, .has, aborts_has.mp h⟩

theorem Starts.sizeOf_lt (h : Starts registry context p q) : sizeOf q.expr < sizeOf p.expr := by
  have hmem (before after : List Expr) (e : Expr) : sizeOf e < sizeOf (before ++ e :: after) :=
    List.sizeOf_lt_of_mem (List.mem_append_cons_self)
  cases h with
  | @argument _ _ before e after =>
    have := hmem before after e
    simp only [Expr.call.sizeOf_spec]
    omega
  | @item _ before e after =>
    have := hmem before after e
    simp only [Expr.list.sizeOf_spec]
    omega
  | @branch _ _ _ _ _ b =>
    cases b
    all_goals
      simp only [Expr.ternary.sizeOf_spec, Bool.false_eq_true, if_false, if_true]
      omega
  | _ =>
    simp only [Expr.member.sizeOf_spec, Expr.index.sizeOf_spec, Expr.unary.sizeOf_spec,
      Expr.binary.sizeOf_spec, Expr.ternary.sizeOf_spec, Expr.comprehension.sizeOf_spec,
      Expr.has.sizeOf_spec]
    omega

theorem Starts.makes {values : List Value} {host' : Option σ} (h : Starts registry context p q)
    (hq : Makes registry context q function values host') :
    Makes registry context p function values host' := by
  obtain ⟨hvisits, hargs⟩ := hq
  exact ⟨.head h hvisits, hargs⟩

theorem makes_of_aborts (p : Point σ) (h : p.Aborts registry context) :
    ∃ function values host', Makes registry context p function values host' ∧
      (registry.call context function values).Aborts host' := by
  rcases starts_of_aborts h with ⟨q, hstarts, hq⟩ | ⟨function, args, values, host', he, hargs, hcall⟩
  · obtain ⟨function, values, host', hmakes, hcall⟩ := makes_of_aborts q hq
    exact ⟨function, values, host', hstarts.makes hmakes, hcall⟩
  · obtain ⟨scope, e, host⟩ := p
    obtain rfl : e = .call function args := he
    exact ⟨function, values, host', ⟨.refl, hargs⟩, hcall⟩
termination_by sizeOf p.expr
decreasing_by exact hstarts.sizeOf_lt

/-- An evaluation aborts exactly if a call it makes does. -/
theorem Point.aborts_iff : p.Aborts registry context ↔
    ∃ function values host', Makes registry context p function values host' ∧
      (registry.call context function values).Aborts host' := by
  refine ⟨makes_of_aborts p, ?_⟩
  rintro ⟨function, values, host', ⟨hvisits, hargs⟩, hcall⟩
  induction hvisits using Relation.ReflTransGen.head_induction_on with
  | refl => exact aborts_call.mpr (.inr ⟨values, host', hargs, hcall⟩)
  | head hstarts _ ih => exact hstarts.aborts ih

end

end Eval

end TradingRules
