import TradingRules.Proofs.Eval.Visits
import TradingRules.Proofs.Value.Integers
import TradingRules.Proofs.Dict
import TradingRules.Builtin.Library

/-!
# How the comprehensions agree

Where the body is a boolean on every element, each comprehension answers what the list of these verdicts
says (`Decides`), so that the five of them, and the functions `size` and `all`, can stand for each other. A
body that fails, or is no boolean, on some elements leaves one law: `all` and `exists` of the negation go
through the same elements and end at the same one (`yields_all_iff_exists_not`).
-/

namespace TradingRules

def Value.elements? : Value → Option (List Value)
  | .list items => some items
  | .map fields => some (fields.map fun (name, _) => .str name)
  | _ => none

def kept (items : List Value) (verdicts : List Bool) : List Value :=
  ((items.zip verdicts).filter Prod.snd).map Prod.fst

theorem length_kept {items : List Value} {verdicts : List Bool} (h : items.length = verdicts.length) :
    (kept items verdicts).length = verdicts.count true := by
  induction items generalizing verdicts with
  | nil =>
    cases verdicts with
    | nil => rfl
    | cons keep rest => cases h
  | cons item items ih =>
    cases verdicts with
    | nil => cases h
    | cons keep rest =>
      have hrest := ih (Nat.succ.inj h)
      simp only [kept, List.length_map] at hrest ⊢
      cases keep <;> simp [hrest]

def Run.Gives {σ α : Type} (m : Run σ α) (host : Option σ) (a : α) : Prop := ∃ last, m.Yields host a last

namespace Eval

/-- The body, evaluated on one element after another, is true or false on each of them. -/
inductive Decides {σ : Type} (body : Value → Run σ Value) :
    Option σ → List Value → List Bool → Option σ → Prop where
  | nil {host} : Decides body host [] [] host
  | cons {host item keep next rest verdicts last} (hitem : (body item).Yields host (.bool keep) next)
      (hrest : Decides body next rest verdicts last) :
      Decides body host (item :: rest) (keep :: verdicts) last

variable {σ : Type} {host next last : Option σ} {kind : Comprehension} {item v : Value}
  {items rest : List Value} {verdicts : List Bool} {body : Value → Run σ Value} {matched keep b : Bool}

theorem Decides.length_eq (h : Decides body host items verdicts last) : items.length = verdicts.length := by
  induction h with
  | nil => rfl
  | cons _ _ ih => rw [List.length_cons, List.length_cons, ih]

def negated (body : Value → Run σ Value) (item : Value) : Run σ Value :=
  body item >>= fun v => Run.ofExcept (UnaryOp.not.apply v)

theorem yields_negated : (negated body item).Yields host (.bool b) next ↔
    (body item).Yields host (.bool !b) next := by
  simp only [negated, Run.yields_bind, Run.yields_ofExcept]
  constructor
  · rintro ⟨v, _, hv, hnot, rfl⟩
    cases v with
    | bool a =>
      cases hnot
      rwa [Bool.not_not]
    | _ => cases hnot
  · intro h
    exact ⟨_, next, h, by rw [UnaryOp.apply, Bool.not_not], rfl⟩

theorem Decides.negated (h : Decides body host items verdicts last) :
    Decides (negated body) host items (verdicts.map (!·)) last := by
  induction h with
  | nil => exact .nil
  | @cons _ _ keep _ _ _ _ hitem _ ih =>
    refine .cons (yields_negated.mpr ?_) ih
    rwa [Bool.not_not]

-- ---------------------------------------------------------------------------
-- One element
-- ---------------------------------------------------------------------------

theorem yields_wantPredicate :
    (wantPredicate kind v : Run σ Bool).Yields host keep next ↔ v = .bool keep ∧ host = next := by
  cases v with
  | bool a =>
    constructor
    · rintro ⟨⟩
      exact ⟨rfl, rfl⟩
    · rintro ⟨⟨⟩, rfl⟩
      exact Run.yields_pure
  | _ => exact iff_of_false nofun fun h => nomatch h.1

theorem yields_consing {m : Run σ Value} (h : m.Yields host (.list items) last) :
    (comprehend.consing v m).Yields host (.list (v :: items)) last :=
  Run.yields_bind.mpr ⟨_, _, h, Run.yields_pure⟩

theorem yields_all_cons : (comprehend .all body matched (item :: rest)).Yields host v last ↔
    ∃ keep next, (body item).Yields host (.bool keep) next ∧
      if keep then (comprehend .all body matched rest).Yields next v last
      else v = .bool false ∧ next = last := by
  simp only [comprehend, Run.yields_bind, yields_wantPredicate]
  constructor
  · rintro ⟨_, next, hitem, keep, _, ⟨rfl, rfl⟩, h⟩
    refine ⟨keep, next, hitem, ?_⟩
    cases keep
    · cases h
      exact ⟨rfl, rfl⟩
    · exact h
  · rintro ⟨keep, next, hitem, h⟩
    refine ⟨_, next, hitem, keep, next, ⟨rfl, rfl⟩, ?_⟩
    cases keep
    · obtain ⟨rfl, rfl⟩ := h
      exact Run.yields_pure
    · exact h

theorem yields_exists_cons : (comprehend .exists body matched (item :: rest)).Yields host v last ↔
    ∃ keep next, (body item).Yields host (.bool keep) next ∧
      if keep then v = .bool true ∧ next = last
      else (comprehend .exists body matched rest).Yields next v last := by
  simp only [comprehend, Run.yields_bind, yields_wantPredicate]
  constructor
  · rintro ⟨_, next, hitem, keep, _, ⟨rfl, rfl⟩, h⟩
    refine ⟨keep, next, hitem, ?_⟩
    cases keep
    · exact h
    · cases h
      exact ⟨rfl, rfl⟩
  · rintro ⟨keep, next, hitem, h⟩
    refine ⟨_, next, hitem, keep, next, ⟨rfl, rfl⟩, ?_⟩
    cases keep
    · exact h
    · obtain ⟨rfl, rfl⟩ := h
      exact Run.yields_pure

theorem gives_existsOne_cons (hitem : (body item).Yields host (.bool keep) next)
    (hrest : (if keep && matched then pure (.bool false)
      else comprehend .existsOne body (matched || keep) rest : Run σ Value).Gives next v) :
    (comprehend .existsOne body matched (item :: rest)).Gives host v := by
  obtain ⟨last, hrest⟩ := hrest
  rw [comprehend]
  exact ⟨last, Run.yields_bind.mpr ⟨_, next, hitem,
    Run.yields_bind.mpr ⟨keep, next, yields_wantPredicate.mpr ⟨rfl, rfl⟩, hrest⟩⟩⟩

-- ---------------------------------------------------------------------------
-- All elements
-- ---------------------------------------------------------------------------

/-- Both go through the same elements and end at the same one, whatever the body is on the others. -/
theorem yields_all_iff_exists_negated : (comprehend .all body matched items).Yields host (.bool b) last ↔
    (comprehend .exists (negated body) matched items).Yields host (.bool !b) last := by
  induction items generalizing host with
  | nil =>
    constructor
    · rintro ⟨⟩
      exact Run.yields_pure
    · intro h
      cases b
      · cases h
      · cases h
        exact Run.yields_pure
  | cons item rest ih =>
    rw [yields_all_cons, yields_exists_cons]
    simp only [yields_negated]
    constructor
    · rintro ⟨keep, next, hitem, h⟩
      refine ⟨!keep, next, by rwa [Bool.not_not], ?_⟩
      cases keep
      · obtain ⟨⟨⟩, rfl⟩ := h
        exact ⟨rfl, rfl⟩
      · exact ih.mp h
    · rintro ⟨keep, next, hitem, h⟩
      refine ⟨!keep, next, hitem, ?_⟩
      cases keep
      · exact ih.mpr h
      · cases b
        · exact ⟨rfl, h.2⟩
        · nomatch h.1

theorem Decides.gives_all (h : Decides body host items verdicts last) (matched : Bool) :
    (comprehend .all body matched items).Gives host (.bool (verdicts.all id)) := by
  induction h with
  | nil => exact ⟨_, Run.yields_pure⟩
  | @cons _ _ keep next _ _ _ hitem _ ih =>
    cases keep
    · exact ⟨next, yields_all_cons.mpr ⟨false, next, hitem, rfl, rfl⟩⟩
    · obtain ⟨end', hrest⟩ := ih
      exact ⟨end', yields_all_cons.mpr ⟨true, next, hitem, hrest⟩⟩

theorem Decides.gives_exists (h : Decides body host items verdicts last) (matched : Bool) :
    (comprehend .exists body matched items).Gives host (.bool (verdicts.any id)) := by
  induction h with
  | nil => exact ⟨_, Run.yields_pure⟩
  | @cons _ _ keep next _ _ _ hitem _ ih =>
    cases keep
    · obtain ⟨end', hrest⟩ := ih
      exact ⟨end', yields_exists_cons.mpr ⟨false, next, hitem, hrest⟩⟩
    · exact ⟨next, yields_exists_cons.mpr ⟨true, next, hitem, rfl, rfl⟩⟩

theorem Decides.gives_existsOne (h : Decides body host items verdicts last) (matched : Bool) :
    (comprehend .existsOne body matched items).Gives host
      (.bool (matched.toNat + verdicts.count true == 1)) := by
  induction h generalizing matched with
  | nil => cases matched <;> exact ⟨_, Run.yields_pure⟩
  | @cons _ _ keep next rest verdicts _ hitem _ ih =>
    refine gives_existsOne_cons hitem ?_
    cases keep
    · simpa using ih matched
    · cases matched
      · simpa [Nat.add_comm] using ih true
      · have hmany : (1 + (verdicts.count true + 1) == 1) = false := beq_false_of_ne (by omega)
        rw [Bool.toNat_true, List.count_cons_self, hmany]
        exact ⟨next, Run.yields_pure⟩

theorem Decides.yields_filter (h : Decides body host items verdicts last) (matched : Bool) :
    (comprehend .filter body matched items).Yields host (.list (kept items verdicts)) last := by
  induction h with
  | nil => exact Run.yields_pure
  | @cons _ item keep next _ _ _ hitem _ ih =>
    rw [comprehend]
    refine Run.yields_bind.mpr ⟨_, next, hitem,
      Run.yields_bind.mpr ⟨keep, next, yields_wantPredicate.mpr ⟨rfl, rfl⟩, ?_⟩⟩
    cases keep
    · exact ih
    · exact yields_consing ih

theorem Decides.yields_map (h : Decides body host items verdicts last) (matched : Bool) :
    (comprehend .map body matched items).Yields host (.list (verdicts.map .bool)) last := by
  induction h with
  | nil => exact Run.yields_pure
  | cons hitem _ ih =>
    rw [comprehend]
    exact Run.yields_bind.mpr ⟨_, _, hitem, yields_consing ih⟩

-- ---------------------------------------------------------------------------
-- Evaluation
-- ---------------------------------------------------------------------------

theorem yields_elements :
    (elements kind v : Run σ (List Value)).Yields host items next ↔ v.elements? = some items ∧ host = next := by
  cases v with
  | list vs =>
    constructor
    · rintro ⟨⟩
      exact ⟨rfl, rfl⟩
    · rintro ⟨⟨⟩, rfl⟩
      exact Run.yields_pure
  | map fields =>
    constructor
    · rintro ⟨⟩
      exact ⟨rfl, rfl⟩
    · rintro ⟨⟨⟩, rfl⟩
      exact Run.yields_pure
  | _ => exact iff_of_false nofun fun h => nomatch h.1

variable [RegimeHost σ] {registry : Registry} {context : Context} {scope : Scope} {range p : Expr}
  {x : String} {r : Value}

theorem yields_comprehension :
    (eval registry context scope (.comprehension kind range x p) : Run σ Value).Yields host v last ↔
      ∃ r next items, (eval registry context scope range).Yields host r next ∧
        r.elements? = some items ∧
        (comprehend kind (fun item => eval registry context ((x, item) :: scope) p) false items).Yields
          next v last := by
  simp only [eval, Run.yields_bind, yields_elements]
  constructor
  · rintro ⟨r, next, hrange, items, _, ⟨hitems, rfl⟩, h⟩
    exact ⟨r, next, items, hrange, hitems, h⟩
  · rintro ⟨r, next, items, hrange, hitems, h⟩
    exact ⟨r, next, hrange, items, next, ⟨hitems, rfl⟩, h⟩

theorem gives_comprehension (hrange : (eval registry context scope range).Yields host r next)
    (hitems : r.elements? = some items)
    (h : (comprehend kind (fun item => eval registry context ((x, item) :: scope) p) false items).Gives
      next v) :
    (eval registry context scope (.comprehension kind range x p) : Run σ Value).Gives host v := by
  obtain ⟨last, h⟩ := h
  exact ⟨last, yields_comprehension.mpr ⟨r, next, items, hrange, hitems, h⟩⟩

theorem eval_negated (x : String) (p : Expr) :
    (fun item => (eval registry context ((x, item) :: scope) (.unary .not p) : Run σ Value)) =
      negated fun item => eval registry context ((x, item) :: scope) p := by
  funext item
  simp only [eval, negated]

/-- `all` is true or false exactly where `exists` of the negation is the opposite, whatever the body is on
the elements that neither of them comes to. -/
theorem yields_all_iff_exists_not :
    (eval registry context scope (.comprehension .all range x p) : Run σ Value).Yields host (.bool b) last ↔
      (eval registry context scope (.comprehension .exists range x (.unary .not p))).Yields host
        (.bool !b) last := by
  simp only [yields_comprehension, eval_negated, yields_all_iff_exists_negated]

theorem gives_not {e : Expr} (h : (eval registry context scope e : Run σ Value).Gives host (.bool b)) :
    (eval registry context scope (.unary .not e)).Gives host (.bool !b) := by
  obtain ⟨last, h⟩ := h
  refine ⟨last, ?_⟩
  simp only [eval]
  exact Run.yields_bind.mpr ⟨_, last, h, Run.yields_ofExcept.mpr ⟨rfl, rfl⟩⟩

theorem gives_binary_literal {op : BinaryOp} {e : Expr} {v w u : Value} (hand : op ≠ .and) (hor : op ≠ .or)
    (h : (eval registry context scope e : Run σ Value).Gives host v) (happly : op.apply v w = .ok u) :
    (eval registry context scope (.binary op e (.literal w))).Gives host u := by
  obtain ⟨last, h⟩ := h
  refine ⟨last, ?_⟩
  have hoperands : (do
      let l ← eval registry context scope e
      let r ← (pure w : Run σ Value)
      Run.ofExcept (op.apply l r)).Yields host u last :=
    Run.yields_bind.mpr ⟨v, last, h, Run.yields_bind.mpr ⟨w, last, Run.yields_pure,
      Run.yields_ofExcept.mpr ⟨happly, rfl⟩⟩⟩
  cases op with
  | and => exact absurd rfl hand
  | or => exact absurd rfl hor
  | _ =>
    simp only [eval]
    exact hoperands

theorem gives_call {function : String} {e : Expr} {v w : Value}
    (h : (eval registry context scope e : Run σ Value).Gives host v)
    (hcall : (registry.call context function [v] : Run σ Value) = pure w) :
    (eval registry context scope (.call function [e])).Gives host w := by
  obtain ⟨last, h⟩ := h
  refine ⟨last, ?_⟩
  simp only [eval, evalAll]
  refine Run.yields_bind.mpr ⟨[v], last, ?_, ?_⟩
  · exact Run.yields_bind.mpr ⟨v, last, h, Run.yields_bind.mpr ⟨[], last, Run.yields_pure, Run.yields_pure⟩⟩
  · rw [hcall]
    exact Run.yields_pure

end Eval

-- ---------------------------------------------------------------------------
-- The functions
-- ---------------------------------------------------------------------------

section
variable {σ : Type} [RegimeHost σ] {registry : Registry} {context : Context}

theorem call_size (h : Dict.find? "size" registry = Dict.find? "size" Registry.builtins) (items : List Value) :
    (registry.call context "size" [.list items] : Run σ Value) = pure (.int (Int64.ofNat items.length)) := by
  rw [Registry.call, h, Registry.builtins, Dict.find?_ofList]
  rfl

theorem bools_map (name : String) (verdicts : List Bool) :
    Builtin.Collection.bools name (verdicts.map .bool) = .ok verdicts := by
  induction verdicts with
  | nil => rfl
  | cons keep rest ih =>
    rw [Builtin.Collection.bools] at ih
    rw [Builtin.Collection.bools, List.map_cons, List.mapM_cons, ih]
    rfl

theorem call_all (h : Dict.find? "all" registry = Dict.find? "all" Registry.builtins) (verdicts : List Bool) :
    (registry.call context "all" [.list (verdicts.map .bool)] : Run σ Value) =
      pure (.bool (verdicts.all id)) := by
  have hcall : (registry.call context "all" [.list (verdicts.map .bool)] : Run σ Value) =
      Run.ofExcept ((Builtin.Collection.bools "all" (verdicts.map .bool)).map fun bs => .bool (bs.all id)) := by
    rw [Registry.call, h, Registry.builtins, Dict.find?_ofList]
    rfl
  rw [hcall, bools_map]
  rfl

theorem gt_zero_apply {n : Nat} (h : n < 2 ^ 63) :
    BinaryOp.gt.apply (.int (Int64.ofNat n)) (.int 0) = .ok (.bool (0 < n)) := by
  have hzero : (0 : Int64).toInt = 0 := rfl
  rw [BinaryOp.gt_apply_int]
  simp only [Int64.lt_iff_toInt_lt, Int64.toInt_ofNat_of_lt h, hzero, Int.natCast_pos]

theorem eq_one_apply {n : Nat} (h : n < 2 ^ 63) :
    BinaryOp.eq.apply (.int (Int64.ofNat n)) (.int 1) = .ok (.bool (n == 1)) := by
  have hone : (1 : Int64).toInt = 1 := rfl
  rw [BinaryOp.eq_apply_int]
  congr 2
  rw [Bool.eq_iff_iff, beq_iff_eq, beq_iff_eq, ← Int64.toInt_inj, Int64.toInt_ofNat_of_lt h, hone]
  omega

end

namespace Eval

variable {σ : Type} [RegimeHost σ] {registry : Registry}

/-- Take a comprehension over a list or a map, and a body that is a boolean on every element: what `all`,
`exists`, `exists_one`, `filter` and `map` answer is said by these verdicts, and so is what the other ways to
ask the same answer. A list in memory is shorter than `2 ^ 63`, so that its size is counted exactly. Whatever
the range and the body are, `all` is a boolean exactly where `exists` of the negation is the opposite one. -/
theorem comprehensions_agree (hsize : Dict.find? "size" registry = Dict.find? "size" Registry.builtins)
    (hall : Dict.find? "all" registry = Dict.find? "all" Registry.builtins) (context : Context)
    (scope : Scope) (range : Expr) (x : String) (p : Expr) (host : Option σ) :
    let run (e : Expr) : Run σ Value := eval registry context scope e
    let loop (kind : Comprehension) : Expr := .comprehension kind range x p
    let existsNot : Expr := .comprehension .exists range x (.unary .not p)
    (∀ r next items verdicts last, (run range).Yields host r next → r.elements? = some items →
      Decides (fun item => eval registry context ((x, item) :: scope) p) next items verdicts last →
        (run (loop .all)).Gives host (.bool (verdicts.all id)) ∧
        (run (.unary .not existsNot)).Gives host (.bool (verdicts.all id)) ∧
        (run (.call "all" [loop .map])).Gives host (.bool (verdicts.all id)) ∧
        (run (loop .exists)).Gives host (.bool (verdicts.any id)) ∧
        (run (loop .existsOne)).Gives host (.bool (verdicts.count true == 1)) ∧
        (run (loop .filter)).Gives host (.list (kept items verdicts)) ∧
        (run (loop .map)).Gives host (.list (verdicts.map .bool)) ∧
        verdicts.length = items.length ∧
        (items.length < 2 ^ 63 →
          (run (.binary .gt (.call "size" [loop .filter]) (.literal (.int 0)))).Gives host
            (.bool (verdicts.any id)) ∧
          (run (.binary .eq (.call "size" [loop .filter]) (.literal (.int 1)))).Gives host
            (.bool (verdicts.count true == 1)))) ∧
    ∀ b last, (run (loop .all)).Yields host (.bool b) last ↔ (run existsNot).Yields host (.bool !b) last := by
  intro run loop existsNot
  refine ⟨fun r next items verdicts last hrange hitems hdecides => ?_, fun b last => yields_all_iff_exists_not⟩
  have hmap : (run (loop .map)).Gives host (.list (verdicts.map .bool)) :=
    gives_comprehension hrange hitems ⟨last, hdecides.yields_map false⟩
  have hfilter : (run (loop .filter)).Gives host (.list (kept items verdicts)) :=
    gives_comprehension hrange hitems ⟨last, hdecides.yields_filter false⟩
  have hnone : (run existsNot).Gives host (.bool ((verdicts.map (!·)).any id)) := by
    refine gives_comprehension hrange hitems ?_
    rw [eval_negated]
    exact hdecides.negated.gives_exists false
  have hdual : (!(verdicts.map (!·)).any id) = verdicts.all id := by
    simp [List.any_map, List.all_eq_not_any_not]
  have hone := hdecides.gives_existsOne false
  rw [Bool.toNat_false, Nat.zero_add] at hone
  refine ⟨gives_comprehension hrange hitems (hdecides.gives_all false), hdual ▸ gives_not hnone,
    gives_call hmap (call_all hall verdicts), gives_comprehension hrange hitems (hdecides.gives_exists false),
    gives_comprehension hrange hitems hone, hfilter, hmap, hdecides.length_eq.symm, fun hlength => ?_⟩
  have hcount := length_kept hdecides.length_eq
  have hfits : verdicts.count true < 2 ^ 63 := by
    have hle : verdicts.count true ≤ verdicts.length := List.count_le_length
    rw [← hdecides.length_eq] at hle
    exact hle.trans_lt hlength
  have hcounted := gives_call hfilter (call_size hsize (kept items verdicts))
  rw [hcount] at hcounted
  have hany : verdicts.any id = decide (0 < verdicts.count true) := by
    rw [Bool.eq_iff_iff, List.any_eq_true, decide_eq_true_iff, List.count_pos_iff]
    simp
  exact ⟨hany ▸ gives_binary_literal nofun nofun hcounted (gt_zero_apply hfits),
    gives_binary_literal nofun nofun hcounted (eq_one_apply hfits)⟩

def twoSignals : Context :=
  ⟨[("signals", .map [("fast", .int 61), ("slow", .int 48)])], ⟨1700000000, 0⟩⟩

/-- The names of the signals, asked for the one that is `fast`. -/
theorem comprehensions_agree_twoSignals :
    let run (e : Expr) : Run FixedHost Value := eval Registry.builtins twoSignals [] e
    let isFast : Expr := .binary .eq (.ident "x") (.literal (.str "fast"))
    let loop (kind : Comprehension) : Expr := .comprehension kind (.ident "signals") "x" isFast
    let existsNot : Expr := .comprehension .exists (.ident "signals") "x" (.unary .not isFast)
    let signals : Value := .map [("fast", .int 61), ("slow", .int 48)]
    (run (.ident "signals")).Yields none signals none ∧
      signals.elements? = some [.str "fast", .str "slow"] ∧
      Decides (fun item => eval Registry.builtins twoSignals [("x", item)] isFast) none
        [.str "fast", .str "slow"] [true, false] (none : Option FixedHost) ∧
      (run (loop .all)).Gives none (.bool false) ∧ (run (.unary .not existsNot)).Gives none (.bool false) ∧
      (run (.call "all" [loop .map])).Gives none (.bool false) ∧
      (run (loop .exists)).Gives none (.bool true) ∧ (run (loop .existsOne)).Gives none (.bool true) ∧
      (run (loop .filter)).Gives none (.list [.str "fast"]) ∧
      (run (loop .map)).Gives none (.list [.bool true, .bool false]) ∧
      (run (.binary .gt (.call "size" [loop .filter]) (.literal (.int 0)))).Gives none (.bool true) ∧
      (run (.binary .eq (.call "size" [loop .filter]) (.literal (.int 1)))).Gives none (.bool true) ∧
      ((run (loop .all)).Yields none (.bool false) none ↔ (run existsNot).Yields none (.bool true) none) := by
  intro run isFast loop existsNot signals
  have hrange : (run (.ident "signals")).Yields none signals none := rfl
  have hdecides : Decides (fun item => eval Registry.builtins twoSignals [("x", item)] isFast) none
      [.str "fast", .str "slow"] [true, false] (none : Option FixedHost) :=
    .cons rfl (.cons rfl .nil)
  have hsize : Dict.find? "size" Registry.builtins = Dict.find? "size" Registry.builtins := rfl
  obtain ⟨hbools, hduality⟩ := comprehensions_agree (σ := FixedHost) hsize rfl twoSignals []
    (.ident "signals") "x" isFast none
  obtain ⟨hall, hnot, hcall, hexists, hone, hfilter, hmap, -, hsized⟩ :=
    hbools signals none _ _ none hrange rfl hdecides
  obtain ⟨hsome, hsingle⟩ := hsized (by decide)
  exact ⟨hrange, rfl, hdecides, hall, hnot, hcall, hexists, hone, hfilter, hmap, hsome, hsingle,
    hduality false none⟩

end Eval

end TradingRules
