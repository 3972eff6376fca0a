import TradingRules.Proofs.Expr.Derivation
import TradingRules.Proofs.Expr.Follow

/-!
# What derives is read

From the tokens of a phrase the parser comes to its tree and stops behind it, unless it would open more
than `maxDepth` levels: then it is refused for that (`phrase_parses`). The levels it opens are those that
`Written.levels` says.

A chain is read up to each of its steps: the loop is left to run from where the part before the step
ends (`Chained`).
-/

namespace TradingRules

namespace Written

open TradingRules.Expr (Chain)

def chain? : Written → Option Chain
  | .binary op _ _ => some (.operators op.level)
  | .member _ _ | .method _ _ _ | .index _ _ => some .steps
  | _ => none

theorem levels_of_chain_ne {ch : Chain} {w : Written} (h : w.chain? ≠ some ch) (depth : Nat) :
    levels (some ch) depth w = levels none depth w := by
  cases w with
  | member target field => cases ch <;> simp_all [chain?, levels]
  | method target name args => cases ch <;> simp_all [chain?, levels]
  | index target key => cases ch <;> simp_all [chain?, levels]
  | binary op left right =>
    have hne : some ch ≠ some (.operators op.level) := fun heq => h heq.symm
    simp only [levels, hne, ↓reduceIte, reduceCtorEq]
  | _ => rfl

theorem lt_levels (under : Option Chain) (depth : Nat) : (w : Written) → depth < levels under depth w
  | .literal _ _ | .ident _ => Nat.lt_succ_self depth
  | .call _ _ | .list _ => Nat.le_max_left _ _
  | .bracketed inner => by
    have := lt_levels none (depth + 2) inner
    simp only [levels]
    omega
  | .member target _ | .method target _ _ | .index target _ => by
    have := lt_levels none depth target
    have := lt_levels (some .steps) depth target
    simp only [levels]
    split <;> omega
  | .unary _ operand => by
    have := lt_levels none (depth + 1) operand
    simp only [levels]
    omega
  | .binary op left _ => by
    have := lt_levels none depth left
    have := lt_levels (some (.operators op.level)) depth left
    simp only [levels]
    split <;> omega
  | .ternary condition _ _ => by
    have := lt_levels none depth condition
    simp only [levels]
    omega

end Written

namespace Grammar

def chainRank : Expr.Chain → Nat
  | .operators level => level.rank
  | .steps => 8

/-- A phrase is a step of a chain of its own or of a tighter one. -/
theorem Derives.rank_le_chain {s : Nonterminal} {ts : List Token} {w : Written} {ch : Expr.Chain}
    (h : Derives s ts w) (hchain : w.chain? = some ch) : s.rank ≤ chainRank ch := by
  induction h with
  | plain | ternary => exact Nat.zero_le _
  | operand _ ih => exact Nat.le_trans (by rw [rank_operand]; omega) (ih hchain)
  | binary _ _ hlevel _ =>
    cases hchain
    exact Nat.le_of_eq (congrArg Expr.Level.rank hlevel.symm)
  | postfixed _ ih => exact Nat.le_trans (by decide) (ih hchain)
  | primary _ ih => exact Nat.le_trans (by decide) (ih hchain)
  | member | method | index =>
    cases hchain
    exact Nat.le_refl _
  | unary | literal | ident | call | bracketed | list => cases hchain

end Grammar

namespace Expr

open Parse Grammar

namespace Parse

variable {α β : Type} {m m' m'' : Parse α} {first : Parse β} {a : α} {b : β} {f : β → Parse α}
  {c c' c'' : Cursor} {t : Token} {ts rest : List Token} {d d' p peak : Nat}

/-- From `c`, `m` comes to what `m'` does from `c'`; if the peak has passed the limit there, `m` is
refused on the way. -/
structure Proceeds (m : Parse α) (c : Cursor) (m' : Parse α) (c' : Cursor) : Prop where
  within : c'.peak ≤ maxDepth → m.run c = m'.run c'
  beyond : maxDepth < c'.peak → ∃ place, m.run c = .error ⟨.nestedTooDeeply, place⟩

theorem Proceeds.refl (h : p ≤ maxDepth) (heq : peak = p) :
    Proceeds m ⟨ts, d, p⟩ m ⟨ts, d, peak⟩ := by
  subst heq
  exact ⟨fun _ => rfl, fun hbeyond => absurd h (Nat.not_le.mpr hbeyond)⟩

theorem Proceeds.trans (h : Proceeds m c m' ⟨ts, d, p⟩) (hpeak : p ≤ peak)
    (h' : p ≤ maxDepth → Proceeds m' ⟨ts, d, p⟩ m'' ⟨rest, d', peak⟩) :
    Proceeds m c m'' ⟨rest, d', peak⟩ := by
  constructor
  · intro hwithin
    have hle : p ≤ maxDepth := Nat.le_trans hpeak hwithin
    rw [h.within hle, (h' hle).within hwithin]
  · intro hbeyond
    by_cases hle : p ≤ maxDepth
    · rw [h.within hle]
      exact (h' hle).beyond hbeyond
    · exact h.beyond (Nat.lt_of_not_le hle)

theorem Proceeds.bind (h : Proceeds first c (pure b) c') : Proceeds (first >>= f) c (f b) c' := by
  constructor
  · intro hwithin
    rw [StateT.run_bind, h.within hwithin]
    rfl
  · intro hbeyond
    obtain ⟨place, hrun⟩ := h.beyond hbeyond
    exact ⟨place, by rw [StateT.run_bind, hrun]; rfl⟩

theorem Proceeds.then (h : Proceeds first c (pure b) ⟨ts, d, p⟩) (hpeak : p ≤ peak)
    (h' : p ≤ maxDepth → Proceeds (f b) ⟨ts, d, p⟩ m'' ⟨rest, d', peak⟩) :
    Proceeds (first >>= f) c m'' ⟨rest, d', peak⟩ :=
  h.bind.trans hpeak h'

theorem run_bind_of_run (hrun : first.run c = .ok (b, c')) :
    (first >>= f).run c = (f b).run c' := by
  rw [StateT.run_bind, hrun]
  rfl

theorem Proceeds.after (hrun : first.run c = .ok (b, c')) (h : Proceeds (f b) c' m'' c'') :
    Proceeds (first >>= f) c m'' c'' :=
  have hbind := run_bind_of_run (f := f) hrun
  ⟨fun hwithin => hbind.trans (h.within hwithin), fun hbeyond => hbind ▸ h.beyond hbeyond⟩

-- ---------------------------------------------------------------------------
-- Tokens
-- ---------------------------------------------------------------------------

theorem next?_run : next?.run c = .ok (c.tokens.head?, c) := rfl

theorem skip_run : skip.run ⟨t :: ts, d, p⟩ = .ok ((), ⟨ts, d, p⟩) := rfl

theorem accept_run_true {test : Token → Bool} (h : test t = true) :
    (accept test).run ⟨t :: ts, d, p⟩ = .ok (true, ⟨ts, d, p⟩) := by
  rw [accept, run_bind_of_run next?_run]
  simp only [List.head?_cons, h, ↓reduceIte]
  rfl

theorem accept_run_false {test : Token → Bool} (h : ∀ t ∈ ts.head?, test t = false) :
    (accept test).run ⟨ts, d, p⟩ = .ok (false, ⟨ts, d, p⟩) := by
  rw [accept, run_bind_of_run next?_run]
  cases ts with
  | nil => rfl
  | cons t ts =>
    have ht := h t rfl
    simp only [List.head?_cons, ht, Bool.false_eq_true, ↓reduceIte]
    rfl

theorem expectOperator_run {text : String} (h : t.isOperator text = true) :
    (expectOperator text).run ⟨t :: ts, d, p⟩ = .ok ((), ⟨ts, d, p⟩) := by
  rw [expectOperator, acceptOperator, run_bind_of_run (accept_run_true h)]
  rfl

theorem expectDelimiter_run {text : String} (h : t.isDelimiter text = true) :
    (expectDelimiter text).run ⟨t :: ts, d, p⟩ = .ok ((), ⟨ts, d, p⟩) := by
  rw [expectDelimiter, acceptDelimiter, run_bind_of_run (accept_run_true h)]
  rfl

theorem expectIdentifier_run (h : t.kind = .identifier) :
    expectIdentifier.run ⟨t :: ts, d, p⟩ = .ok (t.text, ⟨ts, d, p⟩) := by
  rw [expectIdentifier, run_bind_of_run next?_run]
  simp only [List.head?_cons, h, ↓reduceIte]
  rfl

theorem acceptFrom_run_some {level : Level} {op : BinaryOp} (h : level.operator? t = some op) :
    level.acceptFrom.run ⟨t :: ts, d, p⟩ = .ok (some op, ⟨ts, d, p⟩) := by
  rw [Level.acceptFrom, run_bind_of_run next?_run]
  simp only [List.head?_cons, h]
  rfl

theorem acceptFrom_run_none {level : Level} (h : ∀ t ∈ ts.head?, level.operator? t = none) :
    level.acceptFrom.run ⟨ts, d, p⟩ = .ok (none, ⟨ts, d, p⟩) := by
  rw [Level.acceptFrom, run_bind_of_run next?_run]
  cases ts with
  | nil => rfl
  | cons t ts =>
    have ht := h t rfl
    simp only [List.head?_cons, ht]
    rfl

-- ---------------------------------------------------------------------------
-- Levels
-- ---------------------------------------------------------------------------

theorem failHere_run (cause : Option String → Cause) :
    ∃ place, (failHere cause : Parse α).run c = .error ⟨cause (c.tokens.head?.map (·.text)), place⟩ := by
  rw [failHere, run_bind_of_run next?_run]
  cases c.tokens.head? <;> exact ⟨_, rfl⟩

theorem enter_proceeds (hp : p ≤ maxDepth) :
    Proceeds enter ⟨ts, d, p⟩ (pure ()) ⟨ts, d + 1, max p (d + 1)⟩ := by
  have hrun : enter.run ⟨ts, d, p⟩ =
      (if maxDepth < d + 1 then failHere fun _ => .nestedTooDeeply else pure ()).run
        ⟨ts, d + 1, max p (d + 1)⟩ := rfl
  constructor
  · intro hwithin
    have hdepth : ¬maxDepth < d + 1 := Nat.not_lt.mpr (Nat.le_trans (Nat.le_max_right _ _) hwithin)
    rw [hrun, if_neg hdepth]
  · intro hbeyond
    have hdepth : maxDepth < d + 1 := by
      change maxDepth < max p (d + 1) at hbeyond
      omega
    rw [hrun, if_pos hdepth]
    exact failHere_run _

theorem nested_proceeds {phrase : Parse α} (hp : p ≤ maxDepth) (hpeak : max p (d + 1) ≤ peak)
    (h : max p (d + 1) ≤ maxDepth →
      Proceeds phrase ⟨ts, d + 1, max p (d + 1)⟩ (pure a) ⟨rest, d + 1, peak⟩) :
    Proceeds (nested phrase) ⟨ts, d, p⟩ (pure a) ⟨rest, d, peak⟩ := by
  refine (enter_proceeds hp).then hpeak fun hwithin => ?_
  refine (h hwithin).then (Nat.le_refl _) fun hpeak => ?_
  exact Proceeds.after rfl (Proceeds.refl hpeak rfl)

theorem withOwnPeak_proceeds {phrase : Parse α} (hp : p ≤ maxDepth)
    (h : Proceeds phrase ⟨ts, d, d⟩ (pure a) ⟨rest, d', peak⟩) :
    Proceeds (withOwnPeak phrase) ⟨ts, d, p⟩ (pure a) ⟨rest, d, max p peak⟩ := by
  refine Proceeds.after rfl (Proceeds.after rfl ?_)
  refine h.then (Nat.le_max_right _ _) fun hpeak => ?_
  refine Proceeds.after rfl ?_
  exact Proceeds.refl (Nat.max_le.mpr ⟨hpeak, hp⟩) (Nat.max_comm p peak)

/-- A step of a chain opens the level above those it counts from. -/
theorem step_proceeds {phrase : Parse α} {stacked : Bool} {from' : Nat} (hp : p ≤ maxDepth)
    (hfrom : from' = if stacked then d else p) :
    Proceeds (do
        unless stacked do stack
        enter
        phrase) ⟨ts, d, p⟩ phrase ⟨ts, from' + 1, max p (from' + 1)⟩ := by
  cases stacked with
  | true =>
    subst hfrom
    exact (enter_proceeds hp).bind
  | false =>
    subst hfrom
    exact Proceeds.after rfl (enter_proceeds hp).bind

end Parse

-- ---------------------------------------------------------------------------
-- Chains
-- ---------------------------------------------------------------------------

/-- The fuel a phrase takes beyond 32 for each of its tokens. -/
def cost (s : Nonterminal) : Nat := 2 * (10 - s.rank)

variable {s : Nonterminal} {phrase : Nat → Parse Expr} {ts us rest : List Token} {w w' : Written}
  {e : Expr} {n d base p fuel : Nat}

theorem cost_pos (s : Nonterminal) : 0 < cost s := by
  cases s with
  | level level => cases level <;> decide
  | _ => decide

/-- From the tokens of a phrase of kind `s`, with `d` levels open, `phrase` comes to its tree and stops
there. Its own levels are counted from `base`. -/
def Parses (s : Nonterminal) (n : Nat) (phrase : Nat → Parse Expr) (ts : List Token) (w : Written)
    (d base : Nat) : Prop :=
  ∀ fuel rest p e, 32 * ts.length + n ≤ fuel → w.tree? = some e → Stops s rest → d ≤ p →
    p ≤ maxDepth →
      Proceeds (phrase fuel) ⟨ts ++ rest, d, p⟩ (pure e) ⟨rest, d, max p (w.levels none base)⟩

structure Loop where
  whole : Nonterminal
  first : Nonterminal
  chain : Chain
  read : Nat → Parse Expr
  tail : Nat → Bool → Expr → Parse Expr
  cost : Nat

def Loop.operators (level : Level) : Loop where
  whole := .level level
  first := operand level
  chain := .operators level
  read fuel := Phrase.operand fuel level
  tail fuel := Phrase.chainTail fuel level
  cost := Expr.cost (operand level) + 1

def Loop.steps : Loop where
  whole := .postfixed
  first := .primary
  chain := .steps
  read := Phrase.primary
  tail := Phrase.postfixTail
  cost := Expr.cost .primary

variable {loop : Loop}

/-- From the tokens of a chain, its loop is left to run behind them. The next step counts from the
peak, or from the last step if there is one. -/
def Chained (loop : Loop) (ts : List Token) (w : Written) (d base : Nat) : Prop :=
  ∀ fuel rest e, 32 * ts.length + loop.cost ≤ fuel → w.tree? = some e → Stops loop.first rest →
    d ≤ maxDepth → ∃ fuel' stacked d', fuel ≤ fuel' + ts.length ∧
      w.levels (some loop.chain) base = (if stacked then d' else w.levels none base) ∧
      Proceeds (loop.read fuel >>= loop.tail fuel false) ⟨ts ++ rest, d, d⟩
        (loop.tail fuel' stacked e) ⟨rest, d', w.levels none base⟩

theorem Chained.start (h : Parses loop.first loop.cost loop.read ts w d base) (hd : d ≤ base + 1)
    (hchain : w.chain? ≠ some loop.chain) : Chained loop ts w d base := by
  intro fuel rest e hfuel htree hstops hdepth
  have hpeak : max d (w.levels none base) = w.levels none base :=
    Nat.max_eq_right (Nat.le_trans hd (Written.lt_levels none base w))
  refine ⟨fuel, false, d, Nat.le_add_right _ _, Written.levels_of_chain_ne hchain base, ?_⟩
  rw [← hpeak]
  exact (h fuel rest d e hfuel htree hstops (Nat.le_refl d) hdepth).bind

def Steps (loop : Loop) (us : List Token) (w w' : Written) (base : Nat) : Prop :=
  ∀ e', w'.tree? = some e' → ∃ e, w.tree? = some e ∧
    ∀ fuel stacked rest d', 32 * us.length ≤ fuel + 1 → Stops loop.first rest →
      w.levels none base ≤ maxDepth →
      w.levels (some loop.chain) base = (if stacked then d' else w.levels none base) →
        Proceeds (loop.tail (fuel + 1) stacked e) ⟨us ++ rest, d', w.levels none base⟩
          (loop.tail fuel true e')
          ⟨rest, w.levels (some loop.chain) base + 1, w'.levels none base⟩

theorem Chained.step (h : Chained loop ts w d base) (hstep : Steps loop us w w' base)
    (hus : ∀ rest, Stops loop.first (us ++ rest)) (hne : us ≠ [])
    (hlevels : w'.levels (some loop.chain) base = w.levels (some loop.chain) base + 1)
    (hle : w.levels none base ≤ w'.levels none base) : Chained loop (ts ++ us) w' d base := by
  intro fuel rest e' hfuel htree' hstops hdepth
  obtain ⟨e, htree, hsteps⟩ := hstep e' htree'
  have hlength : (ts ++ us).length = ts.length + us.length := List.length_append
  have hpos := List.length_pos_iff.mpr hne
  obtain ⟨fuel', stacked, d', hfuel', hfrom, hproceeds⟩ :=
    h fuel (us ++ rest) e (by omega) htree (hus rest) hdepth
  obtain ⟨left, rfl⟩ : ∃ left, fuel' = left + 1 := Nat.exists_eq_succ_of_ne_zero (by omega)
  refine ⟨left, true, w.levels (some loop.chain) base + 1, by omega, hlevels, ?_⟩
  rw [List.append_assoc]
  refine hproceeds.trans hle fun hwithin => ?_
  exact hsteps left stacked rest d' (by omega) hstops hwithin hfrom

theorem Chained.parses (h : Chained loop ts w d base) (hcost : loop.cost < n)
    (hpos : 0 < loop.cost) (hrank : loop.whole.rank ≤ loop.first.rank)
    (hphrase : ∀ fuel, phrase (fuel + 1) = withOwnPeak (loop.read fuel >>= loop.tail fuel false))
    (hend : ∀ fuel stacked e rest d p, Stops loop.whole rest →
      (loop.tail (fuel + 1) stacked e).run ⟨rest, d, p⟩ = .ok (e, ⟨rest, d, p⟩)) :
    Parses loop.whole n phrase ts w d base := by
  intro fuel rest p e hfuel htree hstops hd hp
  obtain ⟨left, rfl⟩ : ∃ left, fuel = left + 1 := Nat.exists_eq_succ_of_ne_zero (by omega)
  obtain ⟨fuel', stacked, d', hfuel', -, hproceeds⟩ :=
    h left rest e (by omega) htree (hstops.tighter hrank) (Nat.le_trans hd hp)
  obtain ⟨left', rfl⟩ : ∃ left', fuel' = left' + 1 := Nat.exists_eq_succ_of_ne_zero (by omega)
  have hdone : w.levels none base ≤ maxDepth → Proceeds (loop.tail (left' + 1) stacked e)
      ⟨rest, d', w.levels none base⟩ (pure e) ⟨rest, d', w.levels none base⟩ := fun hwithin =>
    ⟨fun _ => hend left' stacked e rest d' _ hstops,
      fun hbeyond => absurd hwithin (Nat.not_le.mpr hbeyond)⟩
  rw [hphrase]
  exact withOwnPeak_proceeds hp (hproceeds.trans (Nat.le_refl _) hdone)

-- ---------------------------------------------------------------------------
-- Operators
-- ---------------------------------------------------------------------------

/-- What is claimed of each derivation. A chain is read up to its end as `Chained` says; a postfix phrase
counts from the level that the unary phrase around it has opened. -/
def Accepted : Nonterminal → List Token → Written → Prop
  | .expression, ts, w =>
    ∀ d, Parses .expression (cost .expression) Phrase.expression ts w d (d + 1)
  | .level level, ts, w => ∀ d, Chained (.operators level) ts w d d
  | .unary, ts, w => ∀ d, Parses .unary (cost .unary) Phrase.unary ts w d d
  | .postfixed, ts, w => ∀ d, Chained .steps ts w (d + 1) d
  | .primary, ts, w => ∀ d, Parses .primary (cost .primary) Phrase.primary ts w (d + 1) d

variable {level : Level} {op : BinaryOp} {t sign : Token} {left right condition yes no : Written}

theorem chain_parses (h : Accepted (.level level) ts w) :
    Parses (.level level) (cost (.level level)) (Phrase.chain · level) ts w d d := by
  have hrank := rank_operand level
  have hlow := rank_level_lt level
  refine (h d).parses ?_ (Nat.succ_pos _) ?_ ?_ ?_
  · simp only [Loop.operators, cost, Nonterminal.rank] at *
    omega
  · exact hrank ▸ Nat.le_succ _
  · intro fuel
    rw [Phrase.chain]
    rfl
  · intro fuel stacked e rest d p hstops
    have hnone : ∀ t ∈ rest.head?, level.operator? t = none := by
      intro t ht
      rw [Option.eq_none_iff_forall_ne_some]
      intro op hop
      obtain ⟨hkey, hlevel⟩ := Level.operator?_eq_some.mp hop
      have hlt := hstops t ht _ (goesOn_operator hkey)
      rw [hlevel] at hlt
      exact Nat.lt_irrefl _ hlt
    change (Phrase.chainTail (fuel + 1) level stacked e).run _ = _
    rw [Phrase.chainTail, run_bind_of_run (acceptFrom_run_none hnone)]
    rfl

theorem operand_parses (h : Accepted (operand level) ts w) :
    Parses (operand level) (cost (operand level) + 1) (Phrase.operand · level) ts w d d := by
  intro fuel rest p e hfuel htree hstops hd hp
  obtain ⟨fuel, rfl⟩ : ∃ left, fuel = left + 1 := Nat.exists_eq_succ_of_ne_zero (by omega)
  change Proceeds (Phrase.operand (fuel + 1) level) _ _ _
  unfold Phrase.operand
  unfold operand at h hfuel hstops
  cases htighter : level.tighter? with
  | some tighter =>
    simp only [htighter] at h hfuel hstops
    exact chain_parses h fuel rest p e (by omega) htree hstops hd hp
  | none =>
    simp only [htighter] at h hfuel hstops
    exact h d fuel rest p e (by omega) htree hstops hd hp

theorem cost_operand_le (level : Level) : cost (operand level) + 2 ≤ cost .expression := by
  have := rank_operand level
  have := rank_level_pos level
  simp only [cost, Nonterminal.rank] at *
  omega

theorem binary_steps (hop : sign.key ∈ op.spellings)
    (hright : Accepted (operand op.level) us right) :
    Steps (.operators op.level) (sign :: us) left (.binary op left right) d := by
  intro e' htree'
  simp only [Written.tree?, Option.bind_eq_some_iff, Option.map_eq_some_iff] at htree'
  obtain ⟨e, htree, r, hrtree, rfl⟩ := htree'
  refine ⟨e, htree, fun fuel stacked rest d' hfuel hstops hpeak hfrom => ?_⟩
  have hcost := cost_operand_le op.level
  have hbound : cost .expression = 20 := rfl
  rw [List.length_cons] at hfuel
  change Proceeds (Phrase.chainTail (fuel + 1) op.level stacked e) _
    (Phrase.chainTail fuel op.level true _) _
  rw [Phrase.chainTail]
  refine Proceeds.after (acceptFrom_run_some (Level.operator?_eq_some.mpr ⟨hop, rfl⟩)) ?_
  refine (step_proceeds hpeak hfrom).trans ?_ fun hwithin => ?_
  · simp only [Written.levels, Loop.operators, reduceCtorEq, ↓reduceIte]
    omega
  · refine (operand_parses hright fuel rest _ r (by omega) hrtree hstops (Nat.le_max_right _ _)
      hwithin).then ?_ fun hwithin => ?_
    · simp only [Written.levels, Loop.operators, reduceCtorEq, ↓reduceIte]
      omega
    · refine Proceeds.refl hwithin ?_
      simp only [Written.levels, Loop.operators, reduceCtorEq, ↓reduceIte, Nat.max_assoc]

theorem binary_accepted (hop : sign.key ∈ op.spellings) (hleft : Accepted (.level op.level) ts left)
    (hright : Accepted (operand op.level) us right) :
    Accepted (.level op.level) (ts ++ sign :: us) (.binary op left right) := by
  intro d
  refine (hleft d).step (binary_steps hop hright) ?_ (List.cons_ne_nil _ _) ?_ ?_
  · intro rest
    exact Stops.of_goesOn_some (goesOn_operator hop) (by rw [Loop.operators, rank_operand]; omega)
  · simp only [Written.levels, Loop.operators, ↓reduceIte]
  · simp only [Written.levels, reduceCtorEq, ↓reduceIte]
    omega

theorem unary_accepted {op : UnaryOp} (hop : sign.key ∈ op.spellings) (h : Accepted .unary ts w) :
    Accepted .unary (sign :: ts) (.unary op w) := by
  intro d fuel rest p e' hfuel htree hstops hd hp
  rw [List.length_cons] at hfuel
  obtain ⟨fuel, rfl⟩ : ∃ left, fuel = left + 1 := Nat.exists_eq_succ_of_ne_zero (by omega)
  simp only [Written.tree?, Option.map_eq_some_iff] at htree
  obtain ⟨e, htree, rfl⟩ := htree
  have hlow := Written.lt_levels none (d + 1) w
  unfold Phrase.unary
  refine nested_proceeds hp (by simp only [Written.levels]; omega) fun hwithin => ?_
  have hoperand := h (d + 1) fuel rest (max p (d + 1)) e (by omega) htree hstops
    (Nat.le_max_right _ _) hwithin
  have hpeak : max (max p (d + 1)) (w.levels none (d + 1)) =
      max p ((Written.unary op w).levels none d) := by
    simp only [Written.levels]
    omega
  rw [hpeak] at hoperand
  cases op with
  | not =>
    have hsign : (sign.isOperator "!" || sign.isKeyword "not") = true := by
      simpa [UnaryOp.spellings, Token.key, Token.isOperator, Token.isKeyword] using hop
    refine Proceeds.after (accept_run_true hsign) ?_
    exact hoperand.then (Nat.le_refl _) fun hpeak => Proceeds.refl hpeak rfl
  | negate =>
    have hsign : sign.isOperator "-" = true := by
      simpa [UnaryOp.spellings, Token.key, Token.isOperator] using hop
    have hnot : (sign.isOperator "!" || sign.isKeyword "not") = false := by
      grind [Token.isOperator, Token.isKeyword]
    refine Proceeds.after (accept_run_false (by rintro _ ⟨⟩; exact hnot)) ?_
    refine Proceeds.after (accept_run_true hsign) ?_
    exact hoperand.then (Nat.le_refl _) fun hpeak => Proceeds.refl hpeak rfl

theorem plain_accepted (h : Accepted (.level .or) ts w) : Accepted .expression ts w := by
  intro d fuel rest p e hfuel htree hstops hd hp
  have hpos := cost_pos .expression
  obtain ⟨fuel, rfl⟩ : ∃ left, fuel = left + 1 := Nat.exists_eq_succ_of_ne_zero (by omega)
  have hlow := Written.lt_levels none (d + 1) w
  have hcost : cost (.level .or) + 1 ≤ cost .expression := by decide
  unfold Phrase.expression
  refine nested_proceeds hp (by omega) fun hwithin => ?_
  refine (chain_parses h fuel rest (max p (d + 1)) e (by omega) htree
    (hstops.tighter (Nat.zero_le _)) (Nat.le_max_right _ _) hwithin).then (by omega) fun hpeak => ?_
  have hnone : ∀ t ∈ rest.head?, t.isOperator "?" = false :=
    hstops.refuses (fun _ => goesOn_question) (Nat.le_refl _)
  refine Proceeds.after (accept_run_false hnone) ?_
  exact Proceeds.refl hpeak (by omega)

theorem ternary_accepted {question colon : Token} {vs : List Token}
    (hquestion : question.isOperator "?" = true) (hcolon : colon.isOperator ":" = true)
    (hc : Accepted (.level .or) ts condition) (hy : Accepted .expression us yes)
    (hn : Accepted .expression vs no) :
    Accepted .expression (ts ++ question :: (us ++ colon :: vs)) (.ternary condition yes no) := by
  intro d fuel rest p e hfuel htree hstops hd hp
  have hpos := cost_pos .expression
  obtain ⟨fuel, rfl⟩ : ∃ left, fuel = left + 1 := Nat.exists_eq_succ_of_ne_zero (by omega)
  have hlow := Written.lt_levels none (d + 1) condition
  have hcost : cost (.level .or) + 1 ≤ cost .expression := by decide
  have hbound : cost .expression = 20 := rfl
  simp only [List.length_append, List.length_cons] at hfuel
  simp only [Written.tree?, Option.bind_eq_some_iff, Option.map_eq_some_iff] at htree
  obtain ⟨c, hctree, y, hytree, n, hntree, rfl⟩ := htree
  simp only [List.append_assoc, List.cons_append]
  unfold Phrase.expression
  refine nested_proceeds hp (by simp only [Written.levels]; omega) fun hwithin => ?_
  have hquestionStops : Stops (.level .or) (question :: (us ++ colon :: (vs ++ rest))) :=
    Stops.of_goesOn_some (goesOn_question hquestion) (by decide)
  refine (chain_parses hc fuel _ (max p (d + 1)) c (by omega) hctree hquestionStops
    (Nat.le_max_right _ _) hwithin).then ?_ fun hwithin => ?_
  · simp only [Written.levels]
    omega
  refine Proceeds.after (accept_run_true hquestion) ?_
  refine (hy (d + 1) fuel _ _ y (by omega) hytree (Stops.of_goesOn_none (goesOn_colon hcolon))
    (by omega) hwithin).then ?_ fun hwithin => ?_
  · simp only [Written.levels]
    omega
  refine Proceeds.after (expectOperator_run hcolon) ?_
  refine (hn (d + 1) fuel _ _ n (by omega) hntree hstops (by omega) hwithin).then ?_ fun hwithin => ?_
  · simp only [Written.levels]
    omega
  · refine Proceeds.refl hwithin ?_
    simp only [Written.levels]
    omega

-- ---------------------------------------------------------------------------
-- Arguments and items
-- ---------------------------------------------------------------------------

def ParsesAll (phrase : Nat → Parse (List Expr)) (n : Nat) (us : List Token) (closing : Token)
    (ws : List Written) : Prop :=
  ∀ fuel rest d p items, 32 * us.length + n ≤ fuel → Written.trees? ws = some items → d ≤ p →
    p ≤ maxDepth → Proceeds (phrase fuel) ⟨us ++ closing :: rest, d, p⟩ (pure items)
      ⟨rest, d, max p (Written.levelsAll (d + 1) ws)⟩

def Readable (a : Part) : Prop := Derives .expression a.1 a.2 ∧ Accepted .expression a.1 a.2

variable {parts : List Part} {closing comma : Token}

theorem isDelimiter_of_comma (h : comma.isDelimiter "," = true) :
    comma.isDelimiter ")" = false ∧ comma.isDelimiter "]" = false := by
  grind [Token.isDelimiter]

theorem moreArguments_parse (hseparated : Separated false (parts.map Prod.fst) us)
    (hparts : ∀ a ∈ parts, Readable a) (hclose : closing.isDelimiter ")" = true) :
    ParsesAll Phrase.moreArguments 21 us closing (parts.map Prod.snd) := by
  generalize hfirsts : parts.map Prod.fst = firsts at hseparated
  induction hseparated generalizing parts with
  | @one ts =>
    obtain ⟨a, rfl, rfl⟩ := List.map_eq_singleton_iff.mp hfirsts
    intro fuel rest d p items hfuel htrees hd hp
    obtain ⟨fuel, rfl⟩ : ∃ left, fuel = left + 1 := Nat.exists_eq_succ_of_ne_zero (by omega)
    simp only [List.map_cons, List.map_nil, Written.trees?, Option.bind_eq_some_iff,
      Option.map_eq_some_iff] at htrees
    obtain ⟨e, htree, _, ⟨⟩, rfl⟩ := htrees
    have hstops : Stops .expression (closing :: rest) :=
      Stops.of_goesOn_none (goesOn_delimiter (.inl hclose))
    have hbound : cost .expression = 20 := rfl
    rw [Phrase.moreArguments]
    refine ((hparts a (by simp)).2 d fuel _ p e (by omega) htree hstops hd hp).then ?_
      fun hwithin => ?_
    · simp only [List.map_cons, Written.levelsAll]
      omega
    · refine Proceeds.after (accept_run_true hclose) (Proceeds.refl hwithin ?_)
      simp only [List.map_cons, List.map_nil, Written.levelsAll, Nat.max_zero]
  | last _ hallowed => cases hallowed
  | @more firsts vs ts comma hcomma _ ih =>
    obtain ⟨a, later, rfl, rfl, rfl⟩ := List.map_eq_cons_iff.mp hfirsts
    intro fuel rest d p items hfuel htrees hd hp
    obtain ⟨fuel, rfl⟩ : ∃ left, fuel = left + 1 := Nat.exists_eq_succ_of_ne_zero (by omega)
    simp only [List.map_cons, Written.trees?, Option.bind_eq_some_iff,
      Option.map_eq_some_iff] at htrees
    obtain ⟨e, htree, items, htrees, rfl⟩ := htrees
    simp only [List.length_append, List.length_cons] at hfuel
    simp only [List.append_assoc, List.cons_append]
    have hstops : Stops .expression (comma :: (vs ++ closing :: rest)) :=
      Stops.of_goesOn_none (goesOn_delimiter (.inr (.inr hcomma)))
    have hbound : cost .expression = 20 := rfl
    have hlater := ih (fun b hb => hparts b (List.mem_cons_of_mem a hb)) rfl
    rw [Phrase.moreArguments]
    refine ((hparts a (by simp)).2 d fuel _ p e (by omega) htree hstops hd hp).then ?_
      fun hwithin => ?_
    · simp only [List.map_cons, Written.levelsAll]
      omega
    refine Proceeds.after (accept_run_false ?_) ?_
    · rintro _ ⟨⟩
      exact (isDelimiter_of_comma hcomma).1
    refine Proceeds.after (accept_run_true hcomma) ?_
    refine (hlater fuel rest d _ items (by omega) htrees (by omega) hwithin).then ?_ fun hwithin => ?_
    · simp only [List.map_cons, Written.levelsAll]
      omega
    · refine Proceeds.refl hwithin ?_
      simp only [List.map_cons, Written.levelsAll, Nat.max_assoc]

theorem arguments_parse (hlisted : Listed false (parts.map Prod.fst) us)
    (hparts : ∀ a ∈ parts, Readable a) (hclose : closing.isDelimiter ")" = true) :
    ParsesAll Phrase.arguments 22 us closing (parts.map Prod.snd) := by
  intro fuel rest d p items hfuel htrees hd hp
  obtain ⟨fuel, rfl⟩ : ∃ left, fuel = left + 1 := Nat.exists_eq_succ_of_ne_zero (by omega)
  rw [Phrase.arguments]
  rcases hlisted with ⟨hnone, rfl⟩ | hseparated
  · obtain rfl := List.map_eq_nil_iff.mp hnone
    cases htrees
    exact Proceeds.after (accept_run_true hclose) (Proceeds.refl hp (Nat.max_zero p))
  · have hbegins := (hseparated.begins fun a ha => (hparts a ha).1).head (closing :: rest)
    refine Proceeds.after (accept_run_false fun t ht => (hbegins t ht).not_closing.1) ?_
    exact moreArguments_parse hseparated hparts hclose fuel rest d p items (by omega) htrees hd hp

theorem item_proceeds {a : Part} (ha : Readable a) (hfuel : 32 * a.1.length + cost .expression ≤ fuel)
    (htree : a.2.tree? = some e) (hstops : Stops .expression rest) (hd : d ≤ p) (hp : p ≤ maxDepth) :
    Proceeds (Phrase.items (fuel + 1)) ⟨a.1 ++ rest, d, p⟩
      (do
        if ← acceptDelimiter "]" then return [e]
        else if ← acceptDelimiter "," then return e :: (← Phrase.items fuel)
        else failHere (.expected "',' or ']'"))
      ⟨rest, d, max p (a.2.levels none (d + 1))⟩ := by
  have hbegins := ha.1.begins.head rest
  rw [Phrase.items]
  refine Proceeds.after (accept_run_false fun t ht => (hbegins t ht).not_closing.2) ?_
  exact (ha.2 d fuel rest p e hfuel htree hstops hd hp).bind

theorem no_items_parse (hclose : closing.isDelimiter "]" = true) :
    ParsesAll Phrase.items 1 [] closing [] := by
  intro fuel rest d p items hfuel htrees hd hp
  obtain ⟨fuel, rfl⟩ : ∃ left, fuel = left + 1 := Nat.exists_eq_succ_of_ne_zero (by omega)
  cases htrees
  rw [Phrase.items]
  exact Proceeds.after (accept_run_true hclose) (Proceeds.refl hp (Nat.max_zero p))

theorem item_parses {a : Part} (ha : Readable a) (hclose : closing.isDelimiter "]" = true) :
    ParsesAll Phrase.items 21 a.1 closing [a.2] := by
  intro fuel rest d p items hfuel htrees hd hp
  obtain ⟨fuel, rfl⟩ : ∃ left, fuel = left + 1 := Nat.exists_eq_succ_of_ne_zero (by omega)
  simp only [Written.trees?, Option.bind_eq_some_iff, Option.map_eq_some_iff] at htrees
  obtain ⟨e, htree, _, ⟨⟩, rfl⟩ := htrees
  have hbound : cost .expression = 20 := rfl
  have hstops : Stops .expression (closing :: rest) :=
    Stops.of_goesOn_none (goesOn_delimiter (.inr (.inl hclose)))
  refine (item_proceeds ha (by omega) htree hstops hd hp).trans ?_ fun hwithin => ?_
  · simp only [Written.levelsAll]
    omega
  · refine Proceeds.after (accept_run_true hclose) (Proceeds.refl hwithin ?_)
    simp only [Written.levelsAll, Nat.max_zero]

theorem more_items_parse {a : Part} {vs : List Token} {ws : List Written} (ha : Readable a)
    (hcomma : comma.isDelimiter "," = true) (hlater : ParsesAll Phrase.items 21 vs closing ws) :
    ParsesAll Phrase.items 21 (a.1 ++ comma :: vs) closing (a.2 :: ws) := by
  intro fuel rest d p items hfuel htrees hd hp
  obtain ⟨fuel, rfl⟩ : ∃ left, fuel = left + 1 := Nat.exists_eq_succ_of_ne_zero (by omega)
  simp only [Written.trees?, Option.bind_eq_some_iff, Option.map_eq_some_iff] at htrees
  obtain ⟨e, htree, items, htrees, rfl⟩ := htrees
  simp only [List.length_append, List.length_cons] at hfuel
  simp only [List.append_assoc, List.cons_append]
  have hbound : cost .expression = 20 := rfl
  have hstops : Stops .expression (comma :: (vs ++ closing :: rest)) :=
    Stops.of_goesOn_none (goesOn_delimiter (.inr (.inr hcomma)))
  refine (item_proceeds ha (by omega) htree hstops hd hp).trans ?_ fun hwithin => ?_
  · simp only [Written.levelsAll]
    omega
  refine Proceeds.after (accept_run_false ?_) ?_
  · rintro _ ⟨⟩
    exact (isDelimiter_of_comma hcomma).2
  refine Proceeds.after (accept_run_true hcomma) ?_
  refine (hlater fuel rest d _ items (by omega) htrees (by omega) hwithin).then ?_ fun hwithin => ?_
  · simp only [Written.levelsAll]
    omega
  · refine Proceeds.refl hwithin ?_
    simp only [Written.levelsAll, Nat.max_assoc]

theorem items_parse (hlisted : Listed true (parts.map Prod.fst) us)
    (hparts : ∀ a ∈ parts, Readable a) (hclose : closing.isDelimiter "]" = true) :
    ParsesAll Phrase.items 21 us closing (parts.map Prod.snd) := by
  have hnone : ParsesAll Phrase.items 21 [] closing [] := by
    intro fuel rest d p items hfuel
    exact no_items_parse hclose fuel rest d p items (by omega)
  rcases hlisted with ⟨hempty, rfl⟩ | hseparated
  · obtain rfl := List.map_eq_nil_iff.mp hempty
    exact hnone
  generalize hfirsts : parts.map Prod.fst = firsts at hseparated
  induction hseparated generalizing parts with
  | one =>
    obtain ⟨a, rfl, rfl⟩ := List.map_eq_singleton_iff.mp hfirsts
    exact item_parses (hparts a (by simp)) hclose
  | last hcomma =>
    obtain ⟨a, rfl, rfl⟩ := List.map_eq_singleton_iff.mp hfirsts
    exact more_items_parse (hparts a (by simp)) hcomma hnone
  | more hcomma _ ih =>
    obtain ⟨a, later, rfl, rfl, rfl⟩ := List.map_eq_cons_iff.mp hfirsts
    have hlater := ih (fun b hb => hparts b (List.mem_cons_of_mem a hb)) rfl
    exact more_items_parse (hparts a (by simp)) hcomma hlater

-- ---------------------------------------------------------------------------
-- Postfix steps
-- ---------------------------------------------------------------------------

variable {point name field opening : Token} {args : List Part} {key : Written}

theorem member_steps (hpoint : point.isOperator "." = true) (hfield : field.kind = .identifier) :
    Steps .steps [point, field] w (.member w field.text) d := by
  intro e' htree'
  simp only [Written.tree?, Option.map_eq_some_iff] at htree'
  obtain ⟨e, htree, rfl⟩ := htree'
  refine ⟨e, htree, fun fuel stacked rest d' hfuel hstops hpeak hfrom => ?_⟩
  have hcall : ∀ t ∈ rest.head?, t.isDelimiter "(" = false :=
    hstops.refuses (fun _ => goesOn_round) (Nat.le_refl _)
  change Proceeds (Phrase.postfixTail (fuel + 1) stacked e) _
    (Phrase.postfixTail fuel true (.member e field.text)) _
  rw [Phrase.postfixTail]
  refine Proceeds.after (accept_run_true hpoint) ?_
  refine (step_proceeds hpeak hfrom).trans ?_ fun hwithin => ?_
  · simp only [Written.levels, Loop.steps, reduceCtorEq, ↓reduceIte]
    omega
  refine Proceeds.after (expectIdentifier_run hfield) ?_
  refine Proceeds.after (accept_run_false hcall) ?_
  refine Proceeds.refl hwithin ?_
  simp only [Written.levels, Loop.steps, reduceCtorEq, ↓reduceIte]

theorem method_steps (hpoint : point.isOperator "." = true) (hname : name.kind = .identifier)
    (hopen : opening.isDelimiter "(" = true) (hlisted : Listed false (args.map Prod.fst) us)
    (hargs : ∀ a ∈ args, Readable a) (hclose : closing.isDelimiter ")" = true) :
    Steps .steps (point :: name :: opening :: (us ++ [closing])) w
      (.method w name.text (args.map Prod.snd)) d := by
  intro e' htree'
  simp only [Written.tree?, Option.bind_eq_some_iff, Option.map_eq_some_iff] at htree'
  obtain ⟨e, htree, items, htrees, rfl⟩ := htree'
  refine ⟨e, htree, fun fuel stacked rest d' hfuel hstops hpeak hfrom => ?_⟩
  simp only [List.length_cons, List.length_append] at hfuel
  change Proceeds (Phrase.postfixTail (fuel + 1) stacked e) _
    (Phrase.postfixTail fuel true (ofMethodForm e name.text items)) _
  rw [Phrase.postfixTail]
  simp only [List.cons_append, List.append_assoc]
  refine Proceeds.after (accept_run_true hpoint) ?_
  refine (step_proceeds hpeak hfrom).trans ?_ fun hwithin => ?_
  · simp only [Written.levels, Loop.steps, reduceCtorEq, ↓reduceIte]
    omega
  refine Proceeds.after (expectIdentifier_run hname) ?_
  refine Proceeds.after (accept_run_true hopen) ?_
  refine (arguments_parse hlisted hargs hclose fuel rest _ _ items (by omega) htrees
    (Nat.le_max_right _ _) hwithin).then ?_ fun hwithin => ?_
  · simp only [Written.levels, Loop.steps, reduceCtorEq, ↓reduceIte]
    omega
  · refine Proceeds.refl hwithin ?_
    simp only [Written.levels, Loop.steps, reduceCtorEq, ↓reduceIte, Nat.max_assoc]

theorem index_steps (hopen : opening.isDelimiter "[" = true) (hkey : Accepted .expression us key)
    (hclose : closing.isDelimiter "]" = true) :
    Steps .steps (opening :: (us ++ [closing])) w (.index w key) d := by
  intro e' htree'
  simp only [Written.tree?, Option.bind_eq_some_iff, Option.map_eq_some_iff] at htree'
  obtain ⟨e, htree, k, hktree, rfl⟩ := htree'
  refine ⟨e, htree, fun fuel stacked rest d' hfuel hstops hpeak hfrom => ?_⟩
  have hbound : cost .expression = 20 := rfl
  have hpoint : opening.isOperator "." = false := by grind [Token.isOperator, Token.isDelimiter]
  have hend : Stops .expression (closing :: rest) :=
    Stops.of_goesOn_none (goesOn_delimiter (.inr (.inl hclose)))
  simp only [List.length_cons, List.length_append] at hfuel
  change Proceeds (Phrase.postfixTail (fuel + 1) stacked e) _
    (Phrase.postfixTail fuel true (.index e k)) _
  rw [Phrase.postfixTail]
  simp only [List.cons_append, List.append_assoc]
  refine Proceeds.after (accept_run_false (by rintro _ ⟨⟩; exact hpoint)) ?_
  refine Proceeds.after (accept_run_true hopen) ?_
  refine (step_proceeds hpeak hfrom).trans ?_ fun hwithin => ?_
  · simp only [Written.levels, Loop.steps, reduceCtorEq, ↓reduceIte]
    omega
  refine (hkey _ fuel _ _ k (by omega) hktree hend (Nat.le_max_right _ _) hwithin).then ?_
    fun hwithin => ?_
  · simp only [Written.levels, Loop.steps, reduceCtorEq, ↓reduceIte]
    omega
  refine Proceeds.after (expectDelimiter_run hclose) ?_
  refine Proceeds.refl hwithin ?_
  simp only [Written.levels, Loop.steps, reduceCtorEq, ↓reduceIte, Nat.max_assoc]

theorem postfixed_parses (h : Accepted .postfixed ts w) :
    Parses .postfixed (cost .postfixed) Phrase.postfixed ts w (d + 1) d := by
  refine (h d).parses (by decide) (by decide) (by decide) ?_ ?_
  · intro fuel
    rw [Phrase.postfixed]
    rfl
  · intro fuel stacked e rest d p hstops
    have hpoint : ∀ t ∈ rest.head?, t.isOperator "." = false :=
      hstops.refuses (fun _ => goesOn_point) (Nat.le_refl _)
    have hopen : ∀ t ∈ rest.head?, t.isDelimiter "[" = false :=
      hstops.refuses (fun _ => goesOn_square) (Nat.le_refl _)
    change (Phrase.postfixTail (fuel + 1) stacked e).run _ = _
    rw [Phrase.postfixTail]
    rw [acceptOperator, run_bind_of_run (accept_run_false hpoint)]
    simp only [Bool.false_eq_true, ↓reduceIte]
    rw [acceptDelimiter, run_bind_of_run (accept_run_false hopen)]
    rfl

theorem postfixed_accepted (hw : Derives .postfixed ts w) (h : Accepted .postfixed ts w) :
    Accepted .unary ts w := by
  intro d fuel rest p e hfuel htree hstops hd hp
  have hpos := cost_pos .unary
  have hcost : cost .postfixed + 1 ≤ cost .unary := by decide
  obtain ⟨fuel, rfl⟩ : ∃ left, fuel = left + 1 := Nat.exists_eq_succ_of_ne_zero (by omega)
  have hlow := Written.lt_levels none d w
  have hbegins := hw.begins.head rest
  have hnot : ∀ t ∈ (ts ++ rest).head?, (t.isOperator "!" || t.isKeyword "not") = false := by
    intro t ht
    have := (hbegins t ht).not_sign .not
    grind [UnaryOp.spellings, Token.key, Token.isOperator, Token.isKeyword]
  have hnegate : ∀ t ∈ (ts ++ rest).head?, t.isOperator "-" = false := by
    intro t ht
    have := (hbegins t ht).not_sign .negate
    grind [UnaryOp.spellings, Token.key, Token.isOperator]
  unfold Phrase.unary
  refine nested_proceeds hp (by omega) fun hwithin => ?_
  refine Proceeds.after (accept_run_false hnot) ?_
  refine Proceeds.after (accept_run_false hnegate) ?_
  have hread := postfixed_parses h fuel rest (max p (d + 1)) e (by omega) htree
    (hstops.tighter (by decide)) (Nat.le_max_right _ _) hwithin
  rwa [show max (max p (d + 1)) (w.levels none d) = max p (w.levels none d) by omega] at hread

-- ---------------------------------------------------------------------------
-- Primaries
-- ---------------------------------------------------------------------------

theorem literal_accepted (ht : t.isLiteral = true) :
    Accepted .primary [t] (.literal t.kind t.text) := by
  intro d fuel rest p e hfuel htree hstops hd hp
  have hpos := cost_pos .primary
  obtain ⟨fuel, rfl⟩ : ∃ left, fuel = left + 1 := Nat.exists_eq_succ_of_ne_zero (by omega)
  have hliteral := literalOf?_eq_ok.mpr ⟨ht, htree⟩
  rw [Phrase.primary]
  refine Proceeds.after next?_run ?_
  simp only [List.singleton_append, List.head?_cons, hliteral]
  refine Proceeds.after skip_run ?_
  refine Proceeds.refl hp ?_
  simp only [Written.levels]
  omega

theorem ident_accepted (ht : t.kind = .identifier) : Accepted .primary [t] (.ident t.text) := by
  intro d fuel rest p e hfuel htree hstops hd hp
  have hpos := cost_pos .primary
  obtain ⟨fuel, rfl⟩ : ∃ left, fuel = left + 1 := Nat.exists_eq_succ_of_ne_zero (by omega)
  have hliteral : literalOf? t = none := literalOf?_eq_none.mpr (by simp [Token.isLiteral, ht])
  have hcall : ∀ t ∈ rest.head?, t.isDelimiter "(" = false :=
    hstops.refuses (fun _ => goesOn_round) (Nat.le_refl _)
  cases htree
  rw [Phrase.primary]
  refine Proceeds.after next?_run ?_
  simp only [List.singleton_append, List.head?_cons, hliteral, ht, reduceCtorEq, ↓reduceIte]
  refine Proceeds.after skip_run ?_
  refine Proceeds.after (accept_run_false hcall) ?_
  refine Proceeds.refl hp ?_
  simp only [Written.levels]
  omega

theorem call_accepted (hname : name.kind = .identifier) (hopen : opening.isDelimiter "(" = true)
    (hlisted : Listed false (args.map Prod.fst) us) (hargs : ∀ a ∈ args, Readable a)
    (hclose : closing.isDelimiter ")" = true) :
    Accepted .primary (name :: opening :: (us ++ [closing]))
      (.call name.text (args.map Prod.snd)) := by
  intro d fuel rest p e hfuel htree hstops hd hp
  have hbound : cost .primary = 2 := rfl
  simp only [List.length_cons, List.length_append] at hfuel
  obtain ⟨fuel, rfl⟩ : ∃ left, fuel = left + 1 := Nat.exists_eq_succ_of_ne_zero (by omega)
  have hliteral : literalOf? name = none := literalOf?_eq_none.mpr (by simp [Token.isLiteral, hname])
  simp only [Written.tree?, Option.bind_eq_some_iff] at htree
  obtain ⟨items, htrees, hform⟩ := htree
  rw [Except.toOption_eq_some] at hform
  rw [Phrase.primary]
  refine Proceeds.after next?_run ?_
  simp only [List.cons_append, List.append_assoc, List.head?_cons, hliteral, hname, reduceCtorEq,
    ↓reduceIte]
  refine Proceeds.after skip_run ?_
  refine Proceeds.after (accept_run_true hopen) ?_
  refine (arguments_parse hlisted hargs hclose fuel rest _ _ items (by omega) htrees hd hp).then ?_
    fun hwithin => ?_
  · simp only [Written.levels, Nat.add_assoc, Nat.reduceAdd]
    omega
  · rw [hform]
    refine Proceeds.refl hwithin ?_
    simp only [Written.levels, Nat.add_assoc, Nat.reduceAdd]
    omega

theorem bracketed_accepted (hopen : opening.isDelimiter "(" = true) (h : Accepted .expression us w)
    (hclose : closing.isDelimiter ")" = true) :
    Accepted .primary (opening :: (us ++ [closing])) (.bracketed w) := by
  intro d fuel rest p e hfuel htree hstops hd hp
  have hbound : cost .primary = 2 := rfl
  have hbound' : cost .expression = 20 := rfl
  simp only [List.length_cons, List.length_append] at hfuel
  obtain ⟨fuel, rfl⟩ : ∃ left, fuel = left + 1 := Nat.exists_eq_succ_of_ne_zero (by omega)
  have hkind : opening.kind = .delimiter := by grind [Token.isDelimiter]
  have hliteral : literalOf? opening = none :=
    literalOf?_eq_none.mpr (by simp [Token.isLiteral, hkind])
  have hend : Stops .expression (closing :: rest) :=
    Stops.of_goesOn_none (goesOn_delimiter (.inl hclose))
  rw [Phrase.primary]
  refine Proceeds.after next?_run ?_
  simp only [List.cons_append, List.append_assoc, List.head?_cons, hliteral, hkind, hopen,
    reduceCtorEq, ↓reduceIte]
  refine Proceeds.after skip_run ?_
  refine (h (d + 1) fuel _ p e (by omega) htree hend hd hp).then (Nat.le_refl _) fun hwithin => ?_
  refine Proceeds.after (expectDelimiter_run hclose) ?_
  exact Proceeds.refl hwithin rfl

theorem list_accepted (hopen : opening.isDelimiter "[" = true)
    (hlisted : Listed true (parts.map Prod.fst) us) (hparts : ∀ a ∈ parts, Readable a)
    (hclose : closing.isDelimiter "]" = true) :
    Accepted .primary (opening :: (us ++ [closing])) (.list (parts.map Prod.snd)) := by
  intro d fuel rest p e hfuel htree hstops hd hp
  have hbound : cost .primary = 2 := rfl
  simp only [List.length_cons, List.length_append] at hfuel
  obtain ⟨fuel, rfl⟩ : ∃ left, fuel = left + 1 := Nat.exists_eq_succ_of_ne_zero (by omega)
  have hkind : opening.kind = .delimiter := by grind [Token.isDelimiter]
  have hround : opening.isDelimiter "(" = false := by grind [Token.isDelimiter]
  have hliteral : literalOf? opening = none :=
    literalOf?_eq_none.mpr (by simp [Token.isLiteral, hkind])
  simp only [Written.tree?, Option.map_eq_some_iff] at htree
  obtain ⟨items, htrees, rfl⟩ := htree
  rw [Phrase.primary]
  refine Proceeds.after next?_run ?_
  simp only [List.cons_append, List.append_assoc, List.head?_cons, hliteral, hkind, hopen, hround,
    reduceCtorEq, Bool.false_eq_true, ↓reduceIte]
  refine Proceeds.after skip_run ?_
  refine (items_parse hlisted hparts hclose fuel rest _ _ items (by omega) htrees hd hp).then ?_
    fun hwithin => ?_
  · simp only [Written.levels, Nat.add_assoc, Nat.reduceAdd]
    omega
  · refine Proceeds.refl hwithin ?_
    simp only [Written.levels, Nat.add_assoc, Nat.reduceAdd]
    omega

-- ---------------------------------------------------------------------------
-- All phrases
-- ---------------------------------------------------------------------------

/-- What derives is read. -/
theorem accepted_of_derives {s : Nonterminal} (h : Derives s ts w) : Accepted s ts w := by
  induction h with
  | plain _ ih => exact plain_accepted ih
  | ternary _ hquestion _ hcolon _ ihc ihy ihn =>
    exact ternary_accepted hquestion hcolon ihc ihy ihn
  | @operand level ts w h ih =>
    intro d
    refine Chained.start (operand_parses ih) (Nat.le_succ d) fun hchain => ?_
    have hle := h.rank_le_chain hchain
    rw [rank_operand] at hle
    exact Nat.not_succ_le_self _ hle
  | binary _ hop hlevel _ ihleft ihright =>
    subst hlevel
    exact binary_accepted hop ihleft ihright
  | unary hop _ ih => exact unary_accepted hop ih
  | postfixed hw ih => exact postfixed_accepted hw ih
  | primary hw ih =>
    intro d
    refine Chained.start (ih d) (Nat.le_refl _) fun hchain => ?_
    exact absurd (hw.rank_le_chain hchain) (by decide)
  | member _ hpoint hfield ih =>
    intro d
    refine (ih d).step (member_steps hpoint hfield) ?_ (by simp) ?_ ?_
    · intro rest
      exact Stops.of_goesOn_some (goesOn_point hpoint) (by decide)
    · simp only [Written.levels, Loop.steps, ↓reduceIte]
    · simp only [Written.levels, reduceCtorEq, ↓reduceIte]
      omega
  | method _ hpoint hname hopen hlisted hargs hclose ih ihargs =>
    intro d
    have hreadable := fun a ha => And.intro (hargs a ha) (ihargs a ha)
    refine (ih d).step (method_steps hpoint hname hopen hlisted hreadable hclose) ?_ (by simp) ?_ ?_
    · intro rest
      exact Stops.of_goesOn_some (goesOn_point hpoint) (by decide)
    · simp only [Written.levels, Loop.steps, ↓reduceIte]
    · simp only [Written.levels, reduceCtorEq, ↓reduceIte]
      omega
  | index _ hopen _ hclose ih ihkey =>
    intro d
    refine (ih d).step (index_steps hopen ihkey hclose) ?_ (by simp) ?_ ?_
    · intro rest
      exact Stops.of_goesOn_some (goesOn_square hopen) (by decide)
    · simp only [Written.levels, Loop.steps, ↓reduceIte]
    · simp only [Written.levels, reduceCtorEq, ↓reduceIte]
      omega
  | literal ht => exact literal_accepted ht
  | ident ht => exact ident_accepted ht
  | call hname hopen hlisted hargs hclose ihargs =>
    exact call_accepted hname hopen hlisted (fun a ha => ⟨hargs a ha, ihargs a ha⟩) hclose
  | bracketed hopen _ hclose ih => exact bracketed_accepted hopen ih hclose
  | list hopen hlisted hitems hclose ihitems =>
    exact list_accepted hopen hlisted (fun a ha => ⟨hitems a ha, ihitems a ha⟩) hclose

end Expr

end TradingRules
