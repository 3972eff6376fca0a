import TradingRules.Proofs.Expr.Completeness
import TradingRules.Proofs.Expr.Derivation

/-!
# Fuel has no say

The phrases between two tokens are fewer than 32, so that much fuel for each token covers them. Two runs
of a phrase that both have fuel for the tokens at hand agree, in what they answer as in how they fail
(`allSettled`), and the parser is the same on any fuel from the one it starts with (`ofTokens_eq_whole`).
-/

namespace TradingRules.Expr

open Parse

namespace Parse

variable {α β : Type} {n : Nat} {m m' : Parse α} {f f' : α → Parse β}

/-- On at most `n` tokens the two phrases do the same, and leave at most `n`. -/
def Agree (n : Nat) (m m' : Parse α) : Prop :=
  ∀ c : Cursor, c.tokens.length ≤ n →
    m.run c = m'.run c ∧ Gives m c fun _ c' => c'.tokens.length ≤ n

theorem Agree.same (h : ∀ c, Gives m c fun _ c' => c'.tokens.length ≤ c.tokens.length) : Agree n m m :=
  fun c hc => ⟨rfl, (h c).mono fun _ _ hle => Nat.le_trans hle hc⟩

theorem Agree.pure {a : α} : Agree n (pure a) (pure a) :=
  .same fun _ => Gives.pure (Nat.le_refl _)

theorem Agree.failHere {cause : Option String → Cause} : Agree n (failHere cause : Parse α) (failHere cause) :=
  .same fun _ => Gives.failHere

theorem Agree.throw {fault : Fault} : Agree n (throw fault : Parse α) (throw fault) :=
  .same fun _ => Gives.throw

theorem Agree.bind (hm : Agree n m m') (hf : ∀ a, Agree n (f a) (f' a)) : Agree n (m >>= f) (m' >>= f') := by
  intro c hc
  obtain ⟨hrun, hleft⟩ := hm c hc
  refine ⟨?_, hleft.bind fun a c' hc' => (hf a c' hc').2⟩
  rw [StateT.run_bind, StateT.run_bind, ← hrun]
  cases hfirst : m.run c with
  | error fault => rfl
  | ok result => exact (hf result.1 result.2 (hleft _ _ hfirst)).1

theorem Agree.modifies {g : Cursor → Cursor} (hg : ∀ c, (g c).tokens = c.tokens) :
    Agree n (modify g) (modify g) := by
  refine .same fun c => (modify_gives g).mono ?_
  rintro _ _ rfl
  exact Nat.le_of_eq (congrArg List.length (hg c))

theorem Agree.get : Agree n get get := by
  refine .same fun c => get_gives.mono ?_
  rintro _ _ ⟨-, rfl⟩
  exact Nat.le_refl _

theorem Agree.enter : Agree n enter enter :=
  .same fun _ => enter_reads.mono fun _ _ h => Nat.le_of_eq (congrArg List.length h)

theorem Agree.nested (h : Agree n m m') : Agree n (nested m) (nested m') :=
  .bind .enter fun _ => .bind h fun _ => .bind (.modifies fun _ => rfl) fun _ => .pure

theorem Agree.withOwnPeak (h : Agree n m m') : Agree n (withOwnPeak m) (withOwnPeak m') := by
  intro c hc
  have hphrase : ∀ a : α, Agree n (do
      modify fun c' => { c' with depth := c.depth, peak := max c'.peak c.peak }
      return a) (do
      modify fun c' => { c' with depth := c.depth, peak := max c'.peak c.peak }
      return a) :=
    fun _ => .bind (.modifies fun _ => rfl) fun _ => .pure
  exact h.bind hphrase { c with peak := c.depth } hc

theorem Agree.step (h : Agree n m m') (stacked : Bool) :
    Agree n (do
      unless stacked do stack
      Parse.enter
      m) (do
      unless stacked do stack
      Parse.enter
      m') := by
  cases stacked with
  | true => exact .bind .enter fun _ => h
  | false => exact .bind (.modifies fun _ => rfl) fun _ => .bind .enter fun _ => h

/-- After a phrase both runs share, they need only agree on what it left. -/
theorem Agree.after {k : Parse α} (weight : α → Nat)
    (hk : ∀ c, Gives k c fun a c' => c'.tokens.length + weight a ≤ c.tokens.length)
    (h : ∀ a left, left + weight a ≤ n → Agree left (f a) (f' a)) : Agree n (k >>= f) (k >>= f') := by
  intro c hc
  have hrest : ∀ a c', k.run c = .ok (a, c') → c'.tokens.length + weight a ≤ n :=
    fun a c' hrun => Nat.le_trans (hk c a c' hrun) hc
  constructor
  · rw [StateT.run_bind, StateT.run_bind]
    cases hrun : k.run c with
    | error fault => rfl
    | ok result => exact (h result.1 _ (hrest _ _ hrun) result.2 (Nat.le_refl _)).1
  · refine Gives.bind (Q := fun a c' => c'.tokens.length + weight a ≤ n) hrest fun a c' hc' => ?_
    refine (h a _ hc' c' (Nat.le_refl _)).2.mono fun _ c'' hle => ?_
    omega

theorem Agree.accept {g g' : Bool → Parse β} {test : Token → Bool}
    (hyes : ∀ left, left + 1 ≤ n → Agree left (g true) (g' true))
    (hno : ∀ left, left ≤ n → Agree left (g false) (g' false)) :
    Agree n (accept test >>= g) (accept test >>= g') := by
  refine .after Bool.toNat (fun c => (accept_took test).mono fun found c' h => ?_) fun found => ?_
  · cases found with
    | true =>
      obtain ⟨t, -, htokens⟩ := h
      exact Nat.le_of_eq (congrArg List.length htokens).symm
    | false => exact Nat.le_of_eq (congrArg List.length h)
  · cases found with
    | true => exact hyes
    | false => exact hno

theorem Agree.acceptFrom {level : Level} {g g' : Option BinaryOp → Parse β}
    (hsome : ∀ op left, left + 1 ≤ n → Agree left (g (some op)) (g' (some op)))
    (hnone : ∀ left, left ≤ n → Agree left (g none) (g' none)) :
    Agree n (level.acceptFrom >>= g) (level.acceptFrom >>= g') := by
  refine .after (fun op? => op?.isSome.toNat) (fun c => acceptFrom_took.mono fun op? c' h => ?_) fun op? => ?_
  · cases op? with
    | some op =>
      obtain ⟨t, -, -, htokens⟩ := h
      exact Nat.le_of_eq (congrArg List.length htokens).symm
    | none => exact Nat.le_of_eq (congrArg List.length h)
  · cases op? with
    | some op => exact hsome op
    | none => exact hnone

theorem Agree.expectOperator {text : String} : Agree n (expectOperator text) (expectOperator text) := by
  refine .same fun c => (expectOperator_took text).mono ?_
  rintro _ c' ⟨t, -, htokens⟩
  rw [htokens]
  exact Nat.le_succ _

theorem Agree.expectDelimiter {text : String} : Agree n (expectDelimiter text) (expectDelimiter text) := by
  refine .same fun c => (expectDelimiter_took text).mono ?_
  rintro _ c' ⟨t, -, htokens⟩
  rw [htokens]
  exact Nat.le_succ _

theorem Agree.expectIdentifier : Agree n expectIdentifier expectIdentifier := by
  refine .same fun c => expectIdentifier_took.mono ?_
  rintro _ c' ⟨t, -, -, htokens⟩
  rw [htokens]
  exact Nat.le_succ _

theorem Agree.settle {t : Token} {verdict : Except Cause α} : Agree n (settle t verdict) (settle t verdict) :=
  .same fun _ => settle_reads.mono fun _ _ h => Nat.le_of_eq (congrArg List.length h.2)

theorem Agree.next {k k' : Option Token → Parse β} (hend : Agree n (k none) (k' none))
    (htoken : ∀ t, 0 < n → Agree n (k (some t)) (k' (some t))) : Agree n (next? >>= k) (next? >>= k') := by
  intro c hc
  change (k c.tokens.head?).run c = (k' c.tokens.head?).run c ∧
    Gives (k c.tokens.head?) c fun _ c' => c'.tokens.length ≤ n
  cases htokens : c.tokens with
  | nil => exact hend c hc
  | cons t rest =>
    have hpos : 0 < n := Nat.lt_of_lt_of_le (by simp [htokens]) hc
    exact htoken t hpos c hc

theorem Agree.skip (hpos : 0 < n) (h : ∀ left, left + 1 ≤ n → Agree left m m') :
    Agree n (do Parse.skip; m) (do Parse.skip; m') := by
  intro c hc
  have hleft : c.tokens.tail.length ≤ n - 1 := by
    rw [List.length_tail]
    omega
  obtain ⟨hrun, hgives⟩ := h (n - 1) (by omega) { c with tokens := c.tokens.tail } hleft
  exact ⟨hrun, hgives.mono fun _ _ hle => Nat.le_trans hle (Nat.sub_le n 1)⟩

end Parse

-- ---------------------------------------------------------------------------
-- Phrases
-- ---------------------------------------------------------------------------

def Settled {α : Type} (cost : Nat) (phrase : Nat → Parse α) (fuel : Nat) : Prop :=
  ∀ n fuel', 32 * n + cost ≤ fuel → 32 * n + cost ≤ fuel' → Agree n (phrase fuel) (phrase fuel')

structure AllSettled (fuel : Nat) : Prop where
  expression : Settled (cost .expression) Phrase.expression fuel
  chain (level : Level) : Settled (cost (.level level)) (Phrase.chain · level) fuel
  operand (level : Level) : Settled (cost (Grammar.operand level) + 1) (Phrase.operand · level) fuel
  chainTail (level : Level) (stacked : Bool) (left : Expr) :
    Settled 1 (Phrase.chainTail · level stacked left) fuel
  unary : Settled (cost .unary) Phrase.unary fuel
  postfixed : Settled (cost .postfixed) Phrase.postfixed fuel
  postfixTail (stacked : Bool) (e : Expr) : Settled 1 (Phrase.postfixTail · stacked e) fuel
  arguments : Settled (cost .expression + 2) Phrase.arguments fuel
  moreArguments : Settled (cost .expression + 1) Phrase.moreArguments fuel
  items : Settled (cost .expression + 1) Phrase.items fuel
  primary : Settled (cost .primary) Phrase.primary fuel

variable {α : Type} {n fuel fuel' : Nat} {phrase : Nat → Parse α}

theorem Settled.zero {cost : Nat} (hpos : 0 < cost) : Settled cost phrase 0 := by
  intro n fuel' hfuel
  omega

theorem Settled.succ {cost : Nat} (hpos : 0 < cost)
    (h : ∀ n fuel', 32 * n + cost ≤ fuel + 1 → 32 * n + cost ≤ fuel' + 1 →
      Agree n (phrase (fuel + 1)) (phrase (fuel' + 1))) : Settled cost phrase (fuel + 1) := by
  intro n fuel' hfuel hfuel'
  obtain ⟨less, rfl⟩ : ∃ less, fuel' = less + 1 := Nat.exists_eq_succ_of_ne_zero (by omega)
  exact h n less hfuel hfuel'

theorem expression_settled (ih : AllSettled fuel) :
    Settled (cost .expression) Phrase.expression (fuel + 1) := by
  refine .succ (by decide) fun n fuel' hfuel hfuel' => ?_
  have hcost : cost (.level .or) + 1 ≤ cost .expression := by decide
  have hbound : cost .expression = 20 := rfl
  unfold Phrase.expression
  refine .nested (.bind (ih.chain .or n fuel' (by omega) (by omega)) fun condition => ?_)
  refine .accept (fun left hleft => ?_) fun _ _ => .pure
  have hexpression := ih.expression left fuel' (by omega) (by omega)
  exact .bind hexpression fun yes => .bind .expectOperator fun _ => .bind hexpression fun no => .pure

theorem chain_settled (ih : AllSettled fuel) (level : Level) :
    Settled (cost (.level level)) (Phrase.chain · level) (fuel + 1) := by
  refine .succ (cost_pos _) fun n fuel' hfuel hfuel' => ?_
  have hcost : cost (Grammar.operand level) + 2 = cost (.level level) := by cases level <;> rfl
  unfold Phrase.chain
  refine .withOwnPeak (.bind (ih.operand level n fuel' (by omega) (by omega)) fun left => ?_)
  exact ih.chainTail level false left n fuel' (by omega) (by omega)

theorem operand_settled (ih : AllSettled fuel) (level : Level) :
    Settled (cost (Grammar.operand level) + 1) (Phrase.operand · level) (fuel + 1) := by
  refine .succ (Nat.succ_pos _) fun n fuel' hfuel hfuel' => ?_
  unfold Phrase.operand
  unfold Grammar.operand at hfuel hfuel'
  cases htighter : level.tighter? with
  | some tighter =>
    simp only [htighter] at hfuel hfuel'
    exact ih.chain tighter n fuel' (by omega) (by omega)
  | none =>
    simp only [htighter] at hfuel hfuel'
    exact ih.unary n fuel' (by omega) (by omega)

theorem chainTail_settled (ih : AllSettled fuel) (level : Level) (stacked : Bool) (left : Expr) :
    Settled 1 (Phrase.chainTail · level stacked left) (fuel + 1) := by
  refine .succ Nat.one_pos fun n fuel' hfuel hfuel' => ?_
  have hcost := cost_operand_le level
  have hbound : cost .expression = 20 := rfl
  unfold Phrase.chainTail
  refine .acceptFrom (fun op less hless => ?_) fun _ _ => .pure
  refine .step (.bind (ih.operand level less fuel' (by omega) (by omega)) fun right => ?_) stacked
  exact ih.chainTail level true _ less fuel' (by omega) (by omega)

theorem unary_settled (ih : AllSettled fuel) : Settled (cost .unary) Phrase.unary (fuel + 1) := by
  refine .succ (cost_pos _) fun n fuel' hfuel hfuel' => ?_
  have hcost : cost .postfixed + 1 ≤ cost .unary := by decide
  unfold Phrase.unary
  have hsigned : ∀ left, left + 1 ≤ n → Agree left (Phrase.unary fuel) (Phrase.unary fuel') :=
    fun left hleft => ih.unary left fuel' (by omega) (by omega)
  refine .nested (.accept (fun left hleft => .bind (hsigned left hleft) fun _ => .pure) fun less hless => ?_)
  refine .accept (fun left hleft => ?_) fun left hleft => ?_
  · exact .bind (hsigned left (by omega)) fun _ => .pure
  · exact ih.postfixed left fuel' (by omega) (by omega)

theorem postfixed_settled (ih : AllSettled fuel) : Settled (cost .postfixed) Phrase.postfixed (fuel + 1) := by
  refine .succ (cost_pos _) fun n fuel' hfuel hfuel' => ?_
  have hcost : cost .primary + 1 ≤ cost .postfixed := by decide
  have hbound : cost .primary = 2 := rfl
  unfold Phrase.postfixed
  refine .withOwnPeak (.bind (ih.primary n fuel' (by omega) (by omega)) fun e => ?_)
  exact ih.postfixTail false e n fuel' (by omega) (by omega)

theorem postfixTail_settled (ih : AllSettled fuel) (stacked : Bool) (e : Expr) :
    Settled 1 (Phrase.postfixTail · stacked e) (fuel + 1) := by
  refine .succ Nat.one_pos fun n fuel' hfuel hfuel' => ?_
  have hbound : cost .expression = 20 := rfl
  have hsteps : ∀ left, left + 1 ≤ n → ∀ e, Agree left (Phrase.postfixTail fuel true e)
      (Phrase.postfixTail fuel' true e) :=
    fun left hleft e => ih.postfixTail true e left fuel' (by omega) (by omega)
  unfold Phrase.postfixTail
  refine .accept (fun left hleft => ?_) fun less hless => .accept (fun left hleft => ?_) fun _ _ => .pure
  · refine .step (.bind .expectIdentifier fun name => ?_) stacked
    refine .accept (fun fewer hfewer => ?_) fun fewer hfewer => ?_
    · refine .bind (ih.arguments fewer fuel' (by omega) (by omega)) fun args => ?_
      exact hsteps fewer (by omega) _
    · exact hsteps fewer (by omega) _
  · refine .step (.bind (ih.expression left fuel' (by omega) (by omega)) fun key => ?_) stacked
    exact .bind .expectDelimiter fun _ => hsteps left (by omega) _

theorem arguments_settled (ih : AllSettled fuel) :
    Settled (cost .expression + 2) Phrase.arguments (fuel + 1) := by
  refine .succ (Nat.succ_pos _) fun n fuel' hfuel hfuel' => ?_
  unfold Phrase.arguments
  exact .accept (fun _ _ => .pure) fun left hleft => ih.moreArguments left fuel' (by omega) (by omega)

theorem moreArguments_settled (ih : AllSettled fuel) :
    Settled (cost .expression + 1) Phrase.moreArguments (fuel + 1) := by
  refine .succ (Nat.succ_pos _) fun n fuel' hfuel hfuel' => ?_
  unfold Phrase.moreArguments
  refine .bind (ih.expression n fuel' (by omega) (by omega)) fun e => ?_
  refine .accept (fun _ _ => .pure) fun less hless => .accept (fun left hleft => ?_) fun _ _ => .failHere
  exact .bind (ih.moreArguments left fuel' (by omega) (by omega)) fun _ => .pure

theorem items_settled (ih : AllSettled fuel) : Settled (cost .expression + 1) Phrase.items (fuel + 1) := by
  refine .succ (Nat.succ_pos _) fun n fuel' hfuel hfuel' => ?_
  unfold Phrase.items
  refine .accept (fun _ _ => .pure) fun less hless => ?_
  refine .bind (ih.expression less fuel' (by omega) (by omega)) fun e => ?_
  refine .accept (fun _ _ => .pure) fun fewer hfewer => .accept (fun left hleft => ?_) fun _ _ => .failHere
  exact .bind (ih.items left fuel' (by omega) (by omega)) fun _ => .pure

theorem primary_settled (ih : AllSettled fuel) : Settled (cost .primary) Phrase.primary (fuel + 1) := by
  refine .succ (cost_pos _) fun n fuel' hfuel hfuel' => ?_
  have hbound : cost .primary = 2 := rfl
  have hbound' : cost .expression = 20 := rfl
  unfold Phrase.primary
  refine .next .failHere fun t hpos => ?_
  dsimp only
  split
  · exact .skip hpos fun _ _ => .settle
  · split
    · exact .throw
    split
    · refine .skip hpos fun less hless => .accept (fun left hleft => ?_) fun _ _ => .pure
      exact .bind (ih.arguments left fuel' (by omega) (by omega)) fun args => .settle
    split
    · refine .skip hpos fun left hleft => .bind (ih.expression left fuel' (by omega) (by omega)) fun e => ?_
      exact .bind .expectDelimiter fun _ => .pure
    split
    · exact .skip hpos fun left hleft => .bind (ih.items left fuel' (by omega) (by omega)) fun _ => .pure
    · exact .throw

theorem allSettled (fuel : Nat) : AllSettled fuel := by
  induction fuel with
  | zero =>
    -- No phrase is covered without fuel.
    exact {
      expression := .zero (cost_pos _)
      chain := fun _ => .zero (cost_pos _)
      operand := fun _ => .zero (Nat.succ_pos _)
      chainTail := fun _ _ _ => .zero Nat.one_pos
      unary := .zero (cost_pos _)
      postfixed := .zero (cost_pos _)
      postfixTail := fun _ _ => .zero Nat.one_pos
      arguments := .zero (Nat.succ_pos _)
      moreArguments := .zero (Nat.succ_pos _)
      items := .zero (Nat.succ_pos _)
      primary := .zero (cost_pos _) }
  | succ fuel ih =>
    exact {
      expression := expression_settled ih
      chain := chain_settled ih
      operand := operand_settled ih
      chainTail := chainTail_settled ih
      unary := unary_settled ih
      postfixed := postfixed_settled ih
      postfixTail := postfixTail_settled ih
      arguments := arguments_settled ih
      moreArguments := moreArguments_settled ih
      items := items_settled ih
      primary := primary_settled ih }

-- ---------------------------------------------------------------------------
-- The whole
-- ---------------------------------------------------------------------------

theorem whole_settled (fuel : Nat) : Settled (cost .expression) Phrase.whole fuel := by
  intro n fuel' hfuel hfuel'
  refine .bind ((allSettled fuel).expression n fuel' hfuel hfuel') fun e => .bind .get fun c => ?_
  split
  · exact .pure
  · exact .bind .failHere fun _ => .pure

/-- Past its first two checks, what `ofTokens` answers is the parse on any fuel from 32 units for each token
and 32 more. -/
theorem ofTokens_eq_whole {tokens : List Token} (hwhole : ∀ t ∈ tokens, t.fault? = none)
    (hsome : tokens ≠ []) (hfuel : 32 * (tokens.length + 1) ≤ fuel) :
    ofTokens tokens = ((Phrase.whole fuel).run ⟨tokens, 0, 0⟩).map Prod.fst := by
  have hnone : (tokens.findSome? fun t => t.fault?.map fun f => (t, f)) = none :=
    List.findSome?_eq_none_iff.mpr fun t ht => by rw [hwhole t ht, Option.map_none]
  have hbound : cost .expression = 20 := rfl
  have hagree := whole_settled (32 * (tokens.length + 1)) tokens.length fuel (by omega) (by omega)
  unfold ofTokens
  rw [hnone, (hagree ⟨tokens, 0, 0⟩ (Nat.le_refl _)).1]
  exact if_neg (by rwa [List.isEmpty_iff])

end TradingRules.Expr
