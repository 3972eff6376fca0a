import TradingRules.Proofs.Expr.Gives
import TradingRules.Proofs.Token.Places
import TradingRules.Expr.Compiled

/-!
# Where compile errors stand

A phrase that cannot be read blames one of the tokens it was given, or the end (`allBlame`). So a compile
error stands where a token stands or at an end of the source, and as the tokens do (`places_truthful`).
-/

namespace TradingRules.Expr

open Parse

namespace Parse

variable {α β : Type} {tokens : List Token} {m : Parse α} {f : α → Parse β} {k : Option Token → Parse α}

/-- Run on some of the tokens, a phrase leaves some of them or has a fault at the place of one of them, or
at the end. -/
def Blames (tokens : List Token) (m : Parse α) : Prop :=
  ∀ c : Cursor, c.tokens ⊆ tokens →
    match m.run c with
    | .ok (_, c') => c'.tokens ⊆ tokens
    | .error fault => ∀ p ∈ fault.place, ∃ t ∈ tokens, t.place = p

theorem Blames.pure {a : α} : Blames tokens (pure a) := fun _ hc => hc

theorem Blames.bind (hm : Blames tokens m) (hf : ∀ a, Blames tokens (f a)) : Blames tokens (m >>= f) := by
  intro c hc
  have hfirst := hm c hc
  rw [StateT.run_bind]
  cases hrun : m.run c with
  | error fault => rwa [hrun] at hfirst
  | ok result =>
    obtain ⟨a, c'⟩ := result
    rw [hrun] at hfirst
    exact hf a c' hfirst

theorem Blames.get : Blames tokens get := fun _ hc => hc

theorem Blames.modifies {g : Cursor → Cursor} (hg : ∀ c, (g c).tokens ⊆ c.tokens) : Blames tokens (modify g) :=
  fun c hc => List.Subset.trans (hg c) hc

theorem Blames.next (hend : Blames tokens (k none)) (htoken : ∀ t ∈ tokens, Blames tokens (k (some t))) :
    Blames tokens (next? >>= k) := by
  intro c hc
  change match (k c.tokens.head?).run c with
    | .ok (_, c') => c'.tokens ⊆ tokens
    | .error fault => ∀ p ∈ fault.place, ∃ t ∈ tokens, t.place = p
  cases htokens : c.tokens with
  | nil => exact hend c hc
  | cons t rest => exact htoken t (hc (htokens ▸ List.mem_cons_self)) c hc

theorem Blames.failAt {t : Token} (ht : t ∈ tokens) {cause : Cause} : Blames tokens (failAt t cause : Parse α) := by
  rintro c - p hp
  exact ⟨t, ht, Option.mem_some.mp hp⟩

theorem Blames.failHere {cause : Option String → Cause} : Blames tokens (failHere cause : Parse α) :=
  .next (fun _ _ => nofun) fun _ ht => .failAt ht

theorem Blames.skip : Blames tokens skip := .modifies fun _ _ => List.mem_of_mem_tail

theorem Blames.accept {test : Token → Bool} : Blames tokens (accept test) := by
  refine .next .pure fun t _ => ?_
  dsimp only
  split
  · exact .bind .skip fun _ => .pure
  · exact .pure

theorem Blames.expectOperator {text : String} : Blames tokens (expectOperator text) := by
  refine .bind .accept fun found => ?_
  cases found with
  | true => exact .pure
  | false => exact .failHere

theorem Blames.expectDelimiter {text : String} : Blames tokens (expectDelimiter text) := by
  refine .bind .accept fun found => ?_
  cases found with
  | true => exact .pure
  | false => exact .failHere

theorem Blames.expectIdentifier : Blames tokens expectIdentifier := by
  refine .next .failHere fun t _ => ?_
  dsimp only
  split
  · exact .bind .skip fun _ => .pure
  · exact .failHere

theorem Blames.settle {t : Token} (ht : t ∈ tokens) {verdict : Except Cause α} :
    Blames tokens (settle t verdict) := by
  cases verdict with
  | ok a => exact .pure
  | error cause => exact .failAt ht

theorem Blames.acceptFrom {level : Level} : Blames tokens level.acceptFrom := by
  refine .next .pure fun t _ => ?_
  dsimp only
  split
  · exact .bind .skip fun _ => .pure
  · exact .pure

theorem Blames.enter : Blames tokens enter := by
  refine .bind (.modifies fun c => List.Subset.refl c.tokens) fun _ => .bind .get fun c => ?_
  split
  · exact .failHere
  · exact .pure

theorem Blames.nested (hm : Blames tokens m) : Blames tokens (nested m) :=
  .bind .enter fun _ => .bind hm fun _ => .bind (.modifies fun c => List.Subset.refl c.tokens) fun _ => .pure

theorem Blames.withOwnPeak (hm : Blames tokens m) : Blames tokens (withOwnPeak m) := by
  intro c hc
  have hphrase : Blames tokens (do
      let a ← m
      modify fun c' => { c' with depth := c.depth, peak := max c'.peak c.peak }
      return a) :=
    .bind hm fun _ => .bind (.modifies fun c => List.Subset.refl c.tokens) fun _ => .pure
  exact hphrase { c with peak := c.depth } hc

theorem Blames.step (hm : Blames tokens m) (stacked : Bool) : Blames tokens (do
    unless stacked do stack
    Parse.enter
    m) := by
  cases stacked with
  | true => exact .bind .enter fun _ => hm
  | false => exact .bind (.modifies fun c => List.Subset.refl c.tokens) fun _ => .bind .enter fun _ => hm

end Parse

-- ---------------------------------------------------------------------------
-- Phrases
-- ---------------------------------------------------------------------------

structure AllBlame (tokens : List Token) (fuel : Nat) : Prop where
  expression : Blames tokens (Phrase.expression fuel)
  chain (level : Level) : Blames tokens (Phrase.chain fuel level)
  operand (level : Level) : Blames tokens (Phrase.operand fuel level)
  chainTail (level : Level) (stacked : Bool) (left : Expr) :
    Blames tokens (Phrase.chainTail fuel level stacked left)
  unary : Blames tokens (Phrase.unary fuel)
  postfixed : Blames tokens (Phrase.postfixed fuel)
  postfixTail (stacked : Bool) (e : Expr) : Blames tokens (Phrase.postfixTail fuel stacked e)
  arguments : Blames tokens (Phrase.arguments fuel)
  moreArguments : Blames tokens (Phrase.moreArguments fuel)
  items : Blames tokens (Phrase.items fuel)
  primary : Blames tokens (Phrase.primary fuel)

variable {tokens : List Token} {fuel : Nat}

theorem expression_blames (ih : AllBlame tokens fuel) : Blames tokens (Phrase.expression (fuel + 1)) := by
  unfold Phrase.expression
  refine .nested (.bind (ih.chain .or) fun condition => .bind .accept fun found => ?_)
  cases found with
  | false => exact .pure
  | true =>
    refine .bind ih.expression fun yes => .bind .expectOperator fun _ => ?_
    exact .bind ih.expression fun no => .pure

theorem chain_blames (ih : AllBlame tokens fuel) (level : Level) :
    Blames tokens (Phrase.chain (fuel + 1) level) := by
  unfold Phrase.chain
  exact .withOwnPeak (.bind (ih.operand level) fun left => ih.chainTail level false left)

theorem operand_blames (ih : AllBlame tokens fuel) (level : Level) :
    Blames tokens (Phrase.operand (fuel + 1) level) := by
  unfold Phrase.operand
  cases level.tighter? with
  | some tighter => exact ih.chain tighter
  | none => exact ih.unary

theorem chainTail_blames (ih : AllBlame tokens fuel) (level : Level) (stacked : Bool) (left : Expr) :
    Blames tokens (Phrase.chainTail (fuel + 1) level stacked left) := by
  unfold Phrase.chainTail
  refine .bind .acceptFrom fun op? => ?_
  cases op? with
  | none => exact .pure
  | some op => exact .step (.bind (ih.operand level) fun right => ih.chainTail level true _) stacked

theorem unary_blames (ih : AllBlame tokens fuel) : Blames tokens (Phrase.unary (fuel + 1)) := by
  unfold Phrase.unary
  refine .nested (.bind .accept fun found => ?_)
  cases found with
  | true => exact .bind ih.unary fun _ => .pure
  | false =>
    refine .bind .accept fun found => ?_
    cases found with
    | true => exact .bind ih.unary fun _ => .pure
    | false => exact ih.postfixed

theorem postfixed_blames (ih : AllBlame tokens fuel) : Blames tokens (Phrase.postfixed (fuel + 1)) := by
  unfold Phrase.postfixed
  exact .withOwnPeak (.bind ih.primary fun e => ih.postfixTail false e)

theorem postfixTail_blames (ih : AllBlame tokens fuel) (stacked : Bool) (e : Expr) :
    Blames tokens (Phrase.postfixTail (fuel + 1) stacked e) := by
  unfold Phrase.postfixTail
  refine .bind .accept fun found => ?_
  cases found with
  | true =>
    refine .step (.bind .expectIdentifier fun name => .bind .accept fun called => ?_) stacked
    cases called with
    | true => exact .bind ih.arguments fun args => ih.postfixTail true _
    | false => exact ih.postfixTail true _
  | false =>
    refine .bind .accept fun found => ?_
    cases found with
    | true =>
      refine .step (.bind ih.expression fun key => .bind .expectDelimiter fun _ => ?_) stacked
      exact ih.postfixTail true _
    | false => exact .pure

theorem arguments_blames (ih : AllBlame tokens fuel) : Blames tokens (Phrase.arguments (fuel + 1)) := by
  unfold Phrase.arguments
  refine .bind .accept fun found => ?_
  cases found with
  | true => exact .pure
  | false => exact ih.moreArguments

theorem moreArguments_blames (ih : AllBlame tokens fuel) :
    Blames tokens (Phrase.moreArguments (fuel + 1)) := by
  unfold Phrase.moreArguments
  refine .bind ih.expression fun e => .bind .accept fun closed => ?_
  cases closed with
  | true => exact .pure
  | false =>
    refine .bind .accept fun more => ?_
    cases more with
    | true => exact .bind ih.moreArguments fun _ => .pure
    | false => exact .failHere

theorem items_blames (ih : AllBlame tokens fuel) : Blames tokens (Phrase.items (fuel + 1)) := by
  unfold Phrase.items
  refine .bind .accept fun found => ?_
  cases found with
  | true => exact .pure
  | false =>
    refine .bind ih.expression fun e => .bind .accept fun closed => ?_
    cases closed with
    | true => exact .pure
    | false =>
      refine .bind .accept fun more => ?_
      cases more with
      | true => exact .bind ih.items fun _ => .pure
      | false => exact .failHere

theorem primary_blames (ih : AllBlame tokens fuel) : Blames tokens (Phrase.primary (fuel + 1)) := by
  unfold Phrase.primary
  refine .next .failHere fun t ht => ?_
  dsimp only
  split
  · exact .bind .skip fun _ => .settle ht
  · split
    · exact .failAt ht
    split
    · refine .bind .skip fun _ => .bind .accept fun called => ?_
      cases called with
      | true => exact .bind ih.arguments fun args => .settle ht
      | false => exact .pure
    split
    · exact .bind .skip fun _ => .bind ih.expression fun e => .bind .expectDelimiter fun _ => .pure
    split
    · exact .bind .skip fun _ => .bind ih.items fun _ => .pure
    · exact .failAt ht

theorem allBlame (tokens : List Token) (fuel : Nat) : AllBlame tokens fuel := by
  induction fuel with
  | zero =>
    -- Without fuel every phrase fails where it is.
    exact {
      expression := by rw [Phrase.expression]; exact .failHere
      chain := fun _ => by rw [Phrase.chain]; exact .failHere
      operand := fun _ => by rw [Phrase.operand]; exact .failHere
      chainTail := fun _ _ _ => by rw [Phrase.chainTail]; exact .failHere
      unary := by rw [Phrase.unary]; exact .failHere
      postfixed := by rw [Phrase.postfixed]; exact .failHere
      postfixTail := fun _ _ => by rw [Phrase.postfixTail]; exact .failHere
      arguments := by rw [Phrase.arguments]; exact .failHere
      moreArguments := by rw [Phrase.moreArguments]; exact .failHere
      items := by rw [Phrase.items]; exact .failHere
      primary := by rw [Phrase.primary]; exact .failHere }
  | succ fuel ih =>
    exact {
      expression := expression_blames ih
      chain := chain_blames ih
      operand := operand_blames ih
      chainTail := chainTail_blames ih
      unary := unary_blames ih
      postfixed := postfixed_blames ih
      postfixTail := postfixTail_blames ih
      arguments := arguments_blames ih
      moreArguments := moreArguments_blames ih
      items := items_blames ih
      primary := primary_blames ih }

theorem whole_blames (fuel : Nat) : Blames tokens (Phrase.whole fuel) := by
  refine .bind (allBlame tokens fuel).expression fun e => .bind .get fun c => ?_
  split
  · exact .pure
  · exact .bind .failHere fun _ => .pure

-- ---------------------------------------------------------------------------
-- Compile errors
-- ---------------------------------------------------------------------------

theorem place_of_ofTokens {fault : Fault} (h : ofTokens tokens = .error fault) :
    ∀ p ∈ fault.place, p = .start ∨ ∃ t ∈ tokens, t.place = p := by
  intro p hp
  unfold ofTokens at h
  split at h
  · rename_i t f hfound
    cases h
    obtain ⟨u, hu, hfault⟩ := List.exists_of_findSome?_eq_some hfound
    obtain ⟨g, -, hpair⟩ := Option.map_eq_some_iff.mp hfault
    obtain ⟨rfl, -⟩ := Prod.mk.inj hpair
    exact .inr ⟨u, hu, Option.mem_some.mp hp⟩
  · split at h
    · cases h
      exact .inl (Option.mem_some.mp hp).symm
    · have hwhole : Blames tokens (Phrase.whole (32 * (tokens.length + 1))) := whole_blames _
      have hblames := hwhole ⟨tokens, 0, 0⟩ (List.Subset.refl _)
      rw [Except.map_eq_error.mp h] at hblames
      exact .inr (hblames p hp)

end TradingRules.Expr

namespace TradingRules

open Position (behind)

theorem place_of_compile {source : String} {e : CompileError} (h : compile source = .error e) :
    e.place = .start ∨ e.place = .endOf source ∨ ∃ t ∈ Token.strict source, t.place = e.place := by
  have hparse := Except.map_eq_error.mp h
  unfold Expr.parse Expr.ofTokensOf at hparse
  obtain ⟨fault, hfault, rfl⟩ := Except.mapError_eq_error.mp hparse
  cases hplace : fault.place with
  | none => exact .inr (.inl rfl)
  | some p => exact (Expr.place_of_ofTokens hfault p hplace).imp_right .inr

/-- The tokens of both lexers stand one behind the other at places of the source, with blanks between what
is written for them, which is their text if they are no strings; and a source that does not compile fails
at a place of it. -/
theorem places_truthful (source : String) :
    Token.Placed false [] source.toList (Token.strict source) ∧
    Token.Placed true [] source.toList (Token.recovering source) ∧
    (∀ t, t ∈ Token.strict source ∨ t ∈ Token.recovering source →
      t.kind ≠ .string → t.kind ≠ .fault .unterminatedString →
        ∃ front rest, source.toList = front ++ t.text.toList ++ rest ∧ t.place = behind front) ∧
    ∀ e, compile source = .error e →
      (∃ front rest, source.toList = front ++ rest ∧ e.place = behind front) ∧
        e.place.offset ≤ source.utf8ByteSize := by
  have hstrict := Token.placed_strict source
  have hrecovering := Token.placed_recovering source
  refine ⟨hstrict, hrecovering, fun t ht hstring hunended => ?_, fun e he => ?_⟩
  · obtain ⟨front, rest, hsource, hplace, htext⟩ := ht.elim hstrict.mem hrecovering.mem
    obtain ⟨rest, rfl⟩ := htext hstring hunended
    exact ⟨front, rest, by rw [hsource, List.append_assoc], hplace⟩
  · have hsome : ∃ front rest, source.toList = front ++ rest ∧ e.place = behind front := by
      rcases place_of_compile he with hplace | hplace | ⟨t, ht, hplace⟩
      · exact ⟨[], source.toList, rfl, hplace⟩
      · exact ⟨source.toList, [], (List.append_nil _).symm, hplace.trans (Position.endOf_eq_behind source)⟩
      · obtain ⟨front, rest, hsource, hfront, -⟩ := hstrict.mem ht
        exact ⟨front, rest, hsource, hplace.symm.trans hfront⟩
    refine ⟨hsome, ?_⟩
    obtain ⟨front, rest, hsource, hplace⟩ := hsome
    have hsize : (behind source.toList).offset = source.utf8ByteSize := by rw [behind, String.ofList_toList]
    rw [hplace, ← hsize, hsource, Position.offset_behind_append]
    exact Nat.le_add_right _ _

def paragraphRule : String := "close > 'é\\n'\n  and § rsi"

theorem places_truthful_paragraphRule :
    ∃ e, compile paragraphRule = .error e ∧ e.place = ⟨2, 7, 21⟩ ∧
      (∃ front rest, paragraphRule.toList = front ++ rest ∧ e.place = behind front) ∧
      ∃ t ∈ Token.recovering paragraphRule, t.text = "rsi" ∧ t.kind ≠ .string ∧
        t.kind ≠ .fault .unterminatedString ∧
          ∃ front rest, paragraphRule.toList = front ++ t.text.toList ++ rest ∧ t.place = behind front := by
  have hfault : (Token.strict paragraphRule).findSome? (fun t => t.fault?.map fun f => (t, f)) =
      some (⟨.fault .illegalCharacter, "§", ⟨2, 7, 21⟩⟩, .illegalCharacter) := by decide +kernel
  have hcompile : compile paragraphRule = .error ⟨.lexical .illegalCharacter "§", ⟨2, 7, 21⟩⟩ := by
    rw [compile, Expr.parse, Expr.ofTokensOf, Expr.ofTokens, hfault]
    rfl
  have hmem : ⟨.identifier, "rsi", ⟨2, 9, 24⟩⟩ ∈ Token.recovering paragraphRule := by decide +kernel
  obtain ⟨-, -, hwritten, hplaces⟩ := places_truthful paragraphRule
  exact ⟨_, hcompile, rfl, (hplaces _ hcompile).1, _, hmem, rfl, nofun, nofun, hwritten _ (.inr hmem) nofun nofun⟩

end TradingRules
