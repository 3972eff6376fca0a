import TradingRules.Proofs.Expr.Gives
import TradingRules.Proofs.Expr.Grammar

/-!
# What is read is derived

Every phrase the parser reads derives in the grammar, and the tree it answers is that of the written
expression (`derives_of_ofTokens`). The loop of a chain carries the derivation of what was read before.
-/

namespace TradingRules.Expr

open Parse Grammar

namespace Parse

variable {α : Type} {c : Cursor}

def Took (test : Token → Bool) (c : Cursor) (found : Bool) (c' : Cursor) : Prop :=
  if found then ∃ t, test t = true ∧ c.tokens = t :: c'.tokens else c'.tokens = c.tokens

theorem next?_reads : Gives next? c fun t? c' => t? = c.tokens.head? ∧ c'.tokens = c.tokens := by
  rintro t? c' hrun
  cases hrun
  exact ⟨rfl, rfl⟩

theorem skip_reads : Gives skip c fun _ c' => c'.tokens = c.tokens.tail := by
  rintro _ c' hrun
  cases hrun
  rfl

theorem accept_took (test : Token → Bool) : Gives (accept test) c (Took test c) := by
  refine Gives.bind next?_reads ?_
  rintro t? c₁ ⟨rfl, h₁⟩
  cases htokens : c.tokens with
  | nil => exact Gives.pure h₁
  | cons t rest =>
    simp only [List.head?_cons]
    split
    · rename_i htest
      refine Gives.bind skip_reads fun _ c₂ h₂ => Gives.pure ⟨t, htest, ?_⟩
      rw [h₂, h₁, htokens, List.tail_cons]
    · exact Gives.pure h₁

theorem expectOperator_took (text : String) : Gives (expectOperator text) c fun _ c' =>
    ∃ t, t.isOperator text = true ∧ c.tokens = t :: c'.tokens := by
  refine Gives.bind (accept_took _) fun found c' h => ?_
  cases found with
  | true => exact Gives.pure h
  | false => exact Gives.failHere

theorem expectDelimiter_took (text : String) : Gives (expectDelimiter text) c fun _ c' =>
    ∃ t, t.isDelimiter text = true ∧ c.tokens = t :: c'.tokens := by
  refine Gives.bind (accept_took _) fun found c' h => ?_
  cases found with
  | true => exact Gives.pure h
  | false => exact Gives.failHere

theorem expectIdentifier_took : Gives expectIdentifier c fun name c' =>
    ∃ t, t.kind = .identifier ∧ name = t.text ∧ c.tokens = t :: c'.tokens := by
  refine Gives.bind next?_reads ?_
  rintro t? c₁ ⟨rfl, h₁⟩
  cases htokens : c.tokens with
  | nil => exact Gives.failHere
  | cons t rest =>
    simp only [List.head?_cons]
    split
    · rename_i hkind
      refine Gives.bind skip_reads fun _ c₂ h₂ => Gives.pure ⟨t, hkind, rfl, ?_⟩
      rw [h₂, h₁, htokens, List.tail_cons]
    · exact Gives.failHere

theorem settle_reads {t : Token} {verdict : Except Cause α} :
    Gives (settle t verdict) c fun a c' => verdict = .ok a ∧ c'.tokens = c.tokens := by
  cases verdict with
  | ok a => exact Gives.pure ⟨rfl, rfl⟩
  | error cause => exact Gives.throw

theorem acceptFrom_took {level : Level} : Gives level.acceptFrom c fun op? c' =>
    match op? with
    | some op => ∃ t, t.key ∈ op.spellings ∧ op.level = level ∧ c.tokens = t :: c'.tokens
    | none => c'.tokens = c.tokens := by
  refine Gives.bind next?_reads ?_
  rintro t? c₁ ⟨rfl, h₁⟩
  cases htokens : c.tokens with
  | nil => exact Gives.pure (h₁.trans htokens)
  | cons t rest =>
    simp only [List.head?_cons]
    split
    · rename_i op hop
      obtain ⟨hkey, hlevel⟩ := Level.operator?_eq_some.mp hop
      refine Gives.bind skip_reads fun _ c₂ h₂ => Gives.pure ⟨t, hkey, hlevel, ?_⟩
      rw [h₂, h₁, htokens, List.tail_cons]
    · exact Gives.pure (h₁.trans htokens)

-- ---------------------------------------------------------------------------
-- Levels take no tokens
-- ---------------------------------------------------------------------------

theorem enter_reads : Gives enter c fun _ c' => c'.tokens = c.tokens := by
  unfold enter
  refine Gives.bind (modify_gives _) ?_
  rintro _ _ rfl
  refine Gives.bind get_gives ?_
  rintro _ _ ⟨rfl, rfl⟩
  split
  · exact Gives.failHere
  · exact Gives.pure rfl

abbrev Reading (α : Type) := List Token → α → List Token → Prop

def Reads (phrase : Parse α) (R : Reading α) : Prop :=
  ∀ c : Cursor, Gives phrase c fun a c' => R c.tokens a c'.tokens

variable {R : Reading α} {phrase : Parse α}

theorem Reads.failHere {cause : Option String → Cause} : Reads (failHere cause : Parse α) R :=
  fun _ => Gives.failHere

theorem Reads.nested (h : Reads phrase R) : Reads (nested phrase) R := by
  intro c
  refine Gives.bind enter_reads fun _ c₁ h₁ => ?_
  refine Gives.bind (h c₁) fun a c₂ h₂ => ?_
  refine Gives.bind (modify_gives _) ?_
  rintro _ _ rfl
  exact Gives.pure (h₁ ▸ h₂)

theorem Reads.withOwnPeak (h : Reads phrase R) : Reads (withOwnPeak phrase) R := by
  intro c
  unfold Parse.withOwnPeak
  refine Gives.bind get_gives ?_
  rintro _ _ ⟨rfl, rfl⟩
  refine Gives.bind (set_gives _) ?_
  rintro _ _ rfl
  refine Gives.bind (h _) fun a c₁ h₁ => ?_
  refine Gives.bind (modify_gives _) ?_
  rintro _ _ rfl
  exact Gives.pure h₁

theorem Reads.step (h : Reads phrase R) (stacked : Bool) :
    Reads (do
      unless stacked do stack
      enter
      phrase) R := by
  intro c
  cases stacked with
  | true => exact Gives.bind enter_reads fun _ c₁ h₁ => h₁ ▸ h c₁
  | false =>
    refine Gives.bind (modify_gives _) ?_
    rintro _ _ rfl
    exact Gives.bind enter_reads fun _ c₁ h₁ => h₁ ▸ h c₁

end Parse

-- ---------------------------------------------------------------------------
-- Phrases
-- ---------------------------------------------------------------------------

def Spells (s : Nonterminal) : Parse.Reading Expr := fun before e after =>
  ∃ ts w, before = ts ++ after ∧ Derives s ts w ∧ w.tree? = some e

/-- The rest of a chain is read, of which `ts` and `w` are the part before. -/
def Extends (s : Nonterminal) (ts : List Token) : Parse.Reading Expr := fun before e after =>
  ∃ us w, before = us ++ after ∧ Derives s (ts ++ us) w ∧ w.tree? = some e

def SpellsAll (listed : List (List Token) → List Token → Prop) (close : String) :
    Parse.Reading (List Expr) := fun before items after =>
  ∃ (parts : List Part) (us : List Token) (closing : Token),
    before = us ++ closing :: after ∧ closing.isDelimiter close = true ∧
      listed (parts.map Prod.fst) us ∧ (∀ a ∈ parts, Derives .expression a.1 a.2) ∧
      Written.trees? (parts.map Prod.snd) = some items

structure AllRead (fuel : Nat) : Prop where
  expression : Reads (Phrase.expression fuel) (Spells .expression)
  chain (level : Level) : Reads (Phrase.chain fuel level) (Spells (.level level))
  operand (level : Level) : Reads (Phrase.operand fuel level) (Spells (Grammar.operand level))
  chainTail {level : Level} {ts : List Token} {w : Written} {left : Expr} (stacked : Bool) :
    Derives (.level level) ts w → w.tree? = some left →
      Reads (Phrase.chainTail fuel level stacked left) (Extends (.level level) ts)
  unary : Reads (Phrase.unary fuel) (Spells .unary)
  postfixed : Reads (Phrase.postfixed fuel) (Spells .postfixed)
  postfixTail {ts : List Token} {w : Written} {left : Expr} (stacked : Bool) :
    Derives .postfixed ts w → w.tree? = some left →
      Reads (Phrase.postfixTail fuel stacked left) (Extends .postfixed ts)
  arguments : Reads (Phrase.arguments fuel) (SpellsAll (Listed false) ")")
  moreArguments : Reads (Phrase.moreArguments fuel) (SpellsAll (Separated false) ")")
  items : Reads (Phrase.items fuel) (SpellsAll (Listed true) "]")
  primary : Reads (Phrase.primary fuel) (Spells .primary)

variable {fuel : Nat}

theorem expression_reads (ih : AllRead fuel) :
    Reads (Phrase.expression (fuel + 1)) (Spells .expression) := by
  unfold Phrase.expression
  refine Reads.nested fun c => ?_
  refine Gives.bind (ih.chain .or c) ?_
  rintro condition c₁ ⟨ts, wc, h₁, hc, hctree⟩
  refine Gives.bind (accept_took _) fun found c₂ h₂ => ?_
  cases found with
  | false => exact Gives.pure ⟨ts, wc, by rw [h₁, h₂], .plain hc, hctree⟩
  | true =>
    obtain ⟨question, hquestion, h₂⟩ := h₂
    refine Gives.bind (ih.expression c₂) ?_
    rintro yes c₃ ⟨us, wy, h₃, hy, hytree⟩
    refine Gives.bind (expectOperator_took ":") ?_
    rintro _ c₄ ⟨colon, hcolon, h₄⟩
    refine Gives.bind (ih.expression c₄) ?_
    rintro no c₅ ⟨vs, wn, h₅, hn, hntree⟩
    refine Gives.pure ⟨_, _, ?_, .ternary hc hquestion hy hcolon hn, ?_⟩
    · simp [h₁, h₂, h₃, h₄, h₅]
    · simp [Written.tree?, hctree, hytree, hntree]

theorem chainTail_reads (ih : AllRead fuel) {level : Level} {ts : List Token} {w : Written}
    {left : Expr} (stacked : Bool) (hw : Derives (.level level) ts w) (htree : w.tree? = some left) :
    Reads (Phrase.chainTail (fuel + 1) level stacked left) (Extends (.level level) ts) := by
  intro c
  unfold Phrase.chainTail
  refine Gives.bind acceptFrom_took fun op? c₁ h₁ => ?_
  cases op? with
  | none => exact Gives.pure ⟨[], w, h₁.symm, by rwa [List.append_nil], htree⟩
  | some op =>
    obtain ⟨sign, hop, hlevel, h₁⟩ := h₁
    have hstep : Reads (do
        let right ← Phrase.operand fuel level
        Phrase.chainTail fuel level true (.binary op left right)) fun before e after =>
          ∃ us w, before = us ++ after ∧ Derives (.level level) (ts ++ sign :: us) w ∧
            w.tree? = some e := by
      intro c₂
      refine Gives.bind (ih.operand level c₂) ?_
      rintro right c₃ ⟨us, wr, h₃, hr, hrtree⟩
      have hbinary := Derives.binary hw hop hlevel hr
      refine (ih.chainTail true hbinary (by simp [Written.tree?, htree, hrtree]) c₃).mono ?_
      rintro e c₄ ⟨vs, we, h₄, he, hetree⟩
      exact ⟨us ++ vs, we, by simp [h₃, h₄], by simpa using he, hetree⟩
    refine (hstep.step stacked c₁).mono ?_
    rintro e c₂ ⟨us, we, h₂, he, hetree⟩
    exact ⟨sign :: us, we, by simp [h₁, h₂], he, hetree⟩

theorem operand_reads (ih : AllRead fuel) (level : Level) :
    Reads (Phrase.operand (fuel + 1) level) (Spells (Grammar.operand level)) := by
  unfold Phrase.operand Grammar.operand
  cases level.tighter? with
  | some tighter => exact ih.chain tighter
  | none => exact ih.unary

theorem chain_reads (ih : AllRead fuel) (level : Level) :
    Reads (Phrase.chain (fuel + 1) level) (Spells (.level level)) := by
  unfold Phrase.chain
  refine Reads.withOwnPeak fun c => ?_
  refine Gives.bind (ih.operand level c) ?_
  rintro left c₁ ⟨ts, w, h₁, hw, htree⟩
  refine (ih.chainTail false (.operand hw) htree c₁).mono ?_
  rintro e c₂ ⟨us, we, h₂, he, hetree⟩
  exact ⟨ts ++ us, we, by simp [h₁, h₂], he, hetree⟩

theorem unary_reads (ih : AllRead fuel) : Reads (Phrase.unary (fuel + 1)) (Spells .unary) := by
  unfold Phrase.unary
  refine Reads.nested fun c => ?_
  refine Gives.bind (accept_took _) fun found c₁ h₁ => ?_
  cases found with
  | true =>
    obtain ⟨sign, hsign, h₁⟩ := h₁
    refine Gives.bind (ih.unary c₁) ?_
    rintro e c₂ ⟨ts, w, h₂, hw, htree⟩
    refine Gives.pure ⟨sign :: ts, .unary .not w, by simp [h₁, h₂], .unary ?_ hw, ?_⟩
    · simpa [UnaryOp.spellings, Token.key, Token.isOperator, Token.isKeyword] using hsign
    · simp [Written.tree?, Written.ofUnary, htree]
  | false =>
    replace h₁ : c₁.tokens = c.tokens := h₁
    refine Gives.bind (accept_took _) fun found c₂ h₂ => ?_
    cases found with
    | true =>
      obtain ⟨sign, hsign, h₂⟩ := h₂
      refine Gives.bind (ih.unary c₂) ?_
      rintro e c₃ ⟨ts, w, h₃, hw, htree⟩
      refine Gives.pure ⟨sign :: ts, .unary .negate w, by simp [← h₁, h₂, h₃], .unary ?_ hw, ?_⟩
      · simpa [UnaryOp.spellings, Token.key, Token.isOperator] using hsign
      · simp [Written.tree?, Written.ofUnary, htree]
    | false =>
      refine (ih.postfixed c₂).mono ?_
      rintro e c₃ ⟨ts, w, h₃, hw, htree⟩
      exact ⟨ts, w, by rw [← h₁, ← h₂, h₃], .postfixed hw, htree⟩

theorem postfixed_reads (ih : AllRead fuel) :
    Reads (Phrase.postfixed (fuel + 1)) (Spells .postfixed) := by
  unfold Phrase.postfixed
  refine Reads.withOwnPeak fun c => ?_
  refine Gives.bind (ih.primary c) ?_
  rintro left c₁ ⟨ts, w, h₁, hw, htree⟩
  refine (ih.postfixTail false (.primary hw) htree c₁).mono ?_
  rintro e c₂ ⟨us, we, h₂, he, hetree⟩
  exact ⟨ts ++ us, we, by simp [h₁, h₂], he, hetree⟩

theorem afterPoint_reads (ih : AllRead fuel) {ts : List Token} {w : Written} {left : Expr}
    {point : Token} (hw : Derives .postfixed ts w) (htree : w.tree? = some left)
    (hpoint : point.isOperator "." = true) :
    Reads (do
      let name ← expectIdentifier
      if ← acceptDelimiter "(" then
        let args ← Phrase.arguments fuel
        Phrase.postfixTail fuel true (ofMethodForm left name args)
      else Phrase.postfixTail fuel true (.member left name)) fun before e after =>
        Extends .postfixed ts (point :: before) e after := by
  intro c
  refine Gives.bind expectIdentifier_took ?_
  rintro _ c₁ ⟨name, hname, rfl, h₁⟩
  refine Gives.bind (accept_took _) fun found c₂ h₂ => ?_
  cases found with
  | true =>
    obtain ⟨opening, hopen, h₂⟩ := h₂
    refine Gives.bind (ih.arguments c₂) ?_
    rintro args c₃ ⟨parts, us, closing, h₃, hclose, hlisted, hparts, hargs⟩
    have hmethod := Derives.method hw hpoint hname hopen hlisted hparts hclose
    refine (ih.postfixTail true hmethod (by simp [Written.tree?, htree, hargs]) c₃).mono ?_
    rintro e c₄ ⟨vs, we, h₄, he, hetree⟩
    exact ⟨point :: name :: opening :: (us ++ closing :: vs), we, by simp [h₁, h₂, h₃, h₄],
      by simpa using he, hetree⟩
  | false =>
    replace h₂ : c₂.tokens = c₁.tokens := h₂
    have hmember := Derives.member hw hpoint hname
    refine (ih.postfixTail true hmember (by simp [Written.tree?, htree]) c₂).mono ?_
    rintro e c₃ ⟨vs, we, h₃, he, hetree⟩
    exact ⟨point :: name :: vs, we, by simp [h₁, ← h₂, h₃], by simpa using he, hetree⟩

theorem afterBracket_reads (ih : AllRead fuel) {ts : List Token} {w : Written} {left : Expr}
    {opening : Token} (hw : Derives .postfixed ts w) (htree : w.tree? = some left)
    (hopen : opening.isDelimiter "[" = true) :
    Reads (do
      let key ← Phrase.expression fuel
      expectDelimiter "]"
      Phrase.postfixTail fuel true (.index left key)) fun before e after =>
        Extends .postfixed ts (opening :: before) e after := by
  intro c
  refine Gives.bind (ih.expression c) ?_
  rintro key c₁ ⟨us, wk, h₁, hk, hktree⟩
  refine Gives.bind (expectDelimiter_took "]") ?_
  rintro _ c₂ ⟨closing, hclose, h₂⟩
  have hindex := Derives.index hw hopen hk hclose
  refine (ih.postfixTail true hindex (by simp [Written.tree?, htree, hktree]) c₂).mono ?_
  rintro e c₃ ⟨vs, we, h₃, he, hetree⟩
  exact ⟨opening :: (us ++ closing :: vs), we, by simp [h₁, h₂, h₃], by simpa using he, hetree⟩

theorem postfixTail_reads (ih : AllRead fuel) {ts : List Token} {w : Written} {left : Expr}
    (stacked : Bool) (hw : Derives .postfixed ts w) (htree : w.tree? = some left) :
    Reads (Phrase.postfixTail (fuel + 1) stacked left) (Extends .postfixed ts) := by
  intro c
  unfold Phrase.postfixTail
  refine Gives.bind (accept_took _) fun found c₁ h₁ => ?_
  cases found with
  | true =>
    obtain ⟨point, hpoint, h₁⟩ := h₁
    rw [h₁]
    exact (afterPoint_reads ih hw htree hpoint).step stacked c₁
  | false =>
    replace h₁ : c₁.tokens = c.tokens := h₁
    refine Gives.bind (accept_took _) fun found c₂ h₂ => ?_
    cases found with
    | true =>
      obtain ⟨opening, hopen, h₂⟩ := h₂
      rw [← h₁, h₂]
      exact (afterBracket_reads ih hw htree hopen).step stacked c₂
    | false =>
      replace h₂ : c₂.tokens = c₁.tokens := h₂
      exact Gives.pure ⟨[], w, by rw [← h₁, ← h₂]; rfl, by rwa [List.append_nil], htree⟩

theorem arguments_reads (ih : AllRead fuel) :
    Reads (Phrase.arguments (fuel + 1)) (SpellsAll (Listed false) ")") := by
  intro c
  unfold Phrase.arguments
  refine Gives.bind (accept_took _) fun found c₁ h₁ => ?_
  cases found with
  | true =>
    obtain ⟨closing, hclose, h₁⟩ := h₁
    exact Gives.pure ⟨[], [], closing, h₁, hclose, .inl ⟨rfl, rfl⟩, by simp, rfl⟩
  | false =>
    replace h₁ : c₁.tokens = c.tokens := h₁
    refine (ih.moreArguments c₁).mono ?_
    rintro args c₂ ⟨parts, us, closing, h₂, hclose, hseparated, hparts, hargs⟩
    exact ⟨parts, us, closing, h₁ ▸ h₂, hclose, .inr hseparated, hparts, hargs⟩

theorem forall_part_cons {ts : List Token} {w : Written} {parts : List Part}
    (h : Derives .expression ts w) (hparts : ∀ a ∈ parts, Derives .expression a.1 a.2) :
    ∀ a ∈ (ts, w) :: parts, Derives .expression a.1 a.2 := by
  intro a ha
  rcases List.mem_cons.mp ha with rfl | ha
  · exact h
  · exact hparts a ha

theorem moreArguments_reads (ih : AllRead fuel) :
    Reads (Phrase.moreArguments (fuel + 1)) (SpellsAll (Separated false) ")") := by
  intro c
  unfold Phrase.moreArguments
  refine Gives.bind (ih.expression c) ?_
  rintro e c₁ ⟨ts, w, h₁, hw, htree⟩
  refine Gives.bind (accept_took _) fun found c₂ h₂ => ?_
  cases found with
  | true =>
    obtain ⟨closing, hclose, h₂⟩ := h₂
    exact Gives.pure ⟨[(ts, w)], ts, closing, by rw [h₁, h₂], hclose, .one, by simpa using hw,
      by simp [Written.trees?, htree]⟩
  | false =>
    replace h₂ : c₂.tokens = c₁.tokens := h₂
    refine Gives.bind (accept_took _) fun found c₃ h₃ => ?_
    cases found with
    | true =>
      obtain ⟨comma, hcomma, h₃⟩ := h₃
      refine Gives.bind (ih.moreArguments c₃) ?_
      rintro args c₄ ⟨parts, us, closing, h₄, hclose, hseparated, hparts, hargs⟩
      exact Gives.pure ⟨(ts, w) :: parts, ts ++ comma :: us, closing,
        by simp [h₁, ← h₂, h₃, h₄], hclose, .more hcomma hseparated, forall_part_cons hw hparts,
        by simp [Written.trees?, htree, hargs]⟩
    | false => exact Gives.failHere

theorem items_reads (ih : AllRead fuel) :
    Reads (Phrase.items (fuel + 1)) (SpellsAll (Listed true) "]") := by
  intro c
  unfold Phrase.items
  refine Gives.bind (accept_took _) fun found c₁ h₁ => ?_
  cases found with
  | true =>
    obtain ⟨closing, hclose, h₁⟩ := h₁
    exact Gives.pure ⟨[], [], closing, h₁, hclose, .inl ⟨rfl, rfl⟩, by simp, rfl⟩
  | false =>
    replace h₁ : c₁.tokens = c.tokens := h₁
    refine Gives.bind (ih.expression c₁) ?_
    rintro e c₂ ⟨ts, w, h₂, hw, htree⟩
    refine Gives.bind (accept_took _) fun found c₃ h₃ => ?_
    cases found with
    | true =>
      obtain ⟨closing, hclose, h₃⟩ := h₃
      exact Gives.pure ⟨[(ts, w)], ts, closing, by rw [← h₁, h₂, h₃], hclose, .inr .one,
        by simpa using hw, by simp [Written.trees?, htree]⟩
    | false =>
      replace h₃ : c₃.tokens = c₂.tokens := h₃
      refine Gives.bind (accept_took _) fun found c₄ h₄ => ?_
      cases found with
      | true =>
        obtain ⟨comma, hcomma, h₄⟩ := h₄
        refine Gives.bind (ih.items c₄) ?_
        rintro items c₅ ⟨parts, us, closing, h₅, hclose, hlisted, hparts, hitems⟩
        have htokens : c.tokens = ts ++ comma :: us ++ closing :: c₅.tokens := by
          simp [← h₁, h₂, ← h₃, h₄, h₅]
        refine Gives.pure ⟨(ts, w) :: parts, ts ++ comma :: us, closing, htokens, hclose, .inr ?_,
          forall_part_cons hw hparts, by simp [Written.trees?, htree, hitems]⟩
        -- Either the comma was the last or more follows.
        rcases hlisted with ⟨hnone, rfl⟩ | hseparated
        · rw [List.map_cons, hnone]
          exact .last hcomma rfl
        · exact .more hcomma hseparated
      | false => exact Gives.failHere

theorem literalOf?_eq_ok {t : Token} {e : Expr} : literalOf? t = some (.ok e) ↔
    t.isLiteral = true ∧ (Written.literal t.kind t.text).tree? = some e := by
  obtain ⟨kind, text, place⟩ := t
  unfold literalOf? Token.isLiteral Written.tree?
  cases kind with
  | int => cases h : Decimal.readInt64? text.toList <;> simp [Written.literalValue?, h]
  | float => cases h : Decimal.readDouble? text.toList <;> simp [Written.literalValue?, h]
  | string => simp [Written.literalValue?]
  | keyword => grind [Written.literalValue?]
  | _ => simp

theorem literalOf?_eq_none {t : Token} : literalOf? t = none ↔ t.isLiteral = false := by
  obtain ⟨kind, text, place⟩ := t
  unfold literalOf? Token.isLiteral
  cases kind with
  | keyword => grind
  | _ => simp

theorem primary_reads (ih : AllRead fuel) : Reads (Phrase.primary (fuel + 1)) (Spells .primary) := by
  intro c
  unfold Phrase.primary
  refine Gives.bind next?_reads ?_
  rintro t? c₁ ⟨rfl, h₁⟩
  cases htokens : c.tokens with
  | nil => exact Gives.failHere
  | cons t rest =>
    have hskip : Gives skip c₁ fun _ c' => c'.tokens = rest :=
      skip_reads.mono fun _ c' h => by rw [h, h₁, htokens, List.tail_cons]
    simp only [List.head?_cons]
    split
    · rename_i verdict hliteral
      refine Gives.bind hskip fun _ c₂ h₂ => settle_reads.mono ?_
      rintro e c₃ ⟨rfl, h₃⟩
      obtain ⟨hisLiteral, htree⟩ := literalOf?_eq_ok.mp hliteral
      exact ⟨[t], _, by rw [h₃, h₂]; rfl, .literal hisLiteral, htree⟩
    · split
      · exact Gives.throw
      split
      · rename_i hkind
        refine Gives.bind hskip fun _ c₂ h₂ => ?_
        refine Gives.bind (accept_took _) fun found c₃ h₃ => ?_
        cases found with
        | true =>
          obtain ⟨opening, hopen, h₃⟩ := h₃
          refine Gives.bind (ih.arguments c₃) ?_
          rintro args c₄ ⟨parts, us, closing, h₄, hclose, hlisted, hparts, hargs⟩
          refine settle_reads.mono ?_
          rintro e c₅ ⟨hform, h₅⟩
          refine ⟨_, _, ?_, .call hkind hopen hlisted hparts hclose, ?_⟩
          · simp [← h₂, h₃, h₄, h₅]
          · simp [Written.tree?, hargs, hform, Except.toOption]
        | false =>
          replace h₃ : c₃.tokens = c₂.tokens := h₃
          exact Gives.pure ⟨[t], _, by rw [h₃, h₂]; rfl, .ident hkind, rfl⟩
      split
      · rename_i hopen
        refine Gives.bind hskip fun _ c₂ h₂ => ?_
        refine Gives.bind (ih.expression c₂) ?_
        rintro e c₃ ⟨ts, w, h₃, hw, htree⟩
        refine Gives.bind (expectDelimiter_took ")") ?_
        rintro _ c₄ ⟨closing, hclose, h₄⟩
        exact Gives.pure ⟨_, _, by simp [← h₂, h₃, h₄], .bracketed hopen hw hclose, htree⟩
      split
      · rename_i hopen
        refine Gives.bind hskip fun _ c₂ h₂ => ?_
        refine Gives.bind (ih.items c₂) ?_
        rintro items c₃ ⟨parts, us, closing, h₃, hclose, hlisted, hparts, hitems⟩
        refine Gives.pure ⟨_, _, ?_, .list hopen hlisted hparts hclose, ?_⟩
        · simp [← h₂, h₃]
        · simp [Written.tree?, hitems]
      · exact Gives.throw

theorem allRead (fuel : Nat) : AllRead fuel := by
  induction fuel with
  | zero =>
    -- Without fuel every phrase fails.
    exact {
      expression := by rw [Phrase.expression]; exact Reads.failHere
      chain := fun _ => by rw [Phrase.chain]; exact Reads.failHere
      operand := fun _ => by rw [Phrase.operand]; exact Reads.failHere
      chainTail := fun _ _ _ => by rw [Phrase.chainTail]; exact Reads.failHere
      unary := by rw [Phrase.unary]; exact Reads.failHere
      postfixed := by rw [Phrase.postfixed]; exact Reads.failHere
      postfixTail := fun _ _ _ => by rw [Phrase.postfixTail]; exact Reads.failHere
      arguments := by rw [Phrase.arguments]; exact Reads.failHere
      moreArguments := by rw [Phrase.moreArguments]; exact Reads.failHere
      items := by rw [Phrase.items]; exact Reads.failHere
      primary := by rw [Phrase.primary]; exact Reads.failHere }
  | succ fuel ih =>
    exact {
      expression := expression_reads ih
      chain := chain_reads ih
      operand := operand_reads ih
      chainTail := chainTail_reads ih
      unary := unary_reads ih
      postfixed := postfixed_reads ih
      postfixTail := postfixTail_reads ih
      arguments := arguments_reads ih
      moreArguments := moreArguments_reads ih
      items := items_reads ih
      primary := primary_reads ih }

-- ---------------------------------------------------------------------------
-- The whole
-- ---------------------------------------------------------------------------

theorem whole_reads (fuel : Nat) : Reads (Phrase.whole fuel) fun before e _ =>
    ∃ w, Derives .expression before w ∧ w.tree? = some e := by
  intro c
  unfold Phrase.whole
  refine Gives.bind ((allRead fuel).expression c) ?_
  rintro e c₁ ⟨ts, w, h₁, hw, htree⟩
  refine Gives.bind get_gives ?_
  rintro _ _ ⟨rfl, rfl⟩
  split
  · rename_i hend
    rw [List.isEmpty_iff.mp hend, List.append_nil] at h₁
    exact Gives.pure ⟨w, h₁ ▸ hw, htree⟩
  · exact Gives.bind (Q := fun _ _ => False) Gives.failHere fun _ _ h => h.elim

/-- An expression answered is the tree of one the tokens spell. -/
theorem derives_of_ofTokens {tokens : List Token} {e : Expr} (h : ofTokens tokens = .ok e) :
    ∃ w, Derives .expression tokens w ∧ w.tree? = some e := by
  unfold ofTokens at h
  split at h
  · cases h
  · split at h
    · cases h
    · obtain ⟨⟨_, c'⟩, hrun, rfl⟩ := Except.map_eq_ok.mp h
      exact whole_reads _ _ _ _ hrun

end TradingRules.Expr
