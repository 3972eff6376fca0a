import TradingRules.Expr.Compiled
import TradingRules.Proofs.Expr.Gives
import TradingRules.Proofs.Expr.Height

/-!
# What the count of levels bounds

Every phrase is read with a peak that reaches the span of its tree on top of the levels open before
it, and no peak passes `maxDepth`; so the span of every tree is bounded, though not its height.

The loop of a chain carries its first operand's peak as depth (`Waiting`): that covers the nodes the
chain puts on top, and each step's own operand until the next step goes above it.
-/

namespace TradingRules.Expr

open Parse

theorem Level.level_of_operator? {level : Level} {t : Token} {op : BinaryOp}
    (h : level.operator? t = some op) : op.level = level := by
  cases level <;> simp only [Level.operator?] at h <;> grind [BinaryOp.level]

theorem Level.acceptFrom_gives {level : Level} {c : Cursor} :
    Gives level.acceptFrom c fun op? c' =>
      SameLevels c c' ∧ ∀ op, op? = some op → op.level = level := by
  refine Gives.bind next?_gives fun t? c₁ h₁ => ?_
  cases t? with
  | none => exact Gives.pure ⟨h₁, fun _ h => nomatch h⟩
  | some t =>
    cases hop : level.operator? t with
    | none =>
      simp only [hop]
      exact Gives.pure ⟨h₁, fun _ h => nomatch h⟩
    | some op =>
      simp only [hop]
      refine Gives.bind skip_gives fun _ c₂ h₂ => Gives.pure ⟨h₁.trans h₂, ?_⟩
      rintro _ ⟨⟩
      exact level_of_operator? hop

-- ---------------------------------------------------------------------------
-- Levels
-- ---------------------------------------------------------------------------

structure Cursor.InOrder (c : Cursor) : Prop where
  depth_le : c.depth ≤ c.peak
  peak_le : c.peak ≤ maxDepth

structure Reached (b s : Nat) (c' : Cursor) : Prop where
  span : b + s ≤ c'.peak
  bounded : c'.peak ≤ maxDepth

/-- The same of a phrase that closes the levels it opened. -/
structure Counted (b s : Nat) (c c' : Cursor) : Prop extends Reached b s c' where
  depth : c'.depth = c.depth
  peak : c.peak ≤ c'.peak

variable {α : Type} {c c' c'' : Cursor} {b s t : Nat}

theorem Cursor.InOrder.same (h : c.InOrder) (hsame : SameLevels c c') : c'.InOrder := by
  obtain ⟨hdepth, hpeak⟩ := hsame
  exact ⟨by rw [hdepth, hpeak]; exact h.depth_le, by rw [hpeak]; exact h.peak_le⟩

theorem Counted.inOrder (h : Counted b s c c') (hc : c.InOrder) : c'.InOrder :=
  ⟨by rw [h.depth]; exact Nat.le_trans hc.depth_le h.peak, h.bounded⟩

theorem Cursor.InOrder.counted (h : c.InOrder) (hb : b ≤ c.depth) (hsame : SameLevels c c') :
    Counted b 0 c c' := by
  obtain ⟨hdepth, hpeak⟩ := hsame
  have := h.depth_le
  exact ⟨⟨by omega, by rw [hpeak]; exact h.peak_le⟩, hdepth, Nat.le_of_eq hpeak.symm⟩

theorem Counted.mono (h : Counted b s c c') {b' s' : Nat} (hle : b' + s' ≤ b + s) :
    Counted b' s' c c' :=
  ⟨⟨Nat.le_trans hle h.span, h.bounded⟩, h.depth, h.peak⟩

theorem Counted.then (h : Counted c.depth s c c') (h' : Counted c'.depth t c' c'') :
    Counted c.depth (max s t) c c'' := by
  rw [h.depth] at h'
  have := h.span
  have := h'.span
  have := h'.peak
  exact ⟨⟨by omega, h'.bounded⟩, h'.depth.trans h.depth, Nat.le_trans h.peak h'.peak⟩

theorem Counted.then_same (h : Counted b s c c') (h' : SameLevels c' c'') : Counted b s c c'' := by
  obtain ⟨hdepth, hpeak⟩ := h'
  exact ⟨⟨by rw [hpeak]; exact h.span, by rw [hpeak]; exact h.bounded⟩, hdepth.trans h.depth,
    by rw [hpeak]; exact h.peak⟩

theorem Counted.from_same (h : Counted b s c' c'') (hsame : SameLevels c c') :
    Counted b s c c'' := by
  obtain ⟨hdepth, hpeak⟩ := hsame
  exact ⟨h.toReached, h.depth.trans hdepth, by rw [← hpeak]; exact h.peak⟩

theorem Counted.after_same (h : Counted c'.depth s c' c'') (hsame : SameLevels c c') :
    Counted c.depth s c c'' := by
  rw [hsame.1] at h
  exact h.from_same hsame

/-- A phrase whose trees have their span counted on top of the levels open before it. -/
def Counts (phrase : Parse α) (size : α → Nat) : Prop :=
  ∀ c : Cursor, c.InOrder → Gives phrase c fun a c' => Counted c.depth (size a) c c'

theorem enter_gives (h : c.InOrder) :
    Gives enter c fun _ c' => c'.InOrder ∧ c'.depth = c.depth + 1 ∧ c.peak ≤ c'.peak := by
  unfold enter
  refine Gives.bind (modify_gives _) ?_
  rintro _ _ rfl
  refine Gives.bind get_gives ?_
  rintro _ _ ⟨rfl, rfl⟩
  by_cases hlimit : maxDepth < c.depth + 1
  · simp only [hlimit, ↓reduceIte]
    exact Gives.failHere
  · simp only [hlimit, ↓reduceIte]
    have := h.peak_le
    exact Gives.pure ⟨⟨Nat.le_max_right _ _, Nat.max_le.mpr ⟨this, Nat.le_of_not_lt hlimit⟩⟩, rfl,
      Nat.le_max_left _ _⟩

theorem nested_gives {phrase : Parse α} {size : α → Nat} (h : c.InOrder)
    (hphrase : ∀ c₁ : Cursor, c₁.InOrder → c₁.depth = c.depth + 1 →
      Gives phrase c₁ fun a c' => Counted b (size a) c₁ c') :
    Gives (nested phrase) c fun a c' => Counted b (size a) c c' := by
  refine Gives.bind (enter_gives h) fun _ c₁ ⟨h₁, hdepth, hpeak⟩ => ?_
  refine Gives.bind (hphrase c₁ h₁ hdepth) fun a c₂ h₂ => ?_
  refine Gives.bind (modify_gives _) ?_
  rintro _ _ rfl
  refine Gives.pure ⟨⟨h₂.span, h₂.bounded⟩, ?_, Nat.le_trans hpeak h₂.peak⟩
  change c₂.depth - 1 = c.depth
  rw [h₂.depth, hdepth, Nat.add_sub_cancel]

theorem withOwnPeak_gives {phrase : Parse α} {size : α → Nat} (h : c.InOrder)
    (hphrase : ∀ c₁ : Cursor, c₁.InOrder → c₁.depth = c.depth →
      Gives phrase c₁ fun a c' => Reached b (size a) c') :
    Gives (withOwnPeak phrase) c fun a c' => Counted b (size a) c c' := by
  unfold withOwnPeak
  refine Gives.bind get_gives ?_
  rintro _ _ ⟨rfl, rfl⟩
  refine Gives.bind (set_gives _) ?_
  rintro _ _ rfl
  have hlow := Nat.le_trans h.depth_le h.peak_le
  refine Gives.bind (hphrase _ ⟨Nat.le_refl _, hlow⟩ rfl) fun a c₁ h₁ => ?_
  refine Gives.bind (modify_gives _) ?_
  rintro _ _ rfl
  exact Gives.pure ⟨⟨Nat.le_trans h₁.span (Nat.le_max_left _ _),
    Nat.max_le.mpr ⟨h₁.bounded, h.peak_le⟩⟩, rfl, Nat.le_max_right _ _⟩

-- ---------------------------------------------------------------------------
-- Chains
-- ---------------------------------------------------------------------------

/-- The loop of a chain that began on `b` levels is about to put a step upon `left`. The levels open
are those of `left` as far as they count under a step, once the first step is taken. -/
structure Waiting (b : Nat) (ch : Chain) (stacked : Bool) (left : Expr) (c : Cursor) : Prop where
  inOrder : c.InOrder
  base : b ≤ c.depth
  span : b + span none left ≤ c.peak
  stacked : stacked = true → b + Expr.span (some ch) left ≤ c.depth

variable {ch : Chain} {stacked : Bool} {left e : Expr}

theorem Waiting.reached (h : Waiting b ch stacked left c) (hsame : SameLevels c c') :
    Reached b (Expr.span none left) c' := by
  obtain ⟨-, hpeak⟩ := hsame
  exact ⟨by rw [hpeak]; exact h.span, by rw [hpeak]; exact h.inOrder.peak_le⟩

theorem Waiting.same (h : Waiting b ch stacked left c) (hsame : SameLevels c c') :
    Waiting b ch stacked left c' := by
  obtain ⟨hdepth, hpeak⟩ := hsame
  refine ⟨h.inOrder.same ⟨hdepth, hpeak⟩, ?_, ?_, ?_⟩
  · rw [hdepth]
    exact h.base
  · rw [hpeak]
    exact h.span
  · rw [hdepth]
    exact h.stacked

theorem Waiting.start (hc : c.InOrder) (hb : b ≤ c.depth) (h : Counted b (Expr.span none e) c c') :
    Waiting b ch false e c' :=
  ⟨h.inOrder hc, by rw [h.depth]; exact hb, h.span, fun hstacked => nomatch hstacked⟩

/-- A step opens a level on top of what `left` counts for under it. -/
theorem Waiting.open_gives (h : Waiting b ch stacked left c) {phrase : Parse α}
    {Q : α → Cursor → Prop}
    (hphrase : ∀ c₁ : Cursor, c₁.InOrder → b + Expr.span (some ch) left < c₁.depth →
      Gives phrase c₁ Q) :
    Gives (do
      unless stacked do stack
      enter
      phrase) c Q := by
  have henter : ∀ c₁ : Cursor, c₁.InOrder → b + Expr.span (some ch) left ≤ c₁.depth →
      Gives (enter >>= fun _ => phrase) c₁ Q := by
    intro c₁ h₁ hlow
    refine Gives.bind (enter_gives h₁) fun _ c₂ ⟨h₂, hdepth, _⟩ => hphrase c₂ h₂ ?_
    omega
  cases stacked with
  | true => exact henter c h.inOrder (h.stacked rfl)
  | false =>
    refine Gives.bind (modify_gives _) ?_
    rintro _ _ rfl
    refine henter { c with depth := c.peak } ⟨Nat.le_refl _, h.inOrder.peak_le⟩ ?_
    exact Nat.le_trans (Nat.add_le_add_left (span_le_span_none _ left) b) h.span

/-- A step that brings operands of span `s` is what the next is put upon. -/
theorem Waiting.step (hc : c.InOrder) (hlow : b + Expr.span (some ch) left < c.depth)
    (hread : Counted c.depth s c c')
    (hspan : Expr.span none e ≤ 1 + max (Expr.span (some ch) left) s)
    (hon : Expr.span (some ch) e ≤ 1 + Expr.span (some ch) left) : Waiting b ch true e c' := by
  have hdepth := hread.depth
  have hreach := hread.span
  have hpeak := hread.peak
  have horder := hc.depth_le
  exact ⟨hread.inOrder hc, by omega, by omega, fun _ => by omega⟩

-- ---------------------------------------------------------------------------
-- Forms
-- ---------------------------------------------------------------------------

theorem span_negated_le (e : Expr) : Expr.span none (negated e) ≤ 1 + Expr.span none e := by
  have := one_le_span none e
  unfold negated
  split
  · simp only [Expr.span]
    omega
  · split <;> simp only [Expr.span] <;> omega
  · exact Nat.le_refl _

theorem span_call_le (name : String) (args : List Expr) :
    Expr.span none (.call name args) ≤ 1 + spanAll args := by
  cases args with
  | nil => exact Nat.le_refl 1
  | cons e args =>
    have := span_le_span_none (some .steps) e
    simp only [Expr.span, spanAll, Chain.counted_none]
    omega

theorem span_ofFunctionForm_le {name : String} {args : List Expr}
    (h : ofFunctionForm name args = .ok e) : Expr.span none e ≤ 1 + spanAll args := by
  unfold ofFunctionForm at h
  split at h
  · split at h
    · split at h
      · cases h
        simp only [Expr.span, spanAll]
        omega
      · cases h
    · cases h
  · split at h
    · rename_i kind range var body hkind
      cases h
      have := span_le_span_none (some .steps) range
      simp only [Expr.span, spanAll, Chain.counted_none]
      omega
    · cases h
      exact span_call_le name _

theorem span_ofMethodForm_le (target : Expr) (name : String) (args : List Expr) :
    Expr.span none (ofMethodForm target name args) ≤
      1 + max (Expr.span (some .steps) target) (spanAll args) := by
  unfold ofMethodForm
  split
  · simp only [Expr.span, spanAll, Chain.counted_none]
    omega
  · exact Nat.le_refl _

theorem span_ofMethodForm_steps (target : Expr) (name : String) (args : List Expr) :
    Expr.span (some .steps) (ofMethodForm target name args) =
      1 + Expr.span (some .steps) target := by
  unfold ofMethodForm
  split <;> simp only [Expr.span, Chain.counted_self, Nat.max_zero]

theorem span_of_literalOf? {t : Token} (h : literalOf? t = some (.ok e)) : Expr.span none e = 1 := by
  unfold literalOf? at h
  repeat' split at h
  all_goals cases h
  all_goals rfl

-- ---------------------------------------------------------------------------
-- Phrases
-- ---------------------------------------------------------------------------

/-- How the phrases of one amount of fuel count. A postfix phrase and its primary share the level that
the unary phrase around them has opened. -/
structure AllCount (fuel : Nat) : Prop where
  expression : Counts (Phrase.expression fuel) (Expr.span none)
  chain (level : Level) : Counts (Phrase.chain fuel level) (Expr.span none)
  operand (level : Level) : Counts (Phrase.operand fuel level) (Expr.span none)
  chainTail {b : Nat} {level : Level} {stacked : Bool} {left : Expr} {c : Cursor} :
    Waiting b (.operators level) stacked left c →
      Gives (Phrase.chainTail fuel level stacked left) c fun e c' => Reached b (Expr.span none e) c'
  unary : Counts (Phrase.unary fuel) (Expr.span none)
  postfixed {b : Nat} {c : Cursor} : c.InOrder → b < c.depth →
    Gives (Phrase.postfixed fuel) c fun e c' => Counted b (Expr.span none e) c c'
  postfixTail {b : Nat} {stacked : Bool} {left : Expr} {c : Cursor} :
    Waiting b .steps stacked left c →
      Gives (Phrase.postfixTail fuel stacked left) c fun e c' => Reached b (Expr.span none e) c'
  arguments : Counts (Phrase.arguments fuel) spanAll
  moreArguments : Counts (Phrase.moreArguments fuel) spanAll
  items : Counts (Phrase.items fuel) spanAll
  primary {b : Nat} {c : Cursor} : c.InOrder → b < c.depth →
    Gives (Phrase.primary fuel) c fun e c' => Counted b (Expr.span none e) c c'

variable {fuel : Nat}

theorem expression_counts (ih : AllCount fuel) :
    Counts (Phrase.expression (fuel + 1)) (Expr.span none) := by
  intro c hc
  unfold Phrase.expression
  refine nested_gives hc fun c₁ h₁ hdepth => ?_
  refine Gives.bind (ih.chain .or c₁ h₁) fun condition c₂ h₂ => ?_
  refine Gives.bind (acceptOperator_gives "?") fun found c₃ h₃ => ?_
  cases found with
  | false =>
    refine Gives.pure ((h₂.then_same h₃).mono ?_)
    omega
  | true =>
    have h₁₃ := h₂.then_same h₃
    refine Gives.bind (ih.expression c₃ (h₁₃.inOrder h₁)) fun yes c₄ h₄ => ?_
    refine Gives.bind (expectOperator_gives ":") fun _ c₅ h₅ => ?_
    have h₃₅ := h₄.then_same h₅
    have h₅ordered := h₃₅.inOrder (h₁₃.inOrder h₁)
    refine Gives.bind (ih.expression c₅ h₅ordered) fun no c₆ h₆ => ?_
    have hall := h₁₃.then (h₃₅.then h₆)
    refine Gives.pure (hall.mono ?_)
    simp only [Expr.span]
    omega

theorem chainTail_counts (ih : AllCount fuel) {level : Level}
    (h : Waiting b (.operators level) stacked left c) :
    Gives (Phrase.chainTail (fuel + 1) level stacked left) c fun e c' =>
      Reached b (Expr.span none e) c' := by
  unfold Phrase.chainTail
  refine Gives.bind Level.acceptFrom_gives fun op? c₁ ⟨h₁, hlevel⟩ => ?_
  cases op? with
  | none => exact Gives.pure (h.reached h₁)
  | some op =>
    obtain rfl := hlevel op rfl
    refine (h.same h₁).open_gives fun c₂ h₂ hlow => ?_
    refine Gives.bind (ih.operand op.level c₂ h₂) fun right c₃ h₃ => ?_
    refine ih.chainTail (Waiting.step h₂ hlow h₃ ?_ ?_)
    · simp only [Expr.span, Chain.counted_none, Nat.le_refl]
    · simp only [Expr.span, Chain.counted_self, Nat.max_zero, Nat.le_refl]

theorem operand_counts (ih : AllCount fuel) (level : Level) :
    Counts (Phrase.operand (fuel + 1) level) (Expr.span none) := by
  unfold Phrase.operand
  cases level.tighter? with
  | some tighter => exact ih.chain tighter
  | none => exact ih.unary

theorem chain_counts (ih : AllCount fuel) (level : Level) :
    Counts (Phrase.chain (fuel + 1) level) (Expr.span none) := by
  intro c hc
  unfold Phrase.chain
  refine withOwnPeak_gives hc fun c₁ h₁ hdepth => ?_
  rw [← hdepth]
  refine Gives.bind (ih.operand level c₁ h₁) fun left c₂ h₂ => ?_
  exact ih.chainTail (Waiting.start h₁ (Nat.le_refl _) h₂)

theorem unary_counts (ih : AllCount fuel) :
    Counts (Phrase.unary (fuel + 1)) (Expr.span none) := by
  intro c hc
  unfold Phrase.unary
  refine nested_gives hc fun c₁ h₁ hdepth => ?_
  refine Gives.bind (accept_gives _) fun found c₂ h₂ => ?_
  have hc₂ := h₁.same h₂
  cases found with
  | true =>
    refine Gives.bind (ih.unary c₂ hc₂) fun e c₃ h₃ => ?_
    refine Gives.pure ((h₃.after_same h₂).mono ?_)
    simp only [Expr.span]
    omega
  | false =>
    refine Gives.bind (acceptOperator_gives "-") fun found c₃ h₃ => ?_
    have h₁₃ := h₂.trans h₃
    have hc₃ := h₁.same h₁₃
    cases found with
    | true =>
      refine Gives.bind (ih.unary c₃ hc₃) fun e c₄ h₄ => ?_
      refine Gives.pure ((h₄.after_same h₁₃).mono ?_)
      have := span_negated_le e
      omega
    | false =>
      have hlow : c.depth < c₃.depth := by
        have := h₁₃.1
        omega
      exact (ih.postfixed hc₃ hlow).mono fun e c₄ h₄ => h₄.from_same h₁₃

theorem postfixed_counts (ih : AllCount fuel) (hc : c.InOrder) (hb : b < c.depth) :
    Gives (Phrase.postfixed (fuel + 1)) c fun e c' => Counted b (Expr.span none e) c c' := by
  unfold Phrase.postfixed
  refine withOwnPeak_gives hc fun c₁ h₁ hdepth => ?_
  have hlow : b < c₁.depth := by omega
  refine Gives.bind (ih.primary h₁ hlow) fun e c₂ h₂ => ?_
  exact ih.postfixTail (Waiting.start h₁ (Nat.le_of_lt hlow) h₂)

theorem postfixTail_counts (ih : AllCount fuel) (h : Waiting b .steps stacked left c) :
    Gives (Phrase.postfixTail (fuel + 1) stacked left) c fun e c' =>
      Reached b (Expr.span none e) c' := by
  unfold Phrase.postfixTail
  refine Gives.bind (acceptOperator_gives ".") fun found c₁ h₁ => ?_
  cases found with
  | true =>
    refine (h.same h₁).open_gives fun c₂ h₂ hlow => ?_
    refine Gives.bind expectIdentifier_gives fun name c₃ h₃ => ?_
    refine Gives.bind (acceptDelimiter_gives "(") fun found c₄ h₄ => ?_
    have h₂₄ := h₃.trans h₄
    cases found with
    | true =>
      refine Gives.bind (ih.arguments c₄ (h₂.same h₂₄)) fun args c₅ h₅ => ?_
      refine ih.postfixTail (Waiting.step h₂ hlow (h₅.after_same h₂₄) ?_ ?_)
      · exact span_ofMethodForm_le left name args
      · exact Nat.le_of_eq (span_ofMethodForm_steps left name args)
    | false =>
      refine ih.postfixTail (Waiting.step h₂ hlow (h₂.counted (Nat.le_refl _) h₂₄) ?_ ?_)
      · simp only [Expr.span]
        omega
      · simp only [Expr.span, Nat.le_refl]
  | false =>
    refine Gives.bind (acceptDelimiter_gives "[") fun found c₂ h₂ => ?_
    have h₁₂ := h₁.trans h₂
    cases found with
    | true =>
      refine (h.same h₁₂).open_gives fun c₃ h₃ hlow => ?_
      refine Gives.bind (ih.expression c₃ h₃) fun key c₄ h₄ => ?_
      refine Gives.bind (expectDelimiter_gives "]") fun _ c₅ h₅ => ?_
      refine ih.postfixTail (Waiting.step h₃ hlow (h₄.then_same h₅) ?_ ?_)
      · simp only [Expr.span, Chain.counted_none, Nat.le_refl]
      · simp only [Expr.span, Chain.counted_self, Nat.max_zero, Nat.le_refl]
    | false => exact Gives.pure (h.reached h₁₂)

theorem arguments_counts (ih : AllCount fuel) : Counts (Phrase.arguments (fuel + 1)) spanAll := by
  intro c hc
  unfold Phrase.arguments
  refine Gives.bind (acceptDelimiter_gives ")") fun found c₁ h₁ => ?_
  cases found with
  | true => exact Gives.pure (hc.counted (Nat.le_refl _) h₁)
  | false =>
    refine (ih.moreArguments c₁ (hc.same h₁)).mono fun args c₂ h₂ => ?_
    exact h₂.after_same h₁

theorem moreArguments_counts (ih : AllCount fuel) :
    Counts (Phrase.moreArguments (fuel + 1)) spanAll := by
  intro c hc
  unfold Phrase.moreArguments
  refine Gives.bind (ih.expression c hc) fun e c₁ h₁ => ?_
  refine Gives.bind (acceptDelimiter_gives ")") fun found c₂ h₂ => ?_
  have h₀₂ := h₁.then_same h₂
  cases found with
  | true => exact Gives.pure (h₀₂.mono (by simp only [spanAll, Nat.max_zero, Nat.le_refl]))
  | false =>
    refine Gives.bind (acceptDelimiter_gives ",") fun found c₃ h₃ => ?_
    have h₀₃ := h₀₂.then_same h₃
    cases found with
    | true =>
      refine Gives.bind (ih.moreArguments c₃ (h₀₃.inOrder hc)) fun args c₄ h₄ => ?_
      exact Gives.pure (h₀₃.then h₄)
    | false => exact Gives.failHere

theorem items_counts (ih : AllCount fuel) : Counts (Phrase.items (fuel + 1)) spanAll := by
  intro c hc
  unfold Phrase.items
  refine Gives.bind (acceptDelimiter_gives "]") fun found c₁ h₁ => ?_
  cases found with
  | true => exact Gives.pure (hc.counted (Nat.le_refl _) h₁)
  | false =>
    refine Gives.bind (ih.expression c₁ (hc.same h₁)) fun e c₂ h₂ => ?_
    refine Gives.bind (acceptDelimiter_gives "]") fun found c₃ h₃ => ?_
    have h₀₃ := (h₂.then_same h₃).after_same h₁
    cases found with
    | true => exact Gives.pure (h₀₃.mono (by simp only [spanAll, Nat.max_zero, Nat.le_refl]))
    | false =>
      refine Gives.bind (acceptDelimiter_gives ",") fun found c₄ h₄ => ?_
      have h₀₄ := h₀₃.then_same h₄
      cases found with
      | true =>
        refine Gives.bind (ih.items c₄ (h₀₄.inOrder hc)) fun rest c₅ h₅ => ?_
        exact Gives.pure (h₀₄.then h₅)
      | false => exact Gives.failHere

theorem primary_counts (ih : AllCount fuel) (hc : c.InOrder) (hb : b < c.depth) :
    Gives (Phrase.primary (fuel + 1)) c fun e c' => Counted b (Expr.span none e) c c' := by
  have hleaf {c' : Cursor} (h : SameLevels c c') {e : Expr} (he : Expr.span none e = 1) :
      Counted b (Expr.span none e) c c' :=
    (hc.counted hb h).mono (by omega)
  unfold Phrase.primary
  refine Gives.bind next?_gives fun t? c₁ h₁ => ?_
  cases t? with
  | none => exact Gives.failHere
  | some t =>
    simp only
    cases hliteral : literalOf? t with
    | some verdict =>
      refine Gives.bind skip_gives fun _ c₂ h₂ => ?_
      refine settle_gives.mono fun e c₃ ⟨hok, h₃⟩ => ?_
      subst hok
      exact hleaf ((h₁.trans h₂).trans h₃) (span_of_literalOf? hliteral)
    | none =>
      simp only
      split
      · exact Gives.throw
      split
      · refine Gives.bind skip_gives fun _ c₂ h₂ => ?_
        refine Gives.bind (acceptDelimiter_gives "(") fun found c₃ h₃ => ?_
        have h₀₃ := (h₁.trans h₂).trans h₃
        cases found with
        | true =>
          refine Gives.bind (ih.arguments c₃ (hc.same h₀₃)) fun args c₄ h₄ => ?_
          refine settle_gives.mono fun e c₅ ⟨hok, h₅⟩ => ?_
          have := span_ofFunctionForm_le hok
          exact ((h₄.after_same h₀₃).then_same h₅).mono (by omega)
        | false => exact Gives.pure (hleaf h₀₃ rfl)
      split
      · refine Gives.bind skip_gives fun _ c₂ h₂ => ?_
        have h₀₂ := h₁.trans h₂
        refine Gives.bind (ih.expression c₂ (hc.same h₀₂)) fun e c₃ h₃ => ?_
        refine Gives.bind (expectDelimiter_gives ")") fun _ c₄ h₄ => ?_
        exact Gives.pure (((h₃.after_same h₀₂).then_same h₄).mono (by omega))
      split
      · refine Gives.bind skip_gives fun _ c₂ h₂ => ?_
        have h₀₂ := h₁.trans h₂
        refine Gives.bind (ih.items c₂ (hc.same h₀₂)) fun items c₃ h₃ => ?_
        refine Gives.pure ((h₃.after_same h₀₂).mono ?_)
        simp only [Expr.span]
        omega
      · exact Gives.throw

/-- Every phrase counts the span of its trees, whatever fuel is left. -/
theorem allCount (fuel : Nat) : AllCount fuel := by
  induction fuel with
  | zero =>
    -- Without fuel every phrase fails.
    exact {
      expression := fun _ _ => by rw [Phrase.expression]; exact Gives.failHere
      chain := fun _ _ _ => by rw [Phrase.chain]; exact Gives.failHere
      operand := fun _ _ _ => by rw [Phrase.operand]; exact Gives.failHere
      chainTail := fun _ => by rw [Phrase.chainTail]; exact Gives.failHere
      unary := fun _ _ => by rw [Phrase.unary]; exact Gives.failHere
      postfixed := fun _ _ => by rw [Phrase.postfixed]; exact Gives.failHere
      postfixTail := fun _ => by rw [Phrase.postfixTail]; exact Gives.failHere
      arguments := fun _ _ => by rw [Phrase.arguments]; exact Gives.failHere
      moreArguments := fun _ _ => by rw [Phrase.moreArguments]; exact Gives.failHere
      items := fun _ _ => by rw [Phrase.items]; exact Gives.failHere
      primary := fun _ _ => by rw [Phrase.primary]; exact Gives.failHere }
  | succ fuel ih =>
    exact {
      expression := expression_counts ih
      chain := chain_counts ih
      operand := operand_counts ih
      chainTail := chainTail_counts ih
      unary := unary_counts ih
      postfixed := postfixed_counts ih
      postfixTail := postfixTail_counts ih
      arguments := arguments_counts ih
      moreArguments := moreArguments_counts ih
      items := items_counts ih
      primary := primary_counts ih }

-- ---------------------------------------------------------------------------
-- Source texts
-- ---------------------------------------------------------------------------

theorem span_le_of_ofTokens {tokens : List Token} (h : ofTokens tokens = .ok e) :
    Expr.span none e ≤ maxDepth := by
  unfold ofTokens at h
  split at h
  · cases h
  split at h
  · cases h
  obtain ⟨⟨e', c'⟩, hrun, rfl⟩ := Except.map_eq_ok.mp h
  have hstart : Cursor.InOrder ⟨tokens, 0, 0⟩ := ⟨Nat.le_refl 0, Nat.zero_le _⟩
  have hcount : Gives (Phrase.whole (32 * (tokens.length + 1))) ⟨tokens, 0, 0⟩ fun e c' =>
      Reached 0 (Expr.span none e) c' := by
    refine Gives.bind ((allCount _).expression _ hstart) fun e c₁ h₁ => ?_
    refine Gives.bind get_gives ?_
    rintro _ _ ⟨rfl, rfl⟩
    split
    · exact Gives.pure h₁.toReached
    · exact Gives.bind (Q := fun _ _ => False) Gives.failHere fun _ _ h => h.elim
  have hreached := hcount e' c' hrun
  calc Expr.span none e'
    _ = 0 + Expr.span none e' := (Nat.zero_add _).symm
    _ ≤ c'.peak := hreached.span
    _ ≤ maxDepth := hreached.bounded

theorem span_le_of_parse {source : String} (h : parse source = .ok e) :
    Expr.span none e ≤ maxDepth := by
  exact span_le_of_ofTokens (Except.mapError_eq_ok.mp h)

/-- A parsed tree is at most `maxDepth` high exactly if no operand between the first and the last of a
chain makes it higher. -/
theorem parse_height_le_iff {source : String} (h : parse source = .ok e) :
    e.height ≤ maxDepth ↔ ∀ n x, Between none e n x → n + x.height ≤ maxDepth := by
  constructor
  · intro hheight n x hx
    exact Nat.le_trans hx.height_le hheight
  · exact height_le_of_span e (span_le_of_parse h)

theorem parse_height_le_of_low_operand_between :
    ∃ e, parse "a + !b + c" = .ok e ∧ e.height ≤ maxDepth ∧
      ∀ n x, Between none e n x → n + x.height ≤ maxDepth := by
  have hlow : (parse "a + !b + c").toOption.map height = some 4 := by decide +kernel
  obtain ⟨e, hsome, hheight⟩ := Option.map_eq_some_iff.mp hlow
  have hparse := Except.toOption_eq_some.mp hsome
  have hle : e.height ≤ maxDepth := by
    rw [hheight]
    decide
  exact ⟨e, hparse, hle, (parse_height_le_iff hparse).mp hle⟩

def tallOperandBetween : String := "1+" ++ String.ofList (List.replicate 252 '!') ++ "1+1+1+1"

theorem parse_tallOperandBetween : ∃ e, parse tallOperandBetween = .ok e ∧ maxDepth < e.height := by
  have htall : (parse tallOperandBetween).toOption.map height = some 257 := by decide +kernel
  obtain ⟨e, hsome, hheight⟩ := Option.map_eq_some_iff.mp htall
  refine ⟨e, Except.toOption_eq_some.mp hsome, ?_⟩
  rw [hheight]
  decide

end TradingRules.Expr
