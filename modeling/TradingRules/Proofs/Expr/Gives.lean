import TradingRules.Expr.Parser
import TradingRules.Proofs.Outcome

/-!
# What a phrase gives

`Gives` says what holds of the result and of the cursor after a phrase, if it is read. The phrases that
take single tokens leave the count of levels as it is.
-/

namespace TradingRules.Expr

open Parse

namespace Parse

variable {α β : Type} {m : Parse α} {f : α → Parse β} {c : Cursor} {Q : α → Cursor → Prop}

def Gives (m : Parse α) (c : Cursor) (Q : α → Cursor → Prop) : Prop :=
  ∀ a c', m.run c = .ok (a, c') → Q a c'

theorem Gives.pure {a : α} (h : Q a c) : Gives (pure a) c Q := by
  intro a' c' hrun
  cases hrun
  exact h

theorem Gives.bind {R : β → Cursor → Prop} (hm : Gives m c Q)
    (hf : ∀ a c', Q a c' → Gives (f a) c' R) : Gives (m >>= f) c R := by
  intro b c'' hrun
  rw [StateT.run_bind] at hrun
  obtain ⟨⟨a, c'⟩, hfirst, hrest⟩ := Except.bind_eq_ok.mp hrun
  exact hf a c' (hm a c' hfirst) b c'' hrest

theorem Gives.mono {R : α → Cursor → Prop} (hm : Gives m c Q) (h : ∀ a c', Q a c' → R a c') :
    Gives m c R :=
  fun a c' hrun => h a c' (hm a c' hrun)

theorem Gives.throw {fault : Fault} : Gives (throw fault : Parse α) c Q :=
  fun _ _ hrun => nomatch hrun

theorem Gives.failHere {cause : Option String → Cause} : Gives (failHere cause : Parse α) c Q := by
  refine Gives.bind (Q := fun _ _ => True) (fun _ _ _ => trivial) fun t? c' _ => ?_
  cases t? <;> exact Gives.throw

theorem get_gives : Gives get c fun c₁ c' => c₁ = c ∧ c' = c := by
  intro c₁ c' hrun
  cases hrun
  exact ⟨rfl, rfl⟩

theorem set_gives (c₁ : Cursor) : Gives (set c₁) c fun _ c' => c' = c₁ := by
  intro _ c' hrun
  cases hrun
  rfl

theorem modify_gives (f : Cursor → Cursor) : Gives (modify f) c fun _ c' => c' = f c := by
  intro _ c' hrun
  cases hrun
  rfl

def SameLevels (c c' : Cursor) : Prop := c'.depth = c.depth ∧ c'.peak = c.peak

theorem SameLevels.trans {c' c'' : Cursor} (h : SameLevels c c') (h' : SameLevels c' c'') :
    SameLevels c c'' :=
  ⟨h'.1.trans h.1, h'.2.trans h.2⟩

theorem next?_gives : Gives next? c fun _ c' => SameLevels c c' := by
  refine Gives.bind get_gives ?_
  rintro _ _ ⟨rfl, rfl⟩
  exact Gives.pure ⟨rfl, rfl⟩

theorem skip_gives : Gives skip c fun _ c' => SameLevels c c' := by
  refine Gives.mono (modify_gives _) ?_
  rintro _ _ rfl
  exact ⟨rfl, rfl⟩

theorem accept_gives (test : Token → Bool) : Gives (accept test) c fun _ c' => SameLevels c c' := by
  refine Gives.bind next?_gives fun t? c₁ h₁ => ?_
  cases t? with
  | none => exact Gives.pure h₁
  | some t =>
    by_cases htest : test t = true
    · simp only [htest, ↓reduceIte]
      exact Gives.bind skip_gives fun _ c₂ h₂ => Gives.pure (h₁.trans h₂)
    · simp only [htest, Bool.false_eq_true, ↓reduceIte]
      exact Gives.pure h₁

theorem acceptOperator_gives (text : String) :
    Gives (acceptOperator text) c fun _ c' => SameLevels c c' :=
  accept_gives _

theorem acceptDelimiter_gives (text : String) :
    Gives (acceptDelimiter text) c fun _ c' => SameLevels c c' :=
  accept_gives _

theorem expectOperator_gives (text : String) :
    Gives (expectOperator text) c fun _ c' => SameLevels c c' := by
  refine Gives.bind (acceptOperator_gives text) fun found c' h => ?_
  cases found with
  | true => exact Gives.pure h
  | false => exact Gives.failHere

theorem expectDelimiter_gives (text : String) :
    Gives (expectDelimiter text) c fun _ c' => SameLevels c c' := by
  refine Gives.bind (acceptDelimiter_gives text) fun found c' h => ?_
  cases found with
  | true => exact Gives.pure h
  | false => exact Gives.failHere

theorem expectIdentifier_gives : Gives expectIdentifier c fun _ c' => SameLevels c c' := by
  refine Gives.bind next?_gives fun t? c₁ h₁ => ?_
  cases t? with
  | none => exact Gives.failHere
  | some t =>
    by_cases hkind : t.kind = .identifier
    · simp only [hkind, ↓reduceIte]
      exact Gives.bind skip_gives fun _ c₂ h₂ => Gives.pure (h₁.trans h₂)
    · simp only [hkind, ↓reduceIte]
      exact Gives.failHere

theorem settle_gives {t : Token} {verdict : Except Cause α} :
    Gives (settle t verdict) c fun a c' => verdict = .ok a ∧ SameLevels c c' := by
  cases verdict with
  | ok a => exact Gives.pure ⟨rfl, rfl, rfl⟩
  | error cause => exact Gives.throw

end Parse

end TradingRules.Expr
