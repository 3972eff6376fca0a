import TradingRules.Eval.Evaluator
import TradingRules.Proofs.Eval.Verdicts

/-!
# How a run ends

From a given host a run yields a value, or it fails; either way it leaves a host. One failure is no
verdict on what is evaluated: a run that aborts does so in one of its parts, and the parts before that
one have yielded (`aborts_bind`).
-/

namespace TradingRules

namespace Run

variable {σ α β : Type} {m : Run σ α} {f : α → Run σ β} {host host' : Option σ} {a : α} {b : β}

def outcome (m : Run σ α) (host : Option σ) : Except Failure α × Option σ := m.run.run host

def Yields (m : Run σ α) (host : Option σ) (a : α) (host' : Option σ) : Prop :=
  m.outcome host = (.ok a, host')

def Aborts (m : Run σ α) (host : Option σ) : Prop := (m.outcome host).1 = .error .abort

theorem outcome_bind (m : Run σ α) (f : α → Run σ β) (host : Option σ) :
    (m >>= f).outcome host =
      match m.outcome host with
      | (.ok a, next) => (f a).outcome next
      | (.error e, next) => (.error e, next) := by
  simp only [outcome, bind, ExceptT.bind, ExceptT.run, ExceptT.mk, StateT.run, StateT.bind]
  cases m host with
  | mk result next => cases result <;> rfl

theorem outcome_tryCatch (m : Run σ α) (handle : Failure → Run σ α) (host : Option σ) :
    (tryCatch m handle).outcome host =
      match m.outcome host with
      | (.ok a, next) => (.ok a, next)
      | (.error e, next) => (handle e).outcome next := by
  simp only [outcome, tryCatch, tryCatchThe, MonadExceptOf.tryCatch, ExceptT.tryCatch, ExceptT.run,
    ExceptT.mk, StateT.run, bind, StateT.bind]
  cases m host with
  | mk result next => cases result <;> rfl

theorem yields_pure : (pure a : Run σ α).Yields host a host := rfl

theorem pure_inj {c : α} : (pure a : Run σ α) = pure c ↔ a = c := by
  refine ⟨fun h => ?_, congrArg pure⟩
  have hend : ((.ok a, none) : Except Failure α × Option σ) = (.ok c, none) :=
    congrArg (fun m : Run σ α => m.outcome none) h
  cases hend
  rfl

theorem yields_bind : (m >>= f).Yields host b host' ↔
    ∃ a next, m.Yields host a next ∧ (f a).Yields next b host' := by
  simp only [Yields, outcome_bind]
  rcases m.outcome host with ⟨e | a, next⟩
  · simp
  · constructor
    · exact fun h => ⟨a, next, rfl, h⟩
    · rintro ⟨_, _, ⟨⟩, h⟩
      exact h

theorem outcome_ofExcept (x : Except Failure α) (host : Option σ) :
    (ofExcept x : Run σ α).outcome host = (x, host) := by
  cases x <;> rfl

theorem yields_ofExcept {x : Except Failure α} :
    (ofExcept x : Run σ α).Yields host a host' ↔ x = .ok a ∧ host = host' := by
  cases x with
  | ok b =>
    constructor
    · rintro ⟨⟩
      exact ⟨rfl, rfl⟩
    · rintro ⟨⟨⟩, rfl⟩
      exact yields_pure
  | error e => exact iff_of_false nofun fun h => nomatch h.1

@[simp] theorem aborts_pure : ¬(pure a : Run σ α).Aborts host := nofun

@[simp] theorem aborts_throw {e : Failure} : (throw e : Run σ α).Aborts host ↔ e = .abort :=
  ⟨Except.error.inj, congrArg Except.error⟩

theorem aborts_ofExcept {x : Except Failure α} :
    (ofExcept x : Run σ α).Aborts host ↔ ¬HasVerdict x := by
  cases x with
  | ok a => exact iff_of_false aborts_pure (not_not_intro hasVerdict_ok)
  | error e => simp [ofExcept]

theorem not_aborts_ofExcept {x : Except Failure α} (h : HasVerdict x) :
    ¬(ofExcept x : Run σ α).Aborts host :=
  fun habort => aborts_ofExcept.mp habort h

/-- A run aborts in its first part, or that yields and the rest aborts. -/
theorem aborts_bind : (m >>= f).Aborts host ↔
    m.Aborts host ∨ ∃ a next, m.Yields host a next ∧ (f a).Aborts next := by
  simp only [Aborts, Yields, outcome_bind]
  rcases m.outcome host with ⟨e | a, next⟩
  · simp
  · constructor
    · exact fun h => .inr ⟨a, next, rfl, h⟩
    · rintro (⟨⟨⟩⟩ | ⟨_, _, ⟨⟩, h⟩)
      exact h

theorem aborts_bind_of_not (h : ∀ a next, ¬(f a).Aborts next) :
    (m >>= f).Aborts host ↔ m.Aborts host := by
  simp [aborts_bind, h]

theorem aborts_get_bind {f : Option σ → Run σ α} :
    (get >>= f).Aborts host ↔ (f host).Aborts host := Iff.rfl

theorem not_aborts_recompute [RegimeHost σ] : ¬(recompute : Run σ Bool).Aborts host := by
  cases host <;> nofun

end Run

end TradingRules
