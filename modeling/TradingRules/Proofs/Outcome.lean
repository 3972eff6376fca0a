/-!
# How a computation that may fail ends

One that changes a state leaves a state in either case: its outcome is the result together with that state.
-/

namespace Except

theorem bind_eq_ok {x : Except ε α} {f : α → Except ε β} :
    x >>= f = .ok b ↔ ∃ a, x = .ok a ∧ f a = .ok b := by
  cases x <;> simp [bind, Except.bind]

theorem pure_eq_ok : (pure a : Except ε α) = .ok b ↔ a = b := by
  simp [pure, Except.pure]

theorem map_eq_ok {x : Except ε α} {f : α → β} : x.map f = .ok b ↔ ∃ a, x = .ok a ∧ f a = b := by
  cases x <;> simp [Except.map]

theorem map_eq_error {x : Except ε α} {f : α → β} : x.map f = .error e ↔ x = .error e := by
  cases x <;> simp [Except.map]

theorem mapError_error (e : ε) (f : ε → ε') : (.error e : Except ε α).mapError f = .error (f e) := rfl

theorem mapError_ok (a : α) (f : ε → ε') : (.ok a : Except ε α).mapError f = .ok a := rfl

theorem mapError_eq_ok {x : Except ε α} {f : ε → ε'} : x.mapError f = .ok a ↔ x = .ok a := by
  cases x <;> simp [mapError_error, mapError_ok]

theorem mapError_eq_error {x : Except ε α} {f : ε → ε'} :
    x.mapError f = .error e ↔ ∃ e', x = .error e' ∧ f e' = e := by
  cases x <;> simp [mapError_error, mapError_ok]

theorem toOption_eq_some {x : Except ε α} : x.toOption = some a ↔ x = .ok a := by
  cases x <;> simp [Except.toOption]

theorem isOk_iff {x : Except ε α} : x.isOk = true ↔ ∃ a, x = .ok a := by
  cases x <;> simp [isOk, Except.toBool]

theorem exists_eq_error_iff {x : Except ε α} : (∃ e, x = .error e) ↔ ¬∃ a, x = .ok a := by
  cases x <;> simp

theorem guarded_eq_ok {c : Prop} [Decidable c] {x : PUnit → Except ε α} :
    (if c then throw e >>= x else x ()) = .ok a ↔ ¬c ∧ x () = .ok a := by
  by_cases hc : c
  · simp [hc, bind, Except.bind, throw, throwThe, MonadExceptOf.throw]
  · simp [hc]

end Except

namespace ExceptT

variable {ε σ α β : Type} {m : ExceptT ε (StateM σ) α} {f : α → ExceptT ε (StateM σ) β} {s t : σ} {b : β}

def outcome (m : ExceptT ε (StateM σ) α) (s : σ) : Except ε α × σ := m.run.run s

theorem outcome_bind (m : ExceptT ε (StateM σ) α) (f : α → ExceptT ε (StateM σ) β) (s : σ) :
    (m >>= f).outcome s =
      match m.outcome s with
      | (.ok a, next) => (f a).outcome next
      | (.error e, next) => (.error e, next) := by
  simp only [outcome, bind, ExceptT.bind, ExceptT.run, ExceptT.mk, StateT.run, StateT.bind]
  cases m s with
  | mk result next => cases result <;> rfl

end ExceptT

theorem List.exists_of_mem_mapM {α β : Type} {f : α → Option β} {items : List α} {read : List β} {b : β}
    (h : items.mapM f = some read) (hb : b ∈ read) : ∃ a ∈ items, f a = some b := by
  induction items generalizing read with
  | nil =>
    cases h
    cases hb
  | cons first rest ih =>
    simp only [List.mapM_cons, Option.bind_eq_bind, Option.bind_eq_some_iff] at h
    obtain ⟨c, hc, more, hmore, hread⟩ := h
    cases hread
    rcases List.mem_cons.mp hb with rfl | hb
    · exact ⟨first, List.mem_cons_self, hc⟩
    · obtain ⟨a, ha, hab⟩ := ih hmore hb
      exact ⟨a, List.mem_cons_of_mem _ ha, hab⟩
