import Mathlib.Order.Defs.Unbundled

/-! Programs with a state and errors: the state that a program leaves behind, and relations between
the states before and after. -/

namespace SiteBroker

namespace Program

variable {ε σ α β : Type}

/-- The state in which a program ended, be it with a result or with an error. -/
def left : EStateM.Result ε σ α → σ
  | .ok _ s | .error _ s => s

@[simp] theorem left_ok (a : α) (s : σ) : left (.ok a s : EStateM.Result ε σ α) = s := rfl

@[simp] theorem left_error (e : ε) (s : σ) : left (.error e s : EStateM.Result ε σ α) = s := rfl

theorem bind_of_ok {x : EStateM ε σ α} {s s' : σ} {a : α} (h : x s = .ok a s')
    (f : α → EStateM ε σ β) : (x >>= f) s = f a s' := by
  simp [bind, EStateM.bind, h]

theorem bind_of_error {x : EStateM ε σ α} {s s' : σ} {e : ε} (h : x s = .error e s')
    (f : α → EStateM ε σ β) : (x >>= f) s = .error e s' := by
  simp [bind, EStateM.bind, h]

theorem bind_eq_ok {x : EStateM ε σ α} {f : α → EStateM ε σ β} {s s' : σ} {b : β}
    (h : (x >>= f) s = .ok b s') : ∃ a s₁, x s = .ok a s₁ ∧ f a s₁ = .ok b s' := by
  cases hx : x s with
  | ok a s₁ => exact ⟨a, s₁, rfl, by rwa [bind_of_ok hx] at h⟩
  | error e s₁ =>
    rw [bind_of_error hx] at h
    cases h

@[simp] theorem left_bind_pure (x : EStateM ε σ α) (f : α → β) (s : σ) :
    left ((x >>= fun a => pure (f a)) s) = left (x s) := by
  cases h : x s with
  | ok a s' =>
    rw [bind_of_ok h]
    rfl
  | error e s' =>
    rw [bind_of_error h]
    rfl

/-- The program ends with a result and not with an error. -/
def Succeeds (r : EStateM.Result ε σ α) : Prop := ∃ a s, r = .ok a s

theorem succeeds_bind_pure (x : EStateM ε σ α) (f : α → β) (s : σ) :
    Succeeds ((x >>= fun a => pure (f a)) s) ↔ Succeeds (x s) := by
  constructor
  · rintro ⟨b, s', h⟩
    obtain ⟨a, s₁, hx, -⟩ := bind_eq_ok h
    exact ⟨a, s₁, hx⟩
  · rintro ⟨a, s', h⟩
    exact ⟨f a, s', bind_of_ok h _⟩

theorem not_succeeds_error (e : ε) (s : σ) : ¬ Succeeds (.error e s : EStateM.Result ε σ α) := by
  rintro ⟨a, s', h⟩
  cases h

theorem Succeeds.eq_ok {r : EStateM.Result ε σ Unit} (h : Succeeds r) : r = .ok () (left r) := by
  obtain ⟨⟨⟩, s, rfl⟩ := h
  rfl

instance : DecidablePred (Succeeds : EStateM.Result ε σ α → Prop)
  | .ok a s => .isTrue ⟨a, s, rfl⟩
  | .error e s => .isFalse (not_succeeds_error e s)

/-- Two runs leave the same state, and either both of them succeed or none does. -/
def SameEnd (r : EStateM.Result ε σ α) (r' : EStateM.Result ε σ β) : Prop :=
  left r = left r' ∧ (Succeeds r ↔ Succeeds r')

theorem sameEnd_bind_pure (x : EStateM ε σ α) (f : α → β) (s : σ) :
    SameEnd ((x >>= fun a => pure (f a)) s) (x s) :=
  ⟨left_bind_pure x f s, succeeds_bind_pure x f s⟩

theorem left_bind {R : σ → σ → Prop} [IsPreorder σ R] {x : EStateM ε σ α}
    {f : α → EStateM ε σ β} {s : σ} (hx : R s (left (x s)))
    (hf : ∀ a s', x s = .ok a s' → R s' (left (f a s'))) : R s (left ((x >>= f) s)) := by
  cases h : x s with
  | ok a s' =>
    rw [bind_of_ok h]
    rw [h] at hx
    exact trans_of R hx (hf a s' h)
  | error e s' =>
    rw [bind_of_error h]
    rwa [h] at hx

/-- From whatever state a program starts, the relation leads to the state that it leaves. -/
def Goes (R : σ → σ → Prop) (x : EStateM ε σ α) : Prop := ∀ s, R s (left (x s))

namespace Goes

variable {R : σ → σ → Prop} [IsPreorder σ R]

theorem pure (a : α) : Goes R (Pure.pure a : EStateM ε σ α) := fun s => refl_of R s

theorem get : Goes R (MonadState.get : EStateM ε σ σ) := fun s => refl_of R s

theorem bind {x : EStateM ε σ α} {f : α → EStateM ε σ β} (hx : Goes R x) (hf : ∀ a, Goes R (f a)) :
    Goes R (x >>= f) := fun s => left_bind (hx s) fun a s' _ => hf a s'

end Goes

end Program

end SiteBroker
