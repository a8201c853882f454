/-!
# Outcomes over a plain host

Over `Id` the host is a plain function, and a computation that asks it and may fail has one
outcome: a value or an error.  The lemmas below take the outcome of a sequence apart at its
steps, once and for all, so that a statement about registration or about a call never has
to open the monad again.

Two directions are needed.  A success is read backwards, from the end of a sequence to the
success of each of its steps (`outcome_bind_eq_ok`); a failure is read forwards, from the
first step that fails (`outcome_bind_of_error`).
-/

namespace CustomizationPoints

variable {ε α β : Type}

/-- The outcome of a computation whose host is a plain function. -/
def outcome (x : ExceptT ε Id α) : Except ε α := x.run

theorem outcome_pure (a : α) : outcome (pure a : ExceptT ε Id α) = .ok a := rfl

/-- A check that asks nobody has the outcome that it computes. -/
theorem outcome_check (x : Except ε α) : outcome (liftM x : ExceptT ε Id α) = x := rfl

/-- A sequence is decided by the outcome of its first step. -/
theorem outcome_bind (x : ExceptT ε Id α) (f : α → ExceptT ε Id β) :
    outcome (x >>= f) = match outcome x with
      | .ok a => outcome (f a)
      | .error e => .error e := by
  unfold outcome
  rw [ExceptT.run_bind]
  rfl

/-- A sequence succeeds exactly when each of its steps does. -/
theorem outcome_bind_eq_ok {x : ExceptT ε Id α} {f : α → ExceptT ε Id β} {b : β} :
    outcome (x >>= f) = .ok b ↔ ∃ a, outcome x = .ok a ∧ outcome (f a) = .ok b := by
  rw [outcome_bind]
  constructor
  · intro h
    split at h
    next a hx => exact ⟨a, hx, h⟩
    next e hx => exact nomatch h
  · rintro ⟨a, hx, hf⟩
    rw [hx]
    exact hf

/-- After a successful step a sequence is what is left of it. -/
theorem outcome_bind_of_ok {x : ExceptT ε Id α} {f : α → ExceptT ε Id β} {a : α}
    (h : outcome x = .ok a) : outcome (x >>= f) = outcome (f a) := by
  rw [outcome_bind, h]

/-- The first failure is the failure of the sequence. -/
theorem outcome_bind_of_error {x : ExceptT ε Id α} {f : α → ExceptT ε Id β} {e : ε}
    (h : outcome x = .error e) : outcome (x >>= f) = .error e := by
  rw [outcome_bind, h]

/-- Asking the host, as a step of a sequence that may fail. -/
theorem liftM_eq_lift {m : Type → Type} [Monad m] (x : m α) :
    (liftM x : ExceptT ε m α) = ExceptT.lift x := rfl

/-- A question is answered at once, and the sequence goes on with the answer. -/
theorem outcome_lift_bind (x : Id α) (f : α → ExceptT ε Id β) :
    outcome (ExceptT.lift x >>= f) = outcome (f x.run) := by
  unfold outcome
  rw [ExceptT.run_bind_lift]
  rfl

/-! ## What is done with a value -/

theorem map_eq_ok_iff {x : Except ε α} {f : α → β} {b : β} :
    x.map f = .ok b ↔ ∃ a, x = .ok a ∧ f a = b := by
  cases x <;> simp [Except.map]

/-- A failure stays what it is. -/
theorem map_eq_error_iff {x : Except ε α} {f : α → β} {e : ε} :
    x.map f = .error e ↔ x = .error e := by
  cases x <;> simp [Except.map]

end CustomizationPoints
