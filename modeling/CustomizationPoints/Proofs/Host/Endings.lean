import CustomizationPoints.Proofs.Host.Failures
import CustomizationPoints.Proofs.Host.Results

/-!
# How work can end

Work that may fail ends with a value or with an error.  What can be said of the values
(`SatisfiesM`) and what can be said of the errors (`FailsOnly`) often depend on each other: which
errors the rest of a sequence can run into depends on the value with which its first part ended.
So here both are said at once, again of work over any host.

The rules are those for the pieces of which the library's work is made, and from the ending of the
whole either half can be read off (`Ends.satisfiesM`, `Ends.failsOnly`).
-/

namespace CustomizationPoints

variable {m : Type → Type} [Monad m] {ε α β : Type}

/-- The work ends with an error of this kind or with a value of which `p` holds. -/
def Ends (kind : ε → Prop) (p : α → Prop) (work : ExceptT ε m α) : Prop :=
  SatisfiesM (Except.rec kind p) work.run

namespace Ends

variable [LawfulMonad m] {kind kind' : ε → Prop} {p : α → Prop} {q : β → Prop}

protected theorem pure {a : α} (h : p a) : Ends kind p (pure a : ExceptT ε m α) :=
  SatisfiesM.pure h

theorem throw {e : ε} (h : kind e) : Ends kind p (MonadExcept.throw e : ExceptT ε m α) :=
  SatisfiesM.pure h

/-- Asking the host, as a step of work that may fail. -/
theorem lift {x : m α} (h : SatisfiesM p x) : Ends kind p (liftM x : ExceptT ε m α) := by
  rw [Ends, liftM_eq_lift, ExceptT.run_lift]
  exact h.map fun ha => ha

/-- A check ends as it computes. -/
theorem check {x : Except ε α} (ok : ∀ a, x = .ok a → p a) (error : ∀ e, x = .error e → kind e) :
    Ends kind p (liftM x : ExceptT ε m α) := by
  cases x with
  | ok a => exact .pure (ok a rfl)
  | error e => exact .throw (error e rfl)

/-- A sequence ends with an error of its first part, or as the rest ends after a value of it. -/
protected theorem bind {work : ExceptT ε m α} {next : α → ExceptT ε m β}
    (first : Ends kind p work) (rest : ∀ a, p a → Ends kind q (next a)) :
    Ends kind q (work >>= next) := by
  rw [Ends, ExceptT.run_bind]
  refine SatisfiesM.bind first fun result hresult => ?_
  cases result with
  | ok a => exact rest a hresult
  | error e => exact SatisfiesM.pure hresult

/-- After an error nothing is done. -/
theorem throw_bind {e : ε} (h : kind e) (next : α → ExceptT ε m β) :
    Ends kind q (MonadExcept.throw e >>= next) :=
  .bind (p := fun _ => False) (.throw h) fun _ never => never.elim

theorem imp {p' : α → Prop} {work : ExceptT ε m α} (h : Ends kind p work)
    (errors : ∀ e, kind e → kind' e) (values : ∀ a, p a → p' a) : Ends kind' p' work :=
  SatisfiesM.imp h fun {result} hresult => by
    cases result with
    | ok a => exact values a hresult
    | error e => exact errors e hresult

/-- What holds of the values. -/
theorem satisfiesM {work : ExceptT ε m α} (h : Ends kind p work) : SatisfiesM p work := by
  rw [SatisfiesM_ExceptT_eq]
  exact SatisfiesM.imp h fun {result} hresult a hok => by
    rw [hok] at hresult
    exact hresult

/-- What holds of the errors. -/
theorem failsOnly {work : ExceptT ε m α} (h : Ends kind p work) : FailsOnly kind work := by
  obtain ⟨narrow, hnarrow⟩ := h
  let separate : {result : Except ε α // Except.rec kind p result} → Except {e // kind e} α
    | ⟨.ok a, _⟩ => .ok a
    | ⟨.error e, he⟩ => .error ⟨e, he⟩
  refine ⟨ExceptT.mk (separate <$> narrow), ExceptT.ext ?_⟩
  show Except.mapError Subtype.val <$> (separate <$> narrow) = work.run
  rw [← hnarrow, Functor.map_map]
  congr 1
  funext result
  obtain ⟨_ | _, _⟩ := result <;> rfl

end Ends
end CustomizationPoints
