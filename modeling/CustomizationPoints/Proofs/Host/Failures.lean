import CustomizationPoints.Proofs.PlainHost
import Mathlib.Tactic.Choose

/-!
# How work can fail

Over a plain host the failures of a computation can be read off its outcome.  Over any other host
there may be no outcome to read, so a statement about failures has to be one about the work itself:
work *fails only* in some ways if it is work that knows no other errors, seen as work that could
also fail otherwise.

Sequences keep the property, so it is proved of a piece of work by following its definition.
-/

namespace CustomizationPoints

variable {m : Type → Type} [Monad m] {ε α β : Type}

/-- If the work fails, then with an error of this kind. -/
def FailsOnly (kind : ε → Prop) (work : ExceptT ε m α) : Prop :=
  ∃ narrow : ExceptT {e // kind e} m α, narrow.adapt Subtype.val = work

/-- Errors are translated in each part of a sequence by itself. -/
theorem adapt_bind [LawfulMonad m] {ε' : Type} (f : ε → ε') (work : ExceptT ε m α)
    (next : α → ExceptT ε m β) :
    (work >>= next).adapt f = work.adapt f >>= fun a => (next a).adapt f := by
  refine ExceptT.ext ?_
  have hrun : ∀ {γ : Type} (x : ExceptT ε m γ), (x.adapt f).run = Except.mapError f <$> x.run :=
    fun _ => rfl
  rw [hrun, ExceptT.run_bind, ExceptT.run_bind, hrun, map_bind, bind_map_left]
  refine bind_congr fun result => ?_
  cases result with
  | ok a => rfl
  | error e => exact map_pure _ _

namespace FailsOnly

variable [LawfulMonad m] {kind : ε → Prop}

protected theorem pure (a : α) : FailsOnly kind (pure a : ExceptT ε m α) :=
  ⟨pure a, ExceptT.ext (map_pure _ _)⟩

theorem throw {e : ε} (h : kind e) : FailsOnly kind (MonadExcept.throw e : ExceptT ε m α) :=
  ⟨MonadExcept.throw ⟨e, h⟩, ExceptT.ext (map_pure _ _)⟩

/-- Asking the host is no failure. -/
theorem lift (x : m α) : FailsOnly kind (liftM x : ExceptT ε m α) := by
  refine ⟨liftM x, ExceptT.ext ?_⟩
  show Except.mapError Subtype.val <$> (Except.ok <$> x) = Except.ok <$> x
  rw [Functor.map_map]
  rfl

/-- A check fails with the errors that it computes. -/
theorem check {x : Except ε α} (h : ∀ e, x = .error e → kind e) :
    FailsOnly kind (liftM x : ExceptT ε m α) := by
  cases x with
  | ok a => exact .pure a
  | error e => exact .throw (h e rfl)

/-- A sequence fails where one of its parts does. -/
protected theorem bind {work : ExceptT ε m α} {next : α → ExceptT ε m β}
    (first : FailsOnly kind work) (rest : ∀ a, FailsOnly kind (next a)) :
    FailsOnly kind (work >>= next) := by
  obtain ⟨narrow, rfl⟩ := first
  choose narrowNext hnext using rest
  exact ⟨narrow >>= narrowNext, by simp only [adapt_bind, hnext]⟩

/-- Work that cannot fail is the host's own work. -/
theorem exists_lift {work : ExceptT ε m α} (h : FailsOnly (fun _ => False) work) :
    ∃ plain : m α, work = liftM plain := by
  obtain ⟨narrow, rfl⟩ := h
  let value : Except {_e : ε // False} α → α
    | .ok a => a
    | .error e => e.property.elim
  refine ⟨value <$> narrow.run, ExceptT.ext ?_⟩
  show Except.mapError Subtype.val <$> narrow.run = Except.ok <$> value <$> narrow.run
  rw [Functor.map_map]
  congr 1
  funext result
  cases result with
  | ok a => rfl
  | error e => exact e.property.elim

omit [LawfulMonad m] in
/-- Over a plain host the failure is the outcome. -/
theorem of_outcome {work : ExceptT ε Id α} (h : FailsOnly kind work) {e : ε}
    (failed : outcome work = .error e) : kind e := by
  obtain ⟨narrow, rfl⟩ := h
  have hmap : outcome (narrow.adapt Subtype.val) = (outcome narrow).mapError Subtype.val := rfl
  rw [hmap] at failed
  cases hnarrow : outcome narrow with
  | ok a =>
    rw [hnarrow] at failed
    exact nomatch failed
  | error narrowed =>
    rw [hnarrow] at failed
    cases failed
    exact narrowed.property

end FailsOnly
end CustomizationPoints
