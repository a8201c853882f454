import Mathlib
import CustomizationPoints.Host.Asking
import CustomizationPoints.Host.Interview
import CustomizationPoints.Proofs.PlainHost

/-!
# What work can come to

A host may answer each time as it likes, and then work over it has no outcome to read.  What can
still be said is that its result, if there is one, has a property.  `SatisfiesM` says this of work
in any monad: the work may as well have a type whose values all have the property.

Here are the rules for the pieces of which the library's work is made.  Sequences and plain values
have theirs already (`SatisfiesM.bind`, `SatisfiesM.pure`).

## What comes after

If all results of some work have a property, then what comes after it may be replaced by anything
that does the same on such results (`bind_congr_of_satisfiesM`).
-/

namespace CustomizationPoints

variable {m : Type → Type} [Monad m] [LawfulMonad m] {ε α β : Type} {p : α → Prop}

/-- A failure has no result. -/
theorem satisfiesM_throw (e : ε) : SatisfiesM p (throw e : ExceptT ε m α) := by
  rw [SatisfiesM_ExceptT_eq, ExceptT.run_throw]
  exact .pure fun a h => nomatch h

/-- Asking the host, as a step of work that may fail. -/
theorem satisfiesM_lift {x : m α} (h : SatisfiesM p x) :
    SatisfiesM p (liftM x : ExceptT ε m α) := by
  rw [SatisfiesM_ExceptT_eq, liftM_eq_lift, ExceptT.run_lift]
  refine h.map fun ha b hb => ?_
  rwa [← Except.ok.inj hb]

/-- A check has the result that it computes. -/
theorem satisfiesM_check {x : Except ε α} (h : ∀ a, x = .ok a → p a) :
    SatisfiesM p (liftM x : ExceptT ε m α) := by
  cases x with
  | ok a => exact .pure (h a rfl)
  | error e => exact satisfiesM_throw e

/-- Over a plain host the result is the outcome. -/
theorem of_outcome_of_satisfiesM {work : ExceptT ε Id α} (h : SatisfiesM p work) {a : α}
    (succeeds : outcome work = .ok a) : p a :=
  SatisfiesM_Id_eq.1 (SatisfiesM_ExceptT_eq.1 h) a succeeds

/-- Over the record of questions it is what a run comes to, whatever was asked before. -/
theorem of_run_of_satisfiesM {work : ExceptT ε Interview α} (h : SatisfiesM p work)
    {asked : Array Question} {a : α} (succeeds : (work.run.run asked).1 = .ok a) : p a := by
  have hresult := SatisfiesM_Id_eq.1 (SatisfiesM_StateT_eq.1 (SatisfiesM_ExceptT_eq.1 h) asked)
  exact hresult a succeeds

/-- What comes after some work matters for its results only. -/
theorem bind_congr_of_satisfiesM {work : m α} {next other : α → m β} (h : SatisfiesM p work)
    (same : ∀ a, p a → next a = other a) : work >>= next = work >>= other := by
  obtain ⟨narrow, rfl⟩ := h
  rw [bind_map_left, bind_map_left]
  exact bind_congr fun a => same a.val a.property

/-- What is kept are some of the members, in their order. -/
theorem satisfiesM_selectWhere (accepts : α → m Bool) (as : List α) :
    SatisfiesM (List.Sublist · as) (selectWhere accepts as) := by
  induction as with
  | nil => exact .pure List.Sublist.slnil
  | cons a rest ih =>
    rw [selectWhere_cons]
    refine .bind .trivial fun accepted _ => ih.bind fun others hothers => .pure ?_
    split
    next => exact hothers.cons_cons a
    next => exact hothers.cons a

end CustomizationPoints
