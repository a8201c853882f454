import CustomizationPoints.Host.Asking
import CustomizationPoints.Host.Capabilities

/-!
# The most specialized candidate

Some hosts compare candidates two at a time.  From such a comparison the most specialized
of several candidates is found as follows: a candidate is *maximal* if no other one is more
specialized, and if exactly one candidate is maximal, it is the answer.

For a strict partial order the one maximal candidate is more specialized than every other.
For an arbitrary relation that need not be so, and the definitions below do not assume it.
-/

namespace CustomizationPoints

variable {m : Type → Type} [Monad m]

/-- Whether one of `others` is more specialized than `candidate`.  They are asked about in
order, up to the first yes, and the candidate itself is passed over. -/
def isOutranked (more : Node → Node → m Bool) (candidate : Node) : List Node → m Bool
  | [] => pure false
  | other :: rest =>
    if other.id = candidate.id then isOutranked more candidate rest
    else do
      if ← more other candidate then pure true else isOutranked more candidate rest

/-- The maximal candidates, in the order of the candidates. -/
def maximal (more : Node → Node → m Bool) (candidates : List Node) : m (List Node) :=
  selectWhere (fun candidate => not <$> isOutranked more candidate candidates) candidates

/-- The one maximal candidate, if there is exactly one. -/
def uniqueMaximal (more : Node → Node → m Bool) (candidates : List Node) :
    m (Option DeclId) := do
  match ← maximal more candidates with
  | [winner] => pure (some winner.id)
  | _ => pure none

/-- The oracle of a host that compares candidates two at a time.  Unless it says more, no
condition holds for it. -/
def Oracle.pairwise (viable : Node → List HostType → m Bool)
    (more : Node → Node → List HostType → m Bool)
    (promiseHolds : Node → String → List HostType → m Bool := noPromiseHolds) :
    Oracle m where
  viable := viable
  pick candidates arguments := uniqueMaximal (fun a b => more a b arguments) candidates
  promiseHolds := promiseHolds

@[simp] theorem isOutranked_nil (more : Node → Node → m Bool) (candidate : Node) :
    isOutranked more candidate [] = pure false := rfl

@[simp] theorem maximal_nil (more : Node → Node → m Bool) :
    maximal more [] = pure [] := rfl

/-- For a plain comparison, being outranked means that some other member is more
specialized. -/
theorem isOutranked_id (more : Node → Node → Id Bool) (candidate : Node)
    (others : List Node) :
    isOutranked (m := Id) more candidate others =
      others.any fun other => other.id ≠ candidate.id && more other candidate := by
  induction others with
  | nil => rfl
  | cons other rest ih =>
    unfold isOutranked
    by_cases h : other.id = candidate.id
    · simp [h, ih]
    · cases hm : more other candidate <;> simp_all [bind, pure]

end CustomizationPoints
