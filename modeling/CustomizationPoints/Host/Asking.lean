/-!
# Asking about the members of a list

The library asks the host about the members of a list one at a time, from the left.
`selectWhere` asks about every one of them and keeps those with the answer yes.

Over `Id`, where an answer leaves no trace, this is `filter`.
-/

namespace CustomizationPoints

variable {m : Type → Type} [Monad m] {α : Type}

/-- The members for which the answer is yes, after asking about each one in order. -/
def selectWhere (accepts : α → m Bool) : List α → m (List α)
  | [] => pure []
  | a :: rest => do
    let accepted ← accepts a
    let others ← selectWhere accepts rest
    return if accepted then a :: others else others

@[simp] theorem selectWhere_nil (accepts : α → m Bool) :
    selectWhere accepts [] = pure [] := rfl

theorem selectWhere_cons (accepts : α → m Bool) (a : α) (rest : List α) :
    selectWhere accepts (a :: rest) = (do
      let accepted ← accepts a
      let others ← selectWhere accepts rest
      return if accepted then a :: others else others) := rfl

/-- Asking a plain function is filtering. -/
@[simp] theorem selectWhere_id (accepts : α → Id Bool) (as : List α) :
    selectWhere (m := Id) accepts as = as.filter accepts := by
  induction as with
  | nil => rfl
  | cons a rest ih =>
    rw [selectWhere_cons, ih, List.filter_cons]
    rfl

end CustomizationPoints
