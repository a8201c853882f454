import CustomizationPoints.Registry.Node

/-!
# What the host answers

Three groups of questions go to the host: whether a declaration accepts some arguments and
which of several is the most specialized, how classes are related, and which types convert
to which.

## Answers in a monad

The monad `m` is how the host arrives at an answer.  Over `Id` the host is a plain
function and asking leaves no trace.  Over a state monad it may count, remember or change
its mind.  The library only ever asks and goes on with the answer, so the order and the
number of its questions are part of what it computes.
-/

namespace CustomizationPoints

variable {m : Type → Type}

/-- Which declarations accept a call, and which of them comes first. -/
structure Oracle (m : Type → Type) where
  /-- Whether a call with these argument types is valid against the declaration's own
  signature and constraint. -/
  viable : Node → List HostType → m Bool
  /-- The one candidate that is more specialized than all others, if there is one. -/
  pick : List Node → List HostType → m (Option DeclId)
  /-- Whether a conditional promise not to throw holds for a call of the declaration with
  these argument types. -/
  promiseHolds : Node → String → List HostType → m Bool

/-- How the classes of the host are related. -/
structure ClassHierarchy (m : Type → Type) where
  /-- The direct base classes of a class or union, in declaration order. -/
  bases : HostType → m (List HostType)
  /-- The class of which the type is a member, if it is a member of one. -/
  enclosing : HostType → m (Option HostType)

/-- Which types convert to which. -/
structure Conversions (m : Type → Type) where
  /-- Whether the first type converts implicitly to the second. -/
  implicit : HostType → HostType → m Bool
  /-- Whether that conversion cannot throw. -/
  nothrow : HostType → HostType → m Bool

/-- No condition is known to hold; a host that cannot evaluate conditions answers so. -/
def noPromiseHolds [Pure m] (_ : Node) (_ : String) (_ : List HostType) : m Bool :=
  pure false

namespace Conversions

/-- Every type converts to itself, without throwing, and to no other type. -/
def identity [Pure m] : Conversions m where
  implicit source target := pure (decide (source = target))
  nothrow source target := pure (decide (source = target))

/-- Whether a value of the first type can be handed out as the second.  For equal types
there is nothing to ask. -/
def reaches [Pure m] (conversions : Conversions m) (source target : HostType) : m Bool :=
  if source = target then pure true else conversions.implicit source target

@[simp] theorem reaches_self [Pure m] (conversions : Conversions m) (type : HostType) :
    conversions.reaches type type = pure true := by
  simp [reaches]

end Conversions
end CustomizationPoints
