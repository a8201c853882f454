import CustomizationPoints.Association.ClassSet
import CustomizationPoints.Call.Error
import CustomizationPoints.Host.Asking
import CustomizationPoints.Host.Capabilities
import CustomizationPoints.Registry.Basic

/-!
# The descent through the overrides

A call enters a tree at one declaration and goes down as long as something below takes it
over.  At each declaration the *candidates* are the direct overrides that are visible and
accept the arguments.

* Without candidates the descent stops.
* A single candidate takes the call.
* Of several candidates, the host picks the most specialized one.

There is no way back: what a candidate's own overrides do with the call plays no part in
the choice, and nothing is asked about declarations that are off the path.

## The bound

An override is registered after the declaration that it overrides, so a descent passes
through fewer declarations than the registry holds.  That number bounds the recursion.
-/

namespace CustomizationPoints

variable {m : Type → Type} [Monad m]

/-- The candidate that takes over a call at `current`, if any does.  The host is asked only
if there are several, and it must answer with one of them. -/
def Oracle.choose (oracle : Oracle m) (arguments : List HostType) (current : Node) :
    List Node → ExceptT CallError m (Option Node)
  | [] => pure none
  | [only] => pure (some only)
  | candidates => do
    match ← oracle.pick candidates arguments with
    | none =>
      throw (.ambiguousOverride current.id current.displayName arguments
        (candidates.map (·.id)) (candidates.map (·.displayName)))
    | some answer =>
      match candidates.find? fun candidate => candidate.id = answer with
      | none => throw (.invalidOracleAnswer current.id current.displayName answer)
      | some chosen => pure (some chosen)

@[simp] theorem Oracle.choose_nil (oracle : Oracle m) (arguments : List HostType)
    (current : Node) : oracle.choose arguments current [] = pure none := rfl

@[simp] theorem Oracle.choose_singleton (oracle : Oracle m) (arguments : List HostType)
    (current only : Node) : oracle.choose arguments current [only] = pure (some only) := rfl

namespace Registry

/-- The direct overrides that a call with these associated classes can see. -/
def visibleOverrides (registry : Registry) (associated : ClassSet) (current : Node) :
    List Node :=
  (registry.nodesOf current.overrides).filter associated.admits

/-- The visible overrides that accept the arguments. -/
def candidates (registry : Registry) (oracle : Oracle m) (associated : ClassSet)
    (arguments : List HostType) (current : Node) : m (List Node) :=
  selectWhere (oracle.viable · arguments) (registry.visibleOverrides associated current)

/-- A plain host's candidates are the visible overrides that it accepts. -/
@[simp] theorem candidates_id (registry : Registry) (oracle : Oracle Id)
    (associated : ClassSet) (arguments : List HostType) (current : Node) :
    registry.candidates (m := Id) oracle associated arguments current =
      (registry.visibleOverrides associated current).filter (oracle.viable · arguments) := by
  simp [candidates]

/-- One step down, if there is one. -/
def stepDown (registry : Registry) (oracle : Oracle m) (associated : ClassSet)
    (arguments : List HostType) (current : Node) : ExceptT CallError m (Option Node) := do
  let viable ← (registry.candidates oracle associated arguments current : m (List Node))
  oracle.choose arguments current viable

/-- **The descent**: the declarations below `current` through which a call goes, at most
`bound` of them. -/
def descend (registry : Registry) (oracle : Oracle m) (associated : ClassSet)
    (arguments : List HostType) : Nat → Node → ExceptT CallError m (List Node)
  | 0, _ => pure []
  | bound + 1, current => do
    match ← registry.stepDown oracle associated arguments current with
    | none => pure []
    | some next =>
      let below ← registry.descend oracle associated arguments bound next
      return next :: below

end Registry
end CustomizationPoints
