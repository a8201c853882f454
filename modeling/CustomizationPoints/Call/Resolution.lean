import CustomizationPoints.Association.Walk
import CustomizationPoints.Call.Descent

/-!
# Resolving a call

A call enters at a declaration with a name, which need not be a seed: explicit calls of a
named override consider that override's part of the tree only.  The entry must accept the
arguments.  Then the call descends, and the declaration where it stops is the target unless
that declaration has no body.

The classes associated with the arguments are worked out once, after the entry has accepted
them.
-/

namespace CustomizationPoints

/-- A resolved call. -/
structure Resolution where
  /-- The selected declaration. -/
  target : DeclId
  /-- The declarations that the call went through, from its entry to the target. -/
  path : List DeclId
  /-- The classes associated with the call. -/
  associated : ClassSet
  deriving DecidableEq

namespace Resolution

/-- The declaration through which the call entered. -/
def root (resolution : Resolution) : DeclId := resolution.path.head?.getD resolution.target

/-- The number of overrides that the call went down. -/
def descent (resolution : Resolution) : Nat := resolution.path.length - 1

@[simp] theorem root_cons (target entry : DeclId) (below : List DeclId)
    (associated : ClassSet) :
    (Resolution.mk target (entry :: below) associated).root = entry := rfl

@[simp] theorem descent_cons (target entry : DeclId) (below : List DeclId)
    (associated : ClassSet) :
    (Resolution.mk target (entry :: below) associated).descent = below.length := rfl

end Resolution

namespace Registry

variable {m : Type → Type} [Monad m]

/-- The declaration through which a call may enter: registered, and with a name. -/
def entryPoint (registry : Registry) (id : DeclId) : Except CallError Node :=
  match registry.node? id with
  | none => .error (.unknownNode id)
  | some entry =>
    if entry.decl.name.isSome then .ok entry else .error (.unnamedEntryPoint entry.id)

/-- The outcome of a call that entered at `entry` and went through `below`. -/
def settle (entry : Node) (below : List Node) (arguments : List HostType)
    (associated : ClassSet) : Except CallError Resolution :=
  let target := below.getLast?.getD entry
  if target.decl.isPure then
    .error (.noViableCandidate entry.displayName arguments
      (.pureWithoutOverride target.id target.displayName))
  else .ok { target := target.id, path := (entry :: below).map (·.id), associated }

/-- **Resolving a call** that enters at `root`. -/
def resolve (registry : Registry) (oracle : Oracle m) (classes : ClassHierarchy m)
    (root : DeclId) (arguments : List HostType) : ExceptT CallError m Resolution := do
  let entry ← registry.entryPoint root
  unless ← oracle.viable entry arguments do
    throw (.noViableCandidate entry.displayName arguments .rootRejected)
  let associated ← classes.associated arguments
  let below ← registry.descend oracle associated arguments registry.size entry
  settle entry below arguments associated

/-- Resolving a call of the customization point with this name. -/
def resolveByName (registry : Registry) (oracle : Oracle m) (classes : ClassHierarchy m)
    (name : QualifiedName) (arguments : List HostType) : ExceptT CallError m Resolution :=
  match registry.find? name with
  | none => throw (.unknownFunction name.space name.name)
  | some entry => registry.resolve oracle classes entry.id arguments

/-- Whether a call that enters at `root` can be resolved. -/
def isCallable (registry : Registry) (oracle : Oracle m) (classes : ClassHierarchy m)
    (root : DeclId) (arguments : List HostType) : m Bool := do
  match ← (registry.resolve oracle classes root arguments).run with
  | .ok _ => pure true
  | .error _ => pure false

end Registry
end CustomizationPoints
