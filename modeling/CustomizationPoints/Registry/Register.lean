import CustomizationPoints.Host.Capabilities
import CustomizationPoints.Registry.Basic
import CustomizationPoints.Registry.Error

/-!
# Registering declarations

A declaration is checked before anything is stored, so a refusal changes nothing.

## The checks, in order

1. What it overrides is registered and is not closed.
2. Its name is free in its namespace.
3. It is not both without a body and closed to overrides.
4. Against the seed of its tree: the return types are both deduced or both spelled out;
   two spelled out types are equal, or the first converts to the second; and the promise
   of a seed never to throw is kept.
5. There is an identity left for it.

The fourth check looks at the seed only, not at the declarations between.  Every one of
them was compared with the same seed when it came, so one comparison settles the tree.
Its third question is the only one that goes to the host, and it goes there only for two
types that differ.
-/

namespace CustomizationPoints

variable {m : Type → Type} [Monad m]

/-- A declaration without a body must leave room for an override that has one. -/
def Declaration.checkBody (decl : Declaration) : Except RegistrationError Unit :=
  if decl.isPure && decl.isFinal then .error (.pureFinal decl.provisionalName) else .ok ()

/-- Both return types are deduced, or both are spelled out. -/
def Declaration.checkReturnKind (decl : Declaration) (seed : Node) :
    Except RegistrationError Unit :=
  if seed.decl.returnType.kind = decl.returnType.kind then .ok ()
  else .error (.returnKindMismatch seed.displayName decl.provisionalName
    seed.decl.returnType.kind decl.returnType.kind)

/-- A spelled out return type reaches the seed's. -/
def Declaration.checkReturnType (decl : Declaration) (conversions : Conversions m)
    (seed : Node) : ExceptT RegistrationError m Unit :=
  match seed.decl.returnType, decl.returnType with
  | .concrete expected, .concrete found => do
    unless ← conversions.reaches found expected do
      throw (.returnTypeMismatch seed.displayName decl.provisionalName expected found)
  | _, _ => pure ()

/-- A seed that never throws has no override that may. -/
def Declaration.checkExceptions (decl : Declaration) (seed : Node) :
    Except RegistrationError Unit :=
  if seed.decl.exceptions.isNothrow && !decl.exceptions.isNothrow then
    .error (.exceptionMismatch seed.displayName decl.provisionalName decl.exceptions)
  else .ok ()

/-- The identity of the next declaration after `count` others. -/
def DeclId.next (count : Nat) : Except RegistrationError DeclId :=
  if count < UInt32.size then .ok ⟨UInt32.ofNat count⟩
  else .error (.tooManyDeclarations count)

/-- The identity of the next declaration is its place after the others. -/
theorem DeclId.position_of_next {count : Nat} {id : DeclId} (h : DeclId.next count = .ok id) :
    id.position = count := by
  unfold DeclId.next at h
  split at h
  next room =>
    cases h
    exact UInt32.toNat_ofNat_of_lt room
  next => cases h

namespace Registry

/-- What the declaration overrides: registered, and open to overrides. -/
def overridden (registry : Registry) (decl : Declaration) :
    Except RegistrationError (Option Node) :=
  match decl.parent with
  | none => .ok none
  | some id =>
    match registry.node? id with
    | none => .error (.unknownParent id)
    | some parent =>
      if parent.decl.isFinal then .error (.finalOverride parent.id parent.displayName)
      else .ok (some parent)

/-- The name is free, or there is none. -/
def checkName (registry : Registry) (decl : Declaration) : Except RegistrationError Unit :=
  match decl.name with
  | none => .ok ()
  | some name =>
    if (registry.use? ⟨decl.space, name⟩).isSome then .error (.duplicateName decl.space name)
    else .ok ()

/-- The seed of the tree that an override of `parent` joins.  The seed of a registered
declaration is registered, so the parent never has to stand in for it. -/
def seedAbove (registry : Registry) (parent : Node) : Node :=
  (registry.node? parent.seed).getD parent

/-- An override agrees with the seed of its tree. -/
def checkAgainstSeed (registry : Registry) (conversions : Conversions m)
    (decl : Declaration) : Option Node → ExceptT RegistrationError m Unit
  | none => pure ()
  | some parent => do
    let seed := registry.seedAbove parent
    decl.checkReturnKind seed
    decl.checkReturnType conversions seed
    decl.checkExceptions seed

/-- The registry with the declaration in its place: below its parent, in the parent's
tree, or at the root of a tree of its own. -/
def place (registry : Registry) (id : DeclId) (decl : Declaration) :
    Option Node → Registry
  | none => registry.insert id id 0 decl
  | some parent => registry.insert id parent.seed (parent.depth + 1) decl

/-- **Registering a declaration**: its new identity and the registry with it, or the reason
of the refusal. -/
def register (registry : Registry) (conversions : Conversions m) (decl : Declaration) :
    ExceptT RegistrationError m (DeclId × Registry) := do
  let parent ← registry.overridden decl
  registry.checkName decl
  decl.checkBody
  registry.checkAgainstSeed conversions decl parent
  let id ← DeclId.next registry.size
  return (id, registry.place id decl parent)

/-- **Announcing an ordinary function.**  Ordinary functions may share a name with one
another, but not with a customization point. -/
def announce (registry : Registry) (name : QualifiedName) :
    Except RegistrationError Registry :=
  match registry.use? name with
  | some (.customizationPoint _) => .error (.duplicateName name.space name.name)
  | some .ordinaryFunction => .ok registry
  | none => .ok (registry.insertFunction name)

end Registry
end CustomizationPoints
