import CustomizationPoints.Registry.Register

/-!
# Filling a registry in place

A registry that is being filled is a piece of state.  Registering a declaration writes to four
parts of it, one after another: the names in use, the overrides of the parent or the list of
seeds, and the declarations themselves.  A refusal ends the work where it stands, and what was
written until then stays written.  So all questions have to come before the first write.

The result is the same as that of `Registry.register`, which returns a new registry instead.
-/

namespace CustomizationPoints

/-- Work on a registry that is being filled.  A refusal leaves what was written before it. -/
abbrev Filling (m : Type → Type) := ExceptT RegistrationError (StateT Registry m)

namespace Filling

variable {m : Type → Type} [Monad m]

/-- A check asks the host if it has to, and writes nothing. -/
def check {α : Type} (x : ExceptT RegistrationError m α) : Filling m α :=
  ExceptT.mk (StateT.lift x.run)

/-- Put a name in use. -/
def useName (name : QualifiedName) (use : NameUse) : Filling m Unit :=
  modify fun registry => { registry with names := (name, use) :: registry.names }

/-- Note an override at the declaration that it overrides. -/
def noteOverride (parent id : DeclId) : Filling m Unit :=
  modify fun registry =>
    { registry with nodes := registry.nodes.modify parent.position (·.addOverride id) }

/-- Note a declaration without a parent. -/
def noteSeed (id : DeclId) : Filling m Unit :=
  modify fun registry => { registry with seeds := registry.seeds ++ [id] }

/-- Put a declaration in its place. -/
def store (node : Node) : Filling m Unit :=
  modify fun registry => { registry with nodes := registry.nodes.push node }

/-- The declaration as it is stored: in the tree of its parent, or at the root of its own. -/
def node (id : DeclId) (decl : Declaration) : Option Node → Node
  | none => { id, seed := id, depth := 0, decl }
  | some parent => { id, seed := parent.seed, depth := parent.depth + 1, decl }

/-- Write the declaration to all parts of the registry. -/
def write (id : DeclId) (decl : Declaration) (parent : Option Node) : Filling m Unit := do
  if let some name := decl.name then
    useName ⟨decl.space, name⟩ (.customizationPoint id)
  match decl.parent with
  | some above => noteOverride above id
  | none => noteSeed id
  store (node id decl parent)

/-- **Registering a declaration in place.** -/
def declare (conversions : Conversions m) (decl : Declaration) : Filling m DeclId := do
  let registry ← get
  let parent ← check (registry.overridden decl)
  check (registry.checkName decl)
  check decl.checkBody
  check (registry.checkAgainstSeed conversions decl parent)
  let id ← check (DeclId.next registry.size)
  write id decl parent
  return id

/-- **Announcing an ordinary function in place.** -/
def announce (name : QualifiedName) : Filling m Unit := do
  match (← get).use? name with
  | some (.customizationPoint _) => throw (.duplicateName name.space name.name)
  | some .ordinaryFunction => pure ()
  | none => useName name .ordinaryFunction

end Filling
end CustomizationPoints
