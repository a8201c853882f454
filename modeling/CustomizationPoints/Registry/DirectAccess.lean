import CustomizationPoints.Registry.Filling

/-!
# Filling a registry by direct access

An identity is a place, so a node that is known to be there can be taken from its place without
asking whether it is there.  Registering does so three times: for the seed of the tree that an
override joins, for the parent whose tree and depth the new node takes over, and for the parent
whose list the new identity goes to.

Direct access to an empty place is no refusal.  There is no answer to give, and the whole work
breaks off.  So it is a failure of its own, beside the refusals, and it leaves no registry.  The
steps of a registration do not show that the three places are taken: that is a fact about the
registries that can come up.
-/

namespace CustomizationPoints

/-- Work on a registry that is being filled, which breaks off if it needs what is not there. -/
abbrev DirectFilling (m : Type → Type) := Filling (OptionT m)

namespace Filling

variable {m : Type → Type} [Monad m]

/-- A check asks the host if it has to, writes nothing and does not break off. -/
def checkFirst {α : Type} (x : ExceptT RegistrationError m α) : DirectFilling m α :=
  check (ExceptT.mk (OptionT.lift x.run))

/-- The declaration at the place that the identity names, which must be taken. -/
def nodeAt (id : DeclId) : DirectFilling m Node := do
  let registry ← get
  ExceptT.lift (StateT.lift (OptionT.mk (pure (registry.node? id))))

/-- Compare an override with the seed of its tree, taken from its place. -/
def checkAgainstSeedAt (conversions : Conversions m) (decl : Declaration) :
    Option Node → DirectFilling m Unit
  | none => pure ()
  | some parent => do
    let seed ← nodeAt parent.seed
    checkFirst do
      decl.checkReturnKind seed
      decl.checkReturnType conversions seed
      decl.checkExceptions seed

/-- Note an override at the place of the declaration that it overrides. -/
def noteOverrideAt (parent id : DeclId) : DirectFilling m Unit := do
  let _ ← nodeAt parent
  noteOverride parent id

/-- Write the declaration to all parts of the registry, with the parent taken from its place. -/
def writeAt (id : DeclId) (decl : Declaration) : DirectFilling m Unit := do
  let parent ← decl.parent.mapM nodeAt
  if let some name := decl.name then
    useName ⟨decl.space, name⟩ (.customizationPoint id)
  match decl.parent with
  | some above => noteOverrideAt above id
  | none => noteSeed id
  store (node id decl parent)

/-- **Registering a declaration by direct access.** -/
def declareAt (conversions : Conversions m) (decl : Declaration) : DirectFilling m DeclId := do
  let registry ← get
  let parent ← checkFirst (registry.overridden decl)
  checkFirst (registry.checkName decl)
  checkFirst decl.checkBody
  checkAgainstSeedAt conversions decl parent
  let id ← checkFirst (DeclId.next registry.size)
  writeAt id decl
  return id

end Filling
end CustomizationPoints
