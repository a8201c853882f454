import CustomizationPoints.Declaration

/-!
# Refused registrations

Each way in which a declaration or an ordinary function can be refused, with what a reader
of the message needs to know.  A refusal leaves the registry as it was.
-/

namespace CustomizationPoints

/-- Why a registration was refused. -/
inductive RegistrationError where
  /-- The name is in use for a function in this namespace. -/
  | duplicateName (space : Namespace) (name : String)
  /-- The overridden declaration is closed. -/
  | finalOverride (parent : DeclId) (parentName : String)
  /-- One tree would mix deduced and spelled out return types. -/
  | returnKindMismatch (seedName declName : String) (expected found : ReturnKind)
  /-- An override would throw where the seed promises not to. -/
  | exceptionMismatch (seedName declName : String) (found : ExceptionSpec)
  /-- The return type does not convert to the seed's. -/
  | returnTypeMismatch (seedName declName : String) (expected found : HostType)
  /-- Without a body and closed to overrides, the declaration could never be called. -/
  | pureFinal (declName : String)
  /-- The overridden declaration is not registered. -/
  | unknownParent (parent : DeclId)
  /-- There is no identity left. -/
  | tooManyDeclarations (count : Nat)
  deriving DecidableEq

/-- The text of the refusal. -/
def RegistrationError.message : RegistrationError → String
  | .duplicateName space name =>
    "`" ++ name ++ "` is already declared as a function in namespace `" ++ space.text ++ "`"
  | .finalOverride _ parentName =>
    "cannot override `" ++ parentName ++ "`: it is declared final"
  | .returnKindMismatch seedName declName expected found =>
    "`" ++ declName ++ "` has a " ++ found.text ++ " return type but seed `" ++ seedName
      ++ "` has a " ++ expected.text ++ " one"
  | .exceptionMismatch seedName declName found =>
    "`" ++ declName ++ "` is declared " ++ found.text ++ " but seed `" ++ seedName
      ++ "` is noexcept(true)"
  | .returnTypeMismatch seedName declName expected found =>
    "`" ++ declName ++ "` returns `" ++ found.name ++ "`, which does not convert to `"
      ++ expected.name ++ "` returned by seed `" ++ seedName ++ "`"
  | .pureFinal declName => "`" ++ declName ++ "` is both pure and final"
  | .unknownParent parent => "overridden declaration " ++ parent.text ++ " is not registered"
  | .tooManyDeclarations count =>
    "registry is full: " ++ toString count ++ " declarations already registered"

end CustomizationPoints
