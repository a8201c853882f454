import CustomizationPoints.Registry.Basic

/-!
# The registry of a process

A process may install one finished registry for everyone to use.  The first one stays.
-/

namespace CustomizationPoints

/-- The place for the registry of a process, empty at its start. -/
structure Installation where
  registry? : Option Registry := none

/-- Refused, because a registry is installed already. -/
inductive InstallationError where
  | alreadyInstalled
  deriving DecidableEq

/-- The text of the refusal. -/
def InstallationError.message : InstallationError → String
  | .alreadyInstalled => "a process-wide registry is already installed"

namespace Installation

/-- Install a registry where there is none. -/
def install (place : Installation) (registry : Registry) :
    Except InstallationError Installation :=
  match place.registry? with
  | some _ => .error .alreadyInstalled
  | none => .ok ⟨some registry⟩

@[simp] theorem install_empty (registry : Registry) :
    install {} registry = .ok ⟨some registry⟩ := rfl

/-- The first registry stays. -/
@[simp] theorem install_again (first second : Registry) :
    install ⟨some first⟩ second = .error .alreadyInstalled := rfl

end Installation
end CustomizationPoints
