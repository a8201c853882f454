import CustomizationPoints.Call.Effect
import CustomizationPoints.Call.Resolution
import CustomizationPoints.Settings

/-!
# The engine

An engine brings together a finished registry, the capabilities of the host and the
settings.  A call through it is resolved first, and then its effects are worked out; a
failure of either is the failure of the call.
-/

namespace CustomizationPoints

/-- A finished registry with a host and settings. -/
structure Engine (m : Type → Type) where
  registry : Registry
  oracle : Oracle m
  classes : ClassHierarchy m
  conversions : Conversions m
  settings : Settings := {}

/-- A resolved call together with its effects. -/
structure ResolvedCall where
  resolution : Resolution
  effects : CallEffects
  deriving DecidableEq

namespace Engine

variable {m : Type → Type} [Monad m]

/-- An engine for a host without conversions of its own, and with the settings that apply
unless the host asks for others. -/
def ofHost (registry : Registry) (oracle : Oracle m) (classes : ClassHierarchy m) :
    Engine m where
  registry := registry
  oracle := oracle
  classes := classes
  conversions := .identity

/-- Select the declaration that a call entering at `root` invokes. -/
def resolve (engine : Engine m) (root : DeclId) (arguments : List HostType) :
    ExceptT CallError m Resolution :=
  engine.registry.resolve engine.oracle engine.classes root arguments

/-- Select the declaration that a call by name invokes. -/
def resolveByName (engine : Engine m) (name : QualifiedName) (arguments : List HostType) :
    ExceptT CallError m Resolution :=
  engine.registry.resolveByName engine.oracle engine.classes name arguments

/-- Whether a call entering at `root` can be resolved. -/
def isCallable (engine : Engine m) (root : DeclId) (arguments : List HostType) : m Bool :=
  engine.registry.isCallable engine.oracle engine.classes root arguments

/-- The effects of a call of `target`. -/
def effects (engine : Engine m) (target : DeclId) (site : CallSite) :
    ExceptT CallError m CallEffects :=
  engine.registry.effects engine.oracle engine.conversions engine.settings.callPolicy
    target site

/-- **A call**: the declaration that it invokes, and its effects. -/
def call (engine : Engine m) (root : DeclId) (site : CallSite) :
    ExceptT CallError m ResolvedCall := do
  let resolution ← engine.resolve root site.arguments
  let effects ← engine.effects resolution.target site
  return { resolution, effects }

/-- The description of the engine. -/
def text (engine : Engine m) : String :=
  "Engine \x7b declarations: " ++ toString engine.registry.size ++ ", config: "
    ++ engine.settings.label ++ " \x7d"

end Engine
end CustomizationPoints
