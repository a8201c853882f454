import CustomizationPoints.Call.Error
import CustomizationPoints.Call.Policy
import CustomizationPoints.Host.Capabilities
import CustomizationPoints.Registry.Basic

/-!
# The effects of a call

When the target of a call is known, two things remain: what type the caller receives, and
whether the call may throw.

## The result

If the calls of a tree are forwarded and its seed spells out a return type, every call
yields that type: the target's result is converted to it, trivially if it is of that type
already.  If the seed's return type is deduced, or if the tree is a flat set of overloads,
the target's own return type is the result.

## Throwing

A call cannot throw if the target cannot, none of the conversions of its arguments can, and
the conversion of its result cannot.  The promises of the seed and of the declarations
between play no part.
-/

namespace CustomizationPoints

/-- One conversion that the host makes to pass an argument. -/
structure ConversionStep where
  /-- The position of the argument, from zero. -/
  argument : Nat
  source : HostType
  target : HostType
  isNothrow : Bool
  deriving DecidableEq

/-- What the host knows about the place of a call. -/
structure CallSite where
  arguments : List HostType := []
  conversions : List ConversionStep := []
  deriving DecidableEq

/-- What happens to the target's result. -/
inductive ReturnConversion where
  /-- It is of the seed's return type already. -/
  | identity (type : HostType)
  /-- It is converted to the seed's return type. -/
  | implicit (source target : HostType)
  /-- It is handed out as the target declares it. -/
  | unconverted (returnType : ReturnType)
  deriving DecidableEq

namespace ReturnConversion

/-- What the caller receives. -/
def resultType : ReturnConversion → ReturnType
  | .identity type => .concrete type
  | .implicit _ target => .concrete target
  | .unconverted returnType => returnType

/-- The value that the caller receives.  Only an implicit conversion runs `convert`. -/
def apply {Value : Type} (conversion : ReturnConversion)
    (convert : Value → HostType → HostType → Value) (value : Value) : Value :=
  match conversion with
  | .implicit source target => convert value source target
  | .identity _ | .unconverted _ => value

/-- Whether `apply` runs its converter. -/
def converts : ReturnConversion → Bool
  | .implicit .. => true
  | .identity _ | .unconverted _ => false

/-- Where nothing is converted, the value comes through as it is. -/
theorem apply_of_not_converts {Value : Type} {conversion : ReturnConversion}
    (h : conversion.converts = false) (convert : Value → HostType → HostType → Value)
    (value : Value) : conversion.apply convert value = value := by
  cases conversion <;> first | rfl | simp [converts] at h

end ReturnConversion

/-- The effects of a call of `target`. -/
structure CallEffects where
  target : DeclId
  resultType : ReturnType
  /-- Whether the call cannot throw. -/
  isNothrow : Bool
  returnConversion : ReturnConversion
  deriving DecidableEq

variable {m : Type → Type} [Monad m]

namespace Conversions

/-- What happens to a result of `target` on its way out through `seed`. -/
def returnConversion (conversions : Conversions m) (policy : CallPolicy)
    (seed target : Node) : ExceptT CallError m ReturnConversion :=
  match policy with
  | .flatOverloadSet => pure (.unconverted target.decl.returnType)
  | .forwarding =>
    match seed.decl.returnType, target.decl.returnType with
    | .concrete expected, .concrete found =>
      if found = expected then pure (.identity expected)
      else do
        unless ← conversions.implicit found expected do
          throw (.returnNotConvertible target.id target.displayName found expected)
        return .implicit found expected
    | _, own => pure (.unconverted own)

/-- Whether the conversion of a result cannot throw. -/
def returnIsNothrow (conversions : Conversions m) : ReturnConversion → m Bool
  | .implicit source target => conversions.nothrow source target
  | .identity _ | .unconverted _ => pure true

end Conversions

/-- Whether the declaration itself cannot throw in a call with these arguments.  The host
is asked only about a condition. -/
def Oracle.isNothrow (oracle : Oracle m) (node : Node) (arguments : List HostType) :
    m Bool :=
  match node.decl.exceptions with
  | .nothrow => pure true
  | .mayThrow => pure false
  | .conditional condition => oracle.promiseHolds node condition arguments

namespace Registry

/-- A declaration and the seed of its tree. -/
def withSeed (registry : Registry) (id : DeclId) : Except CallError (Node × Node) :=
  match registry.node? id with
  | none => .error (.unknownNode id)
  | some node =>
    match registry.seedOf? id with
    | none => .error (.unknownNode node.seed)
    | some seed => .ok (node, seed)

/-- **The effects** of a call of `target` from this place. -/
def effects (registry : Registry) (oracle : Oracle m) (conversions : Conversions m)
    (policy : CallPolicy) (target : DeclId) (site : CallSite) :
    ExceptT CallError m CallEffects := do
  let (node, seed) ← registry.withSeed target
  let conversion ← conversions.returnConversion policy seed node
  let targetNothrow ← oracle.isNothrow node site.arguments
  let returnNothrow ← conversions.returnIsNothrow conversion
  return {
    target
    resultType := conversion.resultType
    isNothrow := targetNothrow && site.conversions.all (·.isNothrow) && returnNothrow
    returnConversion := conversion }

end Registry
end CustomizationPoints
