import CustomizationPoints.HostType
import CustomizationPoints.Namespace

/-!
# Declarations

A declaration is what the host hands over when it meets a customization point: a *seed*,
which overrides nothing and opens a tree of its own, or an *override* of a declaration that
was handed over before.  Constraints and conditions are opaque: they are stored, shown and
passed back to the host, which alone knows whether they hold.
-/

namespace CustomizationPoints

/-- The identity of a registered declaration: its place in the order of registration. -/
structure DeclId where
  index : UInt32
  deriving DecidableEq, Inhabited

namespace DeclId

/-- The place of the declaration in the order of registration. -/
def position (id : DeclId) : Nat := id.index.toNat

/-- The written identity, as in `#4`. -/
def text (id : DeclId) : String := "#" ++ toString id.position

end DeclId

/-- A requires-clause or concept check, known by its identity. -/
structure Constraint where
  id : UInt32
  text : String
  deriving DecidableEq

/-- Whether a return type is spelled out or deduced. -/
inductive ReturnKind where
  | concrete
  | deduced
  deriving DecidableEq

/-- The kind as messages name it. -/
def ReturnKind.text : ReturnKind → String
  | .concrete => "concrete"
  | .deduced => "deduced"

/-- A declared return type. -/
inductive ReturnType where
  | concrete (type : HostType)
  /-- A placeholder type, possibly with a constraint on what it may stand for. -/
  | deduced (constraint : Option Constraint)
  deriving DecidableEq

namespace ReturnType

/-- Whether the return type is spelled out or deduced. -/
def kind : ReturnType → ReturnKind
  | .concrete _ => .concrete
  | .deduced _ => .deduced

/-- The type, if it is spelled out. -/
def concrete? : ReturnType → Option HostType
  | .concrete type => some type
  | .deduced _ => none

/-- The return type as a signature shows it. -/
def text : ReturnType → String
  | .concrete type => type.name
  | .deduced none => "auto"
  | .deduced (some constraint) => constraint.text ++ " auto"

@[simp] theorem kind_concrete (type : HostType) : (concrete type).kind = .concrete := rfl

@[simp] theorem kind_deduced (constraint : Option Constraint) :
    (deduced constraint).kind = .deduced := rfl

end ReturnType

/-- A declared exception specification. -/
inductive ExceptionSpec where
  /-- Promised never to throw. -/
  | nothrow
  /-- No promise. -/
  | mayThrow
  /-- A promise under a condition, which the host evaluates for each call. -/
  | conditional (condition : String)
  deriving DecidableEq

instance : Inhabited ExceptionSpec := ⟨.mayThrow⟩

namespace ExceptionSpec

/-- The specification as messages show it. -/
def text : ExceptionSpec → String
  | .nothrow => "noexcept(true)"
  | .mayThrow => "noexcept(false)"
  | .conditional condition => "noexcept(" ++ condition ++ ")"

/-- Whether the promise holds without asking anyone. -/
def isNothrow : ExceptionSpec → Bool
  | .nothrow => true
  | .mayThrow | .conditional _ => false

@[simp] theorem isNothrow_iff (spec : ExceptionSpec) :
    spec.isNothrow = true ↔ spec = .nothrow := by
  cases spec <;> simp [isNothrow]

end ExceptionSpec

/-- A declaration as the host hands it over. -/
structure Declaration where
  /-- The namespace in which it appears. -/
  space : Namespace
  /-- Its name; an override may do without. -/
  name : Option String := none
  /-- The declaration that it overrides; a seed overrides none. -/
  parent : Option DeclId := none
  parameters : List Parameter := []
  returnType : ReturnType := .deduced none
  exceptions : ExceptionSpec := .mayThrow
  /-- Declared without a body. -/
  isPure : Bool := false
  /-- Closed to further overrides. -/
  isFinal : Bool := false
  /-- The owning class of an override that is declared as a friend inside a class body. -/
  friendOf : Option HostType := none
  /-- The requires-clause. -/
  constraint : Option Constraint := none
  deriving DecidableEq

namespace Declaration

/-- A declaration that overrides nothing opens a tree. -/
def isSeed (decl : Declaration) : Bool := decl.parent.isNone

/-- What a message calls a declaration that has no identity yet. -/
def provisionalName (decl : Declaration) : String :=
  match decl.name with
  | some name => decl.space.qualify name
  | none => "<unnamed override>"

/-- The identity of the constraint, counting an unconstrained declaration as `0`. -/
def constraintLevel (decl : Declaration) : UInt32 :=
  match decl.constraint with
  | some constraint => constraint.id
  | none => 0

end Declaration
end CustomizationPoints
