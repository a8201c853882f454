/-!
# Types of the host

The library never looks inside a type.  The host interns its types and hands over an
identity, a coarse kind and a name for messages; everything else that a type means is
answered by the host's capabilities.

Two types are equal when identity, kind and name all agree.  Lookups that are keyed by
identity alone say so.
-/

namespace CustomizationPoints

/-- The identity of a type in the host's type table. -/
structure TypeId where
  index : UInt32
  deriving DecidableEq, Inhabited

/-- What kind of type it is, as far as associated classes care. -/
inductive TypeKind where
  | classType
  | unionType
  | enumType
  /-- Fundamental, pointer, reference, function and array types. -/
  | other
  deriving DecidableEq, Inhabited

/-- A concrete type that the host hands over. -/
structure HostType where
  id : TypeId
  kind : TypeKind
  name : String
  deriving DecidableEq, Inhabited

namespace HostType

/-- Classes and unions are associated with a call in their own right. -/
def isClassLike (type : HostType) : Bool :=
  match type.kind with
  | .classType | .unionType => true
  | .enumType | .other => false

/-- The type with its identity, as listings of values show it. -/
def label (type : HostType) : String :=
  "TypeRef(" ++ type.name ++ "#" ++ toString type.id.index.toNat ++ ")"

/-- The names of some types, separated by commas. -/
def names (types : List HostType) : String := ", ".intercalate (types.map (·.name))

/-- An argument list as messages show it. -/
def argumentList (types : List HostType) : String := "(" ++ names types ++ ")"

end HostType

/-- A declared parameter. -/
inductive Parameter where
  | concrete (type : HostType)
  /-- A parameter whose type depends on template parameters, in its own spelling. -/
  | dependent (spelling : String)
  deriving DecidableEq

/-- The parameter as a signature shows it. -/
def Parameter.text : Parameter → String
  | .concrete type => type.name
  | .dependent spelling => spelling

end CustomizationPoints
