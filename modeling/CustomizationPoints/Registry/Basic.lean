import CustomizationPoints.Registry.Node

/-!
# The registry

The registered declarations form one tree for each seed.  The registry keeps them in an
array, in the order of registration, so that an identity is a place in the array; beside
it stand the list of seeds and the table of the function names in use.

## What is stored twice

A node's parent is part of its declaration, while its seed, its depth and the list of its
overrides are stored beside it.  All three follow from the parents, and `insert` keeps them
in step: it takes the seed and the depth from the parent, and adds the new identity to the
parent's list before it adds the node.  The registry only grows.  A node that is in it
changes in one way, by gaining an override.

## Names

A name in a namespace belongs to one customization point or to any number of ordinary
functions, never to both.  The table says which of the two it is.  Ordinary functions are
only announced: looking up their name finds nothing.
-/

namespace CustomizationPoints

/-- A name together with the namespace in which it is declared. -/
structure QualifiedName where
  space : Namespace
  name : String
  deriving DecidableEq

/-- What a name in a namespace stands for. -/
inductive NameUse where
  | customizationPoint (id : DeclId)
  | ordinaryFunction
  deriving DecidableEq

/-- The registered declarations and the names in use. -/
structure Registry where
  /-- Every declaration, at the place that its identity names. -/
  nodes : Array Node := #[]
  /-- The declarations without a parent, in registration order. -/
  seeds : List DeclId := []
  /-- The names in use, the latest first. -/
  names : List (QualifiedName × NameUse) := []
  deriving DecidableEq

namespace Registry

/-- A registry without declarations. -/
def empty : Registry := {}

/-- The number of registered declarations. -/
def size (registry : Registry) : Nat := registry.nodes.size

/-- Whether nothing is registered. -/
def isEmpty (registry : Registry) : Bool := registry.nodes.isEmpty

/-! ## Looking up -/

/-- The declaration with this identity. -/
def node? (registry : Registry) (id : DeclId) : Option Node := registry.nodes[id.position]?

/-- What the name stands for, if it is in use. -/
def use? (registry : Registry) (name : QualifiedName) : Option NameUse :=
  registry.names.lookup name

/-- The customization point with this name. -/
def find? (registry : Registry) (name : QualifiedName) : Option Node :=
  match registry.use? name with
  | some (.customizationPoint id) => registry.node? id
  | some .ordinaryFunction | none => none

/-- The nodes with these identities, in the same order. -/
def nodesOf (registry : Registry) (ids : List DeclId) : List Node :=
  ids.filterMap registry.node?

/-- The seeds, in registration order. -/
def seedNodes (registry : Registry) : List Node := registry.nodesOf registry.seeds

/-- The direct overrides of a declaration, in registration order. -/
def overridesOf (registry : Registry) (id : DeclId) : List Node :=
  match registry.node? id with
  | some node => registry.nodesOf node.overrides
  | none => []

/-- The seed of the tree to which a declaration belongs. -/
def seedOf? (registry : Registry) (id : DeclId) : Option Node :=
  (registry.node? id).bind fun node => registry.node? node.seed

/-! ## Growing -/

/-- The registry with one more declaration in the tree of `seed`, at distance `depth` from
it.  The identity is the next free place. -/
def insert (registry : Registry) (id seed : DeclId) (depth : Nat) (decl : Declaration) :
    Registry where
  nodes :=
    (match decl.parent with
      | some parent => registry.nodes.modify parent.position (·.addOverride id)
      | none => registry.nodes).push { id, seed, depth, decl }
  seeds := if decl.isSeed then registry.seeds ++ [id] else registry.seeds
  names :=
    match decl.name with
    | some name => (⟨decl.space, name⟩, .customizationPoint id) :: registry.names
    | none => registry.names

/-- The registry with one more name of an ordinary function. -/
def insertFunction (registry : Registry) (name : QualifiedName) : Registry :=
  { registry with names := (name, .ordinaryFunction) :: registry.names }

@[simp] theorem size_empty : empty.size = 0 := rfl

@[simp] theorem node?_empty (id : DeclId) : empty.node? id = none := by
  simp [node?, empty]

@[simp] theorem use?_empty (name : QualifiedName) : empty.use? name = none := rfl

/-- An insertion adds one declaration. -/
@[simp] theorem size_insert (registry : Registry) (id seed : DeclId) (depth : Nat)
    (decl : Declaration) :
    (registry.insert id seed depth decl).size = registry.size + 1 := by
  cases h : decl.parent <;> simp [insert, size, h]

@[simp] theorem size_insertFunction (registry : Registry) (name : QualifiedName) :
    (registry.insertFunction name).size = registry.size := rfl

/-- Announcing a function puts its name in use and leaves the other names alone. -/
theorem use?_insertFunction (registry : Registry) (announced name : QualifiedName) :
    (registry.insertFunction announced).use? name =
      if name = announced then some .ordinaryFunction else registry.use? name := by
  by_cases h : name = announced
  · simp [insertFunction, use?, h]
  · simp [insertFunction, use?, List.lookup_cons, h, beq_false_of_ne h]

@[simp] theorem node?_insertFunction (registry : Registry) (name : QualifiedName)
    (id : DeclId) : (registry.insertFunction name).node? id = registry.node? id := rfl

end Registry
end CustomizationPoints
