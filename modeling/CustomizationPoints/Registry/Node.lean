import CustomizationPoints.Declaration

/-!
# Registered declarations

A registered declaration knows its identity, the seed of its tree, its distance from that
seed, and its direct overrides in the order in which they were registered.
-/

namespace CustomizationPoints

/-- A registered declaration. -/
structure Node where
  id : DeclId
  /-- The root of the tree; a seed is its own. -/
  seed : DeclId
  /-- The distance from the seed. -/
  depth : Nat
  decl : Declaration
  /-- The direct overrides, in registration order. -/
  overrides : List DeclId := []
  deriving DecidableEq

namespace Node

/-- The name that messages use: the full spelling, or a label with the identity for a
declaration without a name. -/
def displayName (node : Node) : String :=
  match node.decl.name with
  | some name => node.decl.space.qualify name
  | none => "<unnamed override " ++ node.id.text ++ ">"

/-- The declaration as one line of source text. -/
def signature (node : Node) : String :=
  let required := match node.decl.constraint with
    | some constraint => " requires " ++ constraint.text
    | none => ""
  let body := if node.decl.isPure then " = 0" else ""
  node.decl.returnType.text ++ " " ++ node.displayName ++ "("
    ++ ", ".intercalate (node.decl.parameters.map Parameter.text) ++ ")" ++ required ++ body

/-- The node with one more direct override, registered after the others. -/
def addOverride (node : Node) (id : DeclId) : Node :=
  { node with overrides := node.overrides ++ [id] }

@[simp] theorem id_addOverride (node : Node) (id : DeclId) :
    (node.addOverride id).id = node.id := rfl

@[simp] theorem seed_addOverride (node : Node) (id : DeclId) :
    (node.addOverride id).seed = node.seed := rfl

@[simp] theorem depth_addOverride (node : Node) (id : DeclId) :
    (node.addOverride id).depth = node.depth := rfl

@[simp] theorem decl_addOverride (node : Node) (id : DeclId) :
    (node.addOverride id).decl = node.decl := rfl

@[simp] theorem overrides_addOverride (node : Node) (id : DeclId) :
    (node.addOverride id).overrides = node.overrides ++ [id] := rfl

@[simp] theorem displayName_addOverride (node : Node) (id : DeclId) :
    (node.addOverride id).displayName = node.displayName := rfl

end Node
end CustomizationPoints
