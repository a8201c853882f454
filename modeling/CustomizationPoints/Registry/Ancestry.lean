import CustomizationPoints.Registry.Basic

/-!
# Ancestors

The ancestors of a declaration are found by following parents.  Parents are registered
first, so the walk goes down in the order of registration and meets at most as many
declarations as there are; that number bounds the recursion.
-/

namespace CustomizationPoints
namespace Registry

/-- The first `bound` declarations on the way from `id` to its seed. -/
def ancestorsWithin (registry : Registry) : Nat → DeclId → List Node
  | 0, _ => []
  | bound + 1, id =>
    match registry.node? id with
    | none => []
    | some node =>
      match node.decl.parent with
      | none => [node]
      | some parent => node :: registry.ancestorsWithin bound parent

/-- The declaration and its ancestors, from `id` itself up to the seed.  An identity that
is not registered has none. -/
def ancestors (registry : Registry) (id : DeclId) : List Node :=
  registry.ancestorsWithin registry.size id

/-- Whether `ancestor` is on the way from `id` to its seed, both ends included. -/
def isAncestorOrSelf (registry : Registry) (ancestor id : DeclId) : Bool :=
  (registry.ancestors id).any fun node => node.id = ancestor

@[simp] theorem ancestorsWithin_zero (registry : Registry) (id : DeclId) :
    registry.ancestorsWithin 0 id = [] := rfl

end Registry
end CustomizationPoints
