import CustomizationPoints.Association.ClassSet
import CustomizationPoints.Host.Capabilities

/-!
# The classes associated with a call

A friend is visible to a call only if the class that owns it is associated with one of the
arguments.

* A class or union is associated with itself, with the class of which it is a member, and
  with every direct or indirect base class.
* An enumeration is associated with the class of which it is a member.
* Any other type is associated with nothing.

The bases of an enclosing class and the enclosing class of a base do not count.

## The walk over the bases

Bases are expanded depth first, the base declared last before the others, and each
identity at most once for each argument.  So the walk ends on every hierarchy, also on a
cyclic one and on one that changes its answers: there are only finitely many identities,
and each step uses up one of them (`unexpanded_cons_lt`).
-/

namespace CustomizationPoints

/-! ## Identities that are left -/

/-- Every identity of a type. -/
noncomputable def TypeId.all : List TypeId :=
  (List.range UInt32.size).map fun index => ⟨UInt32.ofNat index⟩

theorem TypeId.mem_all (id : TypeId) : id ∈ TypeId.all := by
  refine List.mem_map.2 ⟨id.index.toNat, List.mem_range.2 id.index.toNat_lt, ?_⟩
  rw [UInt32.ofNat_toNat]

/-- The number of identities that are not in the list. -/
noncomputable def unexpanded (expanded : List TypeId) : Nat :=
  (TypeId.all.filter fun id => id ∉ expanded).length

/-- A new identity leaves one fewer. -/
theorem unexpanded_cons_lt {id : TypeId} {expanded : List TypeId} (fresh : id ∉ expanded) :
    unexpanded (id :: expanded) < unexpanded expanded := by
  have shrink : (TypeId.all.filter fun other => other ∉ id :: expanded) =
      (TypeId.all.filter fun other => other ∉ expanded).filter fun other => other ≠ id := by
    rw [List.filter_filter]
    congr 1
    funext other
    simp [not_or]
  unfold unexpanded
  rw [shrink]
  refine List.length_filter_lt_length_iff_exists.2 ⟨id, ?_, by simp⟩
  simpa [TypeId.mem_all] using fresh

/-- The first member that a scan does not skip is not one to be skipped. -/
theorem fresh_of_dropWhile {expanded : List TypeId} {pending rest : List HostType}
    {next : HostType}
    (h : pending.dropWhile (fun type => type.id ∈ expanded) = next :: rest) :
    next.id ∉ expanded := by
  have keep := List.head?_dropWhile_not (fun type : HostType => decide (type.id ∈ expanded))
    pending
  rw [h] at keep
  simpa using keep

namespace ClassHierarchy

variable {m : Type → Type} [Monad m]

/-- **The walk over the bases.**  `pending` is a stack of classes that wait for their
expansion, and `expanded` holds the identities that have had theirs. -/
def addBases (hierarchy : ClassHierarchy m) (expanded : List TypeId)
    (pending : List HostType) (found : ClassSet) : m ClassSet :=
  match _waiting : pending.dropWhile fun type => type.id ∈ expanded with
  | [] => pure found
  | next :: rest => do
    let bases ← hierarchy.bases next
    hierarchy.addBases (next.id :: expanded) (bases.reverse ++ rest) (found.insertAll bases)
termination_by unexpanded expanded
decreasing_by exact unexpanded_cons_lt (fresh_of_dropWhile _waiting)

/-- The classes found so far and those associated with one more argument. -/
def addArgument (hierarchy : ClassHierarchy m) (found : ClassSet) (type : HostType) :
    m ClassSet :=
  match type.kind with
  | .classType | .unionType => do
    let outer ← hierarchy.enclosing type
    hierarchy.addBases [] [type] ((found.insert type).insertAll outer.toList)
  | .enumType => do
    let outer ← hierarchy.enclosing type
    return found.insertAll outer.toList
  | .other => pure found

/-- The classes associated with a single argument. -/
def associatedWith (hierarchy : ClassHierarchy m) (type : HostType) : m ClassSet :=
  hierarchy.addArgument .empty type

/-- **The classes associated with a call**, argument by argument. -/
def associated (hierarchy : ClassHierarchy m) (arguments : List HostType) : m ClassSet :=
  arguments.foldlM hierarchy.addArgument .empty

@[simp] theorem associated_nil (hierarchy : ClassHierarchy m) :
    hierarchy.associated [] = pure .empty := rfl

end ClassHierarchy
end CustomizationPoints
