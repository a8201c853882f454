import CustomizationPoints.Namespace

/-!
# The order of namespaces

Namespaces are listed in dictionary order over their segments, so a namespace comes before
everything nested in it.  Two segments compare by their characters' code points, which is
also the order of their UTF-8 bytes.
-/

namespace CustomizationPoints
namespace Namespace

instance : LT Namespace := ⟨fun a b => a.segments < b.segments⟩

instance : DecidableLT Namespace := fun a b =>
  inferInstanceAs (Decidable (a.segments < b.segments))

/-- The namespaces in dictionary order. -/
def sort (spaces : List Namespace) : List Namespace :=
  spaces.mergeSort fun a b => !decide (b < a)

/-- A list with each run of equal neighbours merged into one; on a sorted list this leaves
every namespace once. -/
def mergeEqualNeighbours : List Namespace → List Namespace
  | [] => []
  | [ns] => [ns]
  | a :: b :: rest =>
    if a = b then mergeEqualNeighbours (b :: rest) else a :: mergeEqualNeighbours (b :: rest)

/-- The number of entries that only repeat another one. -/
def repetitions (spaces : List Namespace) : Nat :=
  spaces.length - (mergeEqualNeighbours (sort spaces)).length

end Namespace
end CustomizationPoints
