import CustomizationPoints.Registry.Node

/-!
# Sets of associated classes

The classes associated with a call are a set keyed by the identity of the type, listed in
the order of their discovery.  An identity keeps the place and the type with which it was
discovered first.
-/

namespace CustomizationPoints

/-- Some classes, with at most one for each identity, in the order of their discovery. -/
structure ClassSet where
  classes : List HostType := []
  deriving DecidableEq

namespace ClassSet

/-- No classes. -/
def empty : ClassSet := {}

/-- Whether a class with the identity of `type` is in the set. -/
def contains (set : ClassSet) (type : HostType) : Bool :=
  set.classes.any fun known => known.id = type.id

/-- The set with one more class, at the end unless its identity is in the set already. -/
def insert (set : ClassSet) (type : HostType) : ClassSet :=
  if set.contains type then set else ⟨set.classes ++ [type]⟩

/-- The set with some more classes, in their order. -/
def insertAll (set : ClassSet) (types : List HostType) : ClassSet :=
  types.foldl insert set

/-- The number of classes. -/
def size (set : ClassSet) : Nat := set.classes.length

/-- Whether there is no class in the set. -/
def isEmpty (set : ClassSet) : Bool := set.classes.isEmpty

/-- Whether two sets hold the same classes, kind and name included, in whatever order. -/
def sameClasses (left right : ClassSet) : Bool :=
  left.size = right.size && left.classes.all fun type => type ∈ right.classes

/-- Whether a declaration is visible to a call with these associated classes.  A friend is
visible if its owning class is associated, and every other declaration always is. -/
def admits (set : ClassSet) (node : Node) : Bool :=
  match node.decl.friendOf with
  | some owner => set.contains owner
  | none => true

/-- What a call with these associated classes sees: the declarations that no class owns, and
those whose owner is one of the classes. -/
def Sees (set : ClassSet) (node : Node) : Prop :=
  node.decl.friendOf = none ∨
    ∃ owner, node.decl.friendOf = some owner ∧ set.contains owner = true

/-- A declaration is admitted exactly if the call sees it. -/
theorem admits_iff {set : ClassSet} {node : Node} : set.admits node = true ↔ set.Sees node := by
  unfold admits Sees
  cases node.decl.friendOf with
  | none => simp
  | some owner => simp

/-- A call sees a declaration unless its owner is missing from the classes. -/
theorem sees_iff_forall {set : ClassSet} {node : Node} :
    set.Sees node ↔ ∀ owner, node.decl.friendOf = some owner → set.contains owner = true := by
  unfold Sees
  cases node.decl.friendOf with
  | none => simp
  | some owner => simp

instance (set : ClassSet) (node : Node) : Decidable (set.Sees node) :=
  decidable_of_decidable_of_iff admits_iff

theorem decide_sees (set : ClassSet) (node : Node) :
    decide (set.Sees node) = set.admits node := by
  rw [Bool.eq_iff_iff, decide_eq_true_iff, admits_iff]

@[simp] theorem contains_empty (type : HostType) : empty.contains type = false := rfl

@[simp] theorem insertAll_nil (set : ClassSet) : set.insertAll [] = set := rfl

@[simp] theorem insertAll_cons (set : ClassSet) (type : HostType) (types : List HostType) :
    set.insertAll (type :: types) = (set.insert type).insertAll types := rfl

theorem contains_eq_true_iff {set : ClassSet} {type : HostType} :
    set.contains type = true ↔ ∃ known ∈ set.classes, known.id = type.id := by
  simp [contains]

/-- An insertion adds one identity and keeps the others. -/
theorem contains_insert (set : ClassSet) (added type : HostType) :
    (set.insert added).contains type =
      (set.contains type || decide (added.id = type.id)) := by
  unfold insert
  split
  next present =>
    by_cases h : added.id = type.id
    · simp only [contains, h] at present ⊢
      simp [present]
    · simp [h]
  next => simp [contains, List.any_append]

end ClassSet
end CustomizationPoints
