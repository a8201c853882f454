import CustomizationPoints.Host.Capabilities

/-!
# A table of classes

A host that records class relationships as it meets class definitions can answer from this
table.  It is keyed by the identity of a type alone; kind and name of the key do not
matter.  A base that is recorded twice is listed once, where it came first, and two bases
are the same only if identity, kind and name agree.  The enclosing class is the one that
was recorded last.
-/

namespace CustomizationPoints

/-- One recorded relationship. -/
inductive ClassFact where
  | base (derived base : HostType)
  | member (nested enclosing : HostType)
  deriving DecidableEq

/-- The recorded base classes and enclosing classes. -/
structure ClassTable where
  bases : List (TypeId × List HostType) := []
  enclosing : List (TypeId × HostType) := []

namespace ClassTable

/-- A table without entries. -/
def empty : ClassTable := {}

/-- The recorded bases of a type, in the order in which they were first recorded. -/
def basesOf (table : ClassTable) (type : HostType) : List HostType :=
  (table.bases.lookup type.id).getD []

/-- The class last recorded as enclosing a type. -/
def enclosing? (table : ClassTable) (type : HostType) : Option HostType :=
  table.enclosing.lookup type.id

/-- Record that `derived` derives directly from `base`. -/
def addBase (table : ClassTable) (derived base : HostType) : ClassTable :=
  let known := table.basesOf derived
  if base ∈ known then table
  else { table with bases := (derived.id, known ++ [base]) :: table.bases }

/-- Record that `nested` is a member of `enclosing`. -/
def setEnclosing (table : ClassTable) (nested enclosing : HostType) : ClassTable :=
  { table with enclosing := (nested.id, enclosing) :: table.enclosing }

/-- Record one relationship. -/
def record (table : ClassTable) : ClassFact → ClassTable
  | .base derived base => table.addBase derived base
  | .member nested enclosing => table.setEnclosing nested enclosing

/-- The table after recording these relationships in order. -/
def ofFacts (facts : List ClassFact) : ClassTable := facts.foldl record empty

/-- The table as the host's answers about classes. -/
def hierarchy {m : Type → Type} [Pure m] (table : ClassTable) : ClassHierarchy m where
  bases type := pure (table.basesOf type)
  enclosing type := pure (table.enclosing? type)

@[simp] theorem basesOf_empty (type : HostType) : empty.basesOf type = [] := rfl

@[simp] theorem enclosing?_empty (type : HostType) : empty.enclosing? type = none := rfl

@[simp] theorem basesOf_setEnclosing (table : ClassTable) (nested enclosing type : HostType) :
    (table.setEnclosing nested enclosing).basesOf type = table.basesOf type := rfl

@[simp] theorem enclosing?_addBase (table : ClassTable) (derived base type : HostType) :
    (table.addBase derived base).enclosing? type = table.enclosing? type := by
  by_cases h : base ∈ table.basesOf derived <;> simp [addBase, enclosing?, h]

/-- The latest entry wins. -/
theorem enclosing?_setEnclosing (table : ClassTable) (nested enclosing type : HostType) :
    (table.setEnclosing nested enclosing).enclosing? type =
      if type.id = nested.id then some enclosing else table.enclosing? type := by
  by_cases h : type.id = nested.id
  · simp [setEnclosing, enclosing?, h]
  · simp [setEnclosing, enclosing?, List.lookup_cons, h, beq_false_of_ne h]

end ClassTable
end CustomizationPoints
