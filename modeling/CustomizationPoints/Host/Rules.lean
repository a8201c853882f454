import CustomizationPoints.Association.Walk
import CustomizationPoints.Host.ClassTable
import CustomizationPoints.Host.Interview

/-!
# Hosts described by rules

A host can be described by a few rules instead of being programmed: when a declaration
accepts a call, which of two constraints is the stronger one, under which arguments a
promise holds, how the classes are related, and which types convert to which.  The answers
of such a host depend on the question alone.

## Levels

Some rules go by a *level*.  The level of a declaration is the identity of its constraint,
the level of a call is the identity of its first argument, and either is `0` where there is
nothing to take it from.
-/

namespace CustomizationPoints

/-! ## Which declarations accept a call -/

/-- When a declaration accepts a call: when every rule that is given holds. -/
structure ViabilityRules where
  /-- There are as many parameters as arguments. -/
  arity : Bool := false
  /-- Every concrete parameter is equal to the argument at its position.  Parameters or
  arguments without a counterpart do not matter. -/
  exact : Bool := false
  /-- The level of the declaration is at most that of the call. -/
  level : Bool := false
  /-- The first argument's type models the declaration's constraint: which constraints a
  type models is listed under its name. -/
  models : Option (List (String × List UInt32)) := none
  /-- Declarations that accept nothing. -/
  deny : List DeclId := []

namespace ViabilityRules

/-- Whether a parameter takes an argument as it is. -/
def fits : Parameter → HostType → Bool
  | .concrete type, argument => type = argument
  | .dependent _, _ => true

/-- Whether the first argument models the declaration's constraint. -/
def modelled (models : List (String × List UInt32)) (decl : Declaration)
    (arguments : List HostType) : Bool :=
  match decl.constraint, arguments with
  | none, _ => true
  | some _, [] => false
  | some constraint, first :: _ =>
    ((models.lookup first.name).getD []).contains constraint.id

/-- The level of a call. -/
def levelOf (arguments : List HostType) : UInt32 :=
  match arguments with
  | first :: _ => first.id.index
  | [] => 0

/-- Whether the declaration accepts the arguments. -/
def accepts (rules : ViabilityRules) (node : Node) (arguments : List HostType) : Bool :=
  let decl := node.decl
  (!rules.arity || decl.parameters.length == arguments.length)
    && (!rules.exact || (decl.parameters.zip arguments).all fun pair => fits pair.1 pair.2)
    && (!rules.level || decide (decl.constraintLevel ≤ levelOf arguments))
    && (match rules.models with
        | some models => modelled models decl arguments
        | none => true)
    && !rules.deny.contains node.id

end ViabilityRules

/-! ## Which of two declarations is more specialized -/

/-- How declarations are compared. -/
inductive OrderRule where
  /-- A higher level is more specialized. -/
  | level
  /-- The more specialized declarations are listed with those that they outrank. -/
  | pairs (outranks : List (DeclId × DeclId))
  /-- Constraints are listed with those that they refine directly.  A later row replaces an
  earlier one for the same constraint. -/
  | refines (rows : List (UInt32 × List UInt32))
  /-- Nothing is compared; the same answer is given every time. -/
  | fixed (answer : Option DeclId)

namespace OrderRule

/-- The constraints that a constraint refines directly. -/
def directlyRefined (rows : List (UInt32 × List UInt32)) (id : UInt32) : List UInt32 :=
  (rows.reverse.lookup id).getD []

/-- Some constraints, and those that they refine over at most `steps` rows. -/
def closure (rows : List (UInt32 × List UInt32)) : Nat → List UInt32 → List UInt32
  | 0, reached => reached
  | steps + 1, reached =>
    closure rows steps (reached ++ reached.flatMap (directlyRefined rows)).eraseDups

/-- Whether the first declaration is at least as constrained as the second: the second has
no constraint, or it has one that the first declaration's constraint is or refines.  A
shortest chain of refinements uses every row at most once. -/
def atLeastAsConstrained (rows : List (UInt32 × List UInt32)) (left right : Declaration) :
    Bool :=
  match right.constraint, left.constraint with
  | none, _ => true
  | some _, none => false
  | some weaker, some stronger => (closure rows rows.length [stronger.id]).contains weaker.id

/-- Whether the first declaration is more specialized than the second. -/
def prefers : OrderRule → Node → Node → Bool
  | .level, left, right => right.decl.constraintLevel < left.decl.constraintLevel
  | .pairs outranks, left, right => outranks.contains (left.id, right.id)
  | .refines rows, left, right =>
    atLeastAsConstrained rows left.decl right.decl
      && !atLeastAsConstrained rows right.decl left.decl
  | .fixed _, _, _ => false

end OrderRule

/-! ## Promises and conversions -/

/-- When a conditional promise not to throw holds. -/
inductive PromiseRule where
  | always (answer : Bool)
  /-- It holds if the type of every argument has one of these names. -/
  | whenArguments (names : List String)

/-- Whether the promise holds for these arguments. -/
def PromiseRule.holds : PromiseRule → List HostType → Bool
  | .always answer, _ => answer
  | .whenArguments names, arguments => arguments.all fun type => names.contains type.name

/-- The pairs of types between which there is a conversion, and those between which it
cannot throw.  That a type converts to itself is not implied. -/
structure ConversionTable where
  implicit : List (HostType × HostType) := []
  nothrow : List (HostType × HostType) := []

/-! ## The host -/

/-- A host that is described by rules. -/
structure HostRules where
  viability : ViabilityRules := {}
  order : OrderRule := .pairs []
  promises : List (String × PromiseRule) := []
  classes : ClassTable := .empty
  /-- Without a table, every type converts to itself only. -/
  conversions : Option ConversionTable := none

/-- A table's answers about conversions; it has none to other questions. -/
def ConversionTable.strategy (table : ConversionTable) : Strategy := fun _ question =>
  match question with
  | .implicit source target => table.implicit.contains (source, target)
  | .nothrow source target => table.nothrow.contains (source, target)
  | .viable .. | .more .. | .promise .. => false
  | .order .. => none
  | .bases _ => []
  | .enclosing _ => none

/-- The conversions of a table, or of every type to itself. -/
def ConversionTable.conversions : Option ConversionTable → Conversions Interview
  | some table => table.strategy.conversions
  | none => .identity

namespace HostRules

/-- The answers of the host, which do not depend on what was asked before. -/
def strategy (rules : HostRules) : Strategy := fun asked question =>
  match question with
  | .viable node arguments => rules.viability.accepts node arguments
  | .order .. =>
    match rules.order with
    | .fixed answer => answer
    | .level | .pairs _ | .refines _ => none
  | .more left right _ => rules.order.prefers left right
  | .promise _ condition arguments =>
    match rules.promises.lookup condition with
    | some rule => rule.holds arguments
    | none => false
  | .bases type => rules.classes.basesOf type
  | .enclosing type => rules.classes.enclosing? type
  | .implicit source target =>
    (rules.conversions.getD {}).strategy asked (.implicit source target)
  | .nothrow source target =>
    (rules.conversions.getD {}).strategy asked (.nothrow source target)

/-- The host as an oracle.  It compares declarations two at a time, unless its answer is
fixed. -/
def oracle (rules : HostRules) : Oracle Interview :=
  match rules.order with
  | .fixed _ => rules.strategy.oracle
  | .level | .pairs _ | .refines _ => rules.strategy.pairwiseOracle

/-- The host's classes. -/
def hierarchy (rules : HostRules) : ClassHierarchy Interview := rules.strategy.classes

/-- The host's conversions. -/
def conversionsOf (rules : HostRules) : Conversions Interview :=
  ConversionTable.conversions rules.conversions

end HostRules
end CustomizationPoints
