/-!
# Namespace paths

Declarations live in nested namespaces.  A namespace is the list of its segments,
outermost first, and the global namespace has none.

## Reading and writing

A path is written with `::` between its segments, and the global namespace is written
`::`.  Reading cuts a text at every `::`, from the left and without overlap, and drops the
empty pieces, so `::std::ranges`, `std::ranges` and `std::ranges::` all name the same
namespace.  A single colon is an ordinary character: `a:::b` has the segments `a` and `:b`.

The cut is a function on characters (`pieces`), so that statements about runs of colons are
statements about lists.
-/

namespace CustomizationPoints

/-- A namespace path such as `std::ranges`, outermost segment first. -/
structure Namespace where
  segments : List String
  deriving DecidableEq, Inhabited

namespace Namespace

/-! ## Reading -/

/-- The pieces of a text between its separators `::`, which are taken leftmost first and
without overlap.  There is one piece more than there are separators. -/
def pieces : List Char → List (List Char)
  | [] => [[]]
  | ':' :: ':' :: rest => [] :: pieces rest
  | c :: rest =>
    match pieces rest with
    | [] => [[c]]
    | piece :: others => (c :: piece) :: others

@[simp] theorem pieces_nil : pieces [] = [[]] := rfl

@[simp] theorem pieces_separator (rest : List Char) :
    pieces (':' :: ':' :: rest) = [] :: pieces rest := rfl

/-- The global namespace. -/
def global : Namespace := ⟨[]⟩

/-- The namespace that a path names: its non-empty pieces. -/
def parse (path : String) : Namespace :=
  ⟨((pieces path.toList).filter fun piece => !piece.isEmpty).map String.ofList⟩

/-! ## Writing -/

/-- Whether this is the global namespace. -/
def isGlobal (ns : Namespace) : Bool := ns.segments.isEmpty

/-- The written path. -/
def text (ns : Namespace) : String :=
  if ns.isGlobal then "::" else "::".intercalate ns.segments

/-- The written form of a namespace in a listing of values. -/
def label (ns : Namespace) : String := "Namespace(" ++ ns.text ++ ")"

/-- The full spelling of a name that is declared in this namespace. -/
def qualify (ns : Namespace) (name : String) : String :=
  if ns.isGlobal then "::" ++ name else ns.text ++ "::" ++ name

@[simp] theorem isGlobal_global : global.isGlobal = true := rfl

@[simp] theorem text_global : global.text = "::" := rfl

@[simp] theorem qualify_global (name : String) : global.qualify name = "::" ++ name := rfl

/-! ## Moving up and down -/

/-- The enclosing namespace; the global namespace has none. -/
def parent? (ns : Namespace) : Option Namespace :=
  if ns.isGlobal then none else some ⟨ns.segments.dropLast⟩

/-- The namespace nested in `ns` under one further segment, which is taken as it is. -/
def child (ns : Namespace) (segment : String) : Namespace := ⟨ns.segments ++ [segment]⟩

@[simp] theorem segments_child (ns : Namespace) (segment : String) :
    (ns.child segment).segments = ns.segments ++ [segment] := rfl

@[simp] theorem parent?_global : global.parent? = none := rfl

/-- Moving down and up again is where one started. -/
@[simp] theorem parent?_child (ns : Namespace) (segment : String) :
    (ns.child segment).parent? = some ns := by
  simp [parent?, child, isGlobal]

end Namespace
end CustomizationPoints
