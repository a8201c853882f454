/-!
# Tables

A table maps keys to values, in the order in which the keys came.  How a table came to be
decides what may still be added to it.

* A table under a header of its own is complete once the next header comes.
* A table that a longer header only passed through waits for a header of its own.
* A table made by dotted keys is added to by further dotted keys.
* An inline table is written whole and takes nothing more.

An array of tables grows by one table with each of its headers, and a path that leads
through it means its last table.
-/

namespace CustomizationPoints
namespace Toml

/-- How a table that is not written inline came to be. -/
inductive Origin where
  /-- By a header of its own. -/
  | header
  /-- By a header for something inside it. -/
  | passage
  /-- By a dotted key. -/
  | dotted
  deriving DecidableEq

/-- A value in a document.  Nothing reads what a date or a number with a fraction says, so
these are only told apart from the others. -/
inductive Value where
  | string (text : String)
  | integer (value : Int)
  | float
  | boolean (value : Bool)
  | moment
  | array (members : List Value)
  | inlineTable (entries : List (String × Value))
  | table (origin : Origin) (entries : List (String × Value))
  | tables (members : List (List (String × Value)))

/-- The entries of a table. -/
abbrev Entries := List (String × Value)

namespace Entries

/-- The entries with a new value under a key that is there. -/
def replace (entries : Entries) (key : String) (value : Value) : Entries :=
  entries.map fun entry => if entry.1 = key then (key, value) else entry

/-- The entries with one more key, which must be new. -/
def add? (entries : Entries) (key : String) (value : Value) : Option Entries :=
  match entries.lookup key with
  | some _ => none
  | none => some (entries ++ [(key, value)])

/-- Change the last member of a list. -/
def changeLast? {α : Type} (change : α → Option α) : List α → Option (List α)
  | [] => none
  | [last] => (change last).map ([·])
  | first :: rest => (changeLast? change rest).map (first :: ·)

/-! ## Dotted keys -/

/-- Add a value under a dotted key inside a table that such a key leads through.  The
table that finally takes the value must itself be made by dotted keys; `inDotted` says
whether this one is. -/
def addBelow? (key : String) (value : Value) : Bool → Entries → List String → Option Entries
  | inDotted, entries, [] => if inDotted then entries.add? key value else none
  | _, entries, part :: path =>
    match entries.lookup part with
    | none =>
      (addBelow? key value true [] path).map fun inner =>
        entries ++ [(part, .table .dotted inner)]
    | some (.table .dotted inner) =>
      (addBelow? key value true inner path).map fun changed =>
        entries.replace part (.table .dotted changed)
    | some (.table .passage inner) =>
      (addBelow? key value false inner path).map fun changed =>
        entries.replace part (.table .passage changed)
    | some (.tables members) =>
      (changeLast? (addBelow? key value false · path) members).map fun changed =>
        entries.replace part (.tables changed)
    | some _ => none

/-- Add a value under a key, which may be dotted. -/
def assign? (entries : Entries) (path : List String) (key : String) (value : Value) :
    Option Entries :=
  match path with
  | [] => entries.add? key value
  | _ :: _ => addBelow? key value false entries path

/-- The table that some assignments make. -/
def ofAssignments? (assignments : List ((List String × String) × Value)) :
    Option Entries :=
  assignments.foldlM (fun entries ((path, key), value) => entries.assign? path key value) []

/-! ## Headers -/

/-- Change the table to which a header's path leads.  Tables that the path passes through
and that are missing are made on the way. -/
def changeAt? (change : Entries → Option Entries) : Entries → List String → Option Entries
  | entries, [] => change entries
  | entries, part :: path =>
    match entries.lookup part with
    | none =>
      (changeAt? change [] path).map fun inner => entries ++ [(part, .table .passage inner)]
    | some (.table origin inner) =>
      (changeAt? change inner path).map fun changed =>
        entries.replace part (.table origin changed)
    | some (.tables members) =>
      (changeLast? (changeAt? change · path) members).map fun changed =>
        entries.replace part (.tables changed)
    | some _ => none

/-- Make a table under a header of its own.  Only a table that was passed through before
may be there already, and it keeps its entries. -/
def openTable? (entries : Entries) (key : String) : Option Entries :=
  match entries.lookup key with
  | none => some (entries ++ [(key, .table .header [])])
  | some (.table .passage inner) => some (entries.replace key (.table .header inner))
  | some _ => none

/-- Add an empty table to the end of an array of tables. -/
def openMember? (entries : Entries) (key : String) : Option Entries :=
  match entries.lookup key with
  | none => some (entries ++ [(key, .tables [[]])])
  | some (.tables members) => some (entries.replace key (.tables (members ++ [[]])))
  | some _ => none

end Entries

/-- Whether the value is an array or a table without members. -/
def Value.isEmptyContainer : Value → Bool
  | .array members => members.isEmpty
  | .inlineTable entries | .table _ entries => entries.isEmpty
  | .tables members => members.isEmpty
  | .string _ | .integer _ | .float | .boolean _ | .moment => false

end Toml
end CustomizationPoints
