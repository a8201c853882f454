import CustomizationPoints.Toml.Moment
import CustomizationPoints.Toml.Number
import CustomizationPoints.Toml.Table

/-!
# Documents

A document is a sequence of lines, each of which assigns a value to a key, opens a table,
or holds nothing but a comment.  Reading one takes two steps.  The scanner makes statements
of the text; a value may run over several lines.  Then the statements are carried out in
order, and one that contradicts an earlier one makes the document invalid.

Arrays and inline tables may be nested, and keys may have parts, up to a fixed depth; the
recursion over values is on that depth.
-/

namespace CustomizationPoints
namespace Toml

/-- Keys have fewer parts than this, and values are nested fewer times. -/
def depthLimit : Nat := 80

/-- A line of a document. -/
inductive Statement where
  | blank
  /-- A value under a key; the parts of the key before the last one come first. -/
  | assignment (path : List String) (key : String) (value : Value)
  /-- A header that opens a table. -/
  | header (path : List String) (key : String)
  /-- A header that adds a table to an array of tables. -/
  | memberHeader (path : List String) (key : String)

namespace Scanner

/-! ## Keys -/

/-- A letter, digit or sign that needs no quotes in a key. -/
def isBareKeyChar (c : Char) : Bool := c.isAlphanum || c == '_' || c == '-'

/-- One part of a key. -/
def keyPart : Scanner String := firstOf [String.ofList <$> run1 isBareKeyChar, quoted]

/-- A key: its parts before the last one, and the last one. -/
def key : Scanner (List String × String) := do
  let parts ← separated (char '.') do
    blanks
    let part ← keyPart
    blanks
    return part
  match parts.getLast? with
  | some last => if parts.length < depthLimit then return (parts.dropLast, last) else failure
  | none => failure

/-! ## Values -/

/-- A value without members. -/
def scalar : Scanner Value := firstOf [
  Value.string <$> string,
  do literal "true"; return .boolean true,
  do literal "false"; return .boolean false,
  do moment; return .moment,
  do float; return .float,
  Value.integer <$> integer]

/-- An array of what the scanner reads. -/
def array (member : Scanner Value) : Scanner Value := do
  char '['
  let members ← firstOf [
    do
      let members ← separated (char ',') do
        gap
        let found ← member
        gap
        return found
      discard (optional? (char ','))
      return members,
    pure []]
  gap
  char ']'
  return .array members

/-- A key and its value, with an equals sign between them. -/
def assignment (value : Scanner Value) : Scanner ((List String × String) × Value) := do
  let target ← key
  char '='
  blanks
  let found ← value
  return (target, found)

/-- An inline table of what the scanner reads. -/
def inlineTable (member : Scanner Value) : Scanner Value := do
  char '{'
  blanks
  let assignments ← firstOf [
    separated (char ',') do
      let found ← assignment member
      blanks
      return found,
    pure []]
  char '}'
  match Entries.ofAssignments? assignments with
  | some entries => return .inlineTable entries
  | none => failure

/-- A value that is nested at most the given number of times. -/
def value : Nat → Scanner Value
  | 0 => scalar
  | depth + 1 => firstOf [scalar, array (value depth), inlineTable (value depth)]

/-! ## Statements -/

/-- A line, without its blanks, its comment and its end. -/
def line : Scanner Statement := firstOf [
  do
    literal "[["
    let (path, last) ← key
    literal "]]"
    return .memberHeader path last,
  do
    char '['
    let (path, last) ← key
    char ']'
    return .header path last,
  do
    let ((path, last), found) ← assignment (value (depthLimit - 1))
    return .assignment path last found,
  pure .blank]

/-- A whole line. -/
def statement : Scanner Statement := do
  notAhead atEnd
  blanks
  let found ← line
  blanks
  discard (optional? comment)
  firstOf [lineBreak, atEnd]
  return found

/-- All lines of a document, after a byte order mark if there is one. -/
def document : Scanner (List Statement) := do
  discard (optional? (char '\uFEFF'))
  many statement

end Scanner

/-! ## Carrying out the statements -/

/-- What the statements so far have built, and the path to the table that takes the
assignments to come. -/
structure Progress where
  root : Entries := []
  here : List String := []

/-- Carry out one statement. -/
def Progress.carryOut? (progress : Progress) : Statement → Option Progress
  | .blank => some progress
  | .assignment path key value => do
    let root ← progress.root.changeAt? (·.assign? path key value) progress.here
    return { progress with root }
  | .header path key => do
    let root ← progress.root.changeAt? (·.openTable? key) path
    return { root, here := path ++ [key] }
  | .memberHeader path key => do
    let root ← progress.root.changeAt? (·.openMember? key) path
    return { root, here := path ++ [key] }

/-- **Reading a document**: the entries of its outermost table, if it is valid. -/
def parse? (text : String) : Option Entries := do
  let statements ← Scanner.document.parse? text.toList
  let progress ← statements.foldlM Progress.carryOut? {}
  return progress.root

end Toml
end CustomizationPoints
