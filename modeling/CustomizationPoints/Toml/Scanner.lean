/-!
# Reading a text from the left

A scanner takes a piece off the front of a text, or fails.  A failure takes nothing, so
that an alternative starts where the failed scanner did.

Repetition is bounded by the length of the text: a scanner that takes at least one
character can succeed no more often than that.
-/

namespace CustomizationPoints
namespace Toml

/-- Takes a piece off the front of a text and makes a value of it, or fails. -/
abbrev Scanner := StateT (List Char) Option

namespace Scanner

variable {α β : Type}

/-- One character with a property. -/
def satisfy (accepts : Char → Bool) : Scanner Char
  | [] => none
  | c :: rest => if accepts c then some (c, rest) else none

/-- One given character. -/
def char (expected : Char) : Scanner Unit := discard (satisfy (· == expected))

/-- The given characters. -/
def chars : List Char → Scanner Unit
  | [] => pure ()
  | c :: rest => do
    char c
    chars rest

/-- The given text. -/
def literal (text : String) : Scanner Unit := chars text.toList

/-- All characters up to the first one without the property. -/
def run (accepts : Char → Bool) : Scanner (List Char) :=
  fun text => some (text.span accepts)

/-- A run of at least one character. -/
def run1 (accepts : Char → Bool) : Scanner (List Char) := do
  let first ← satisfy accepts
  let rest ← run accepts
  return first :: rest

/-- A given number of characters with a property. -/
def exactly : Nat → (Char → Bool) → Scanner (List Char)
  | 0, _ => pure []
  | count + 1, accepts => do
    let first ← satisfy accepts
    let rest ← exactly count accepts
    return first :: rest

/-- The end of the text. -/
def atEnd : Scanner Unit
  | [] => some ((), [])
  | _ :: _ => none

/-- Succeeds where the scanner would, and takes nothing. -/
def lookahead (scanner : Scanner α) : Scanner Unit :=
  fun text => (scanner text).map fun _ => ((), text)

/-- Succeeds where the scanner would fail, and takes nothing. -/
def notAhead (scanner : Scanner α) : Scanner Unit :=
  fun text => if (scanner text).isSome then none else some ((), text)

/-- The scanner if it succeeds, and nothing otherwise. -/
def optional? (scanner : Scanner α) : Scanner (Option α) :=
  (some <$> scanner) <|> pure none

/-- The first alternative that succeeds. -/
def firstOf : List (Scanner α) → Scanner α
  | [] => failure
  | scanner :: others => scanner <|> firstOf others

/-- The scanner as often as it succeeds, at most `bound` times. -/
def manyWithin (scanner : Scanner α) : Nat → Scanner (List α)
  | 0 => pure []
  | bound + 1 =>
    (do
      let first ← scanner
      let rest ← manyWithin scanner bound
      return first :: rest) <|> pure []

/-- The scanner as often as it succeeds.  It takes at least one character each time. -/
def many (scanner : Scanner α) : Scanner (List α) := do
  manyWithin scanner (← get).length

/-- One or more, with separators between them. -/
def separated (separator : Scanner β) (scanner : Scanner α) : Scanner (List α) := do
  let first ← scanner
  let rest ← many do
    discard separator
    scanner
  return first :: rest

/-- What the scanner makes of a text that it takes whole. -/
def parse? (scanner : Scanner α) (text : List Char) : Option α :=
  match scanner text with
  | some (value, []) => some value
  | some (_, _ :: _) | none => none

end Scanner
end Toml
end CustomizationPoints
