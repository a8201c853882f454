import CustomizationPoints.Toml.Scanner

/-!
# Characters, blanks and strings

A string comes in four forms: with double quotes it has escapes, with single quotes it has
none, and either kind of quote, written three times, lets the string run over several
lines.  A string over several lines drops the line break that follows its opening quotes,
and its closing quotes may have one or two further quotes in front of them, which belong to
the string.
-/

namespace CustomizationPoints
namespace Toml

/-- A tab, or a character that is not a control character. -/
def isTextChar (c : Char) : Bool := c == '\t' || (0x20 ≤ c.toNat && c.toNat ≠ 0x7F)

/-- A space or a tab. -/
def isBlank (c : Char) : Bool := c == ' ' || c == '\t'

/-- The value of a hexadecimal digit. -/
def hexDigit? (c : Char) : Option Nat :=
  if c.isDigit then some (c.toNat - '0'.toNat)
  else if 'a' ≤ c ∧ c ≤ 'f' then some (c.toNat - 'a'.toNat + 10)
  else if 'A' ≤ c ∧ c ≤ 'F' then some (c.toNat - 'A'.toNat + 10)
  else none

/-- The number that some hexadecimal digits write; characters of other kinds count as
nothing. -/
def numberOfDigits (base : Nat) (digits : List Char) : Nat :=
  digits.foldl (fun total c => total * base + (hexDigit? c).getD 0) 0

namespace Scanner

/-- Spaces and tabs. -/
def blanks : Scanner Unit := discard (run isBlank)

/-- A line break: a line feed, possibly after a carriage return. -/
def lineBreak : Scanner Unit := firstOf [char '\n', literal "\r\n"]

/-- A comment, up to the end of its line. -/
def comment : Scanner Unit := do
  char '#'
  discard (run isTextChar)

/-- Blanks, line breaks and comments. -/
def gap : Scanner Unit := do
  blanks
  discard <| many do
    discard (optional? comment)
    lineBreak
    blanks

/-! ## Strings -/

/-- The character that some hexadecimal digits name, if they name one. -/
def namedChar (digits : Nat) : Scanner Char := do
  let code := numberOfDigits 16 (← exactly digits fun c => (hexDigit? c).isSome)
  if code.isValidChar then return Char.ofNat code else failure

/-- An escape, after its backslash. -/
def escape : Scanner Char := do
  match ← satisfy fun _ => true with
  | 'b' => return '\x08'
  | 't' => return '\t'
  | 'n' => return '\n'
  | 'f' => return '\x0c'
  | 'r' => return '\r'
  | '"' => return '"'
  | '\\' => return '\\'
  | 'u' => namedChar 4
  | 'U' => namedChar 8
  | _ => failure

/-- A piece of a string with escapes. -/
def escapedPiece : Scanner (List Char) := firstOf [
  run1 fun c => isTextChar c && c != '"' && c != '\\',
  do
    char '\\'
    return [← escape]]

/-- A backslash at the end of a line takes all space up to the next character. -/
def continuedLine : Scanner (List Char) := do
  char '\\'
  blanks
  lineBreak
  discard (many (firstOf [discard (run1 isBlank), lineBreak]))
  return []

/-- A line break inside a string. -/
def breakPiece : Scanner (List Char) := do
  lineBreak
  return ['\n']

/-- A quote inside a string over several lines: fewer than three in a row. -/
def loneQuote (quote : Char) : Scanner (List Char) := do
  notAhead (exactly 3 (· == quote))
  char quote
  return [quote]

/-- The end of a string over several lines.  What precedes its last three quotes belongs to
the string. -/
def closingQuotes (quote : Char) : Scanner (List Char) :=
  firstOf <| [5, 4, 3].map fun count => do
    let quotes ← exactly count (· == quote)
    return quotes.drop 3

/-- A string over several lines, made of the given pieces besides quotes and breaks. -/
def severalLines (quote : Char) (piece : Scanner (List Char)) : Scanner String := do
  discard (exactly 3 (· == quote))
  discard (optional? lineBreak)
  let pieces ← many (firstOf [piece, breakPiece, loneQuote quote])
  let last ← closingQuotes quote
  return String.ofList (pieces.flatten ++ last)

/-- A string on one line, made of the given pieces. -/
def oneLine (quote : Char) (piece : Scanner (List Char)) : Scanner String := do
  char quote
  let pieces ← many piece
  char quote
  return String.ofList pieces.flatten

/-- A piece of a string without escapes. -/
def literalPiece : Scanner (List Char) := run1 fun c => isTextChar c && c != '\''

/-- A string on one line, in either form. -/
def quoted : Scanner String := firstOf [oneLine '"' escapedPiece, oneLine '\'' literalPiece]

/-- A string, in any of its four forms. -/
def string : Scanner String := firstOf [
  severalLines '"' (firstOf [continuedLine, escapedPiece]),
  severalLines '\'' literalPiece,
  quoted]

end Scanner
end Toml
end CustomizationPoints
