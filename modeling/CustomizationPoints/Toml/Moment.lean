import CustomizationPoints.Toml.Text

/-!
# Dates and times

A moment is a date, a time of day, or both.  Only a moment with both may say how far its
clock is from the world's.  Nothing reads the moment; it only has to be one.
-/

namespace CustomizationPoints
namespace Toml

/-- Whether the year has a leap day. -/
def isLeapYear (year : Nat) : Bool := year % 4 == 0 && (year % 100 != 0 || year % 400 == 0)

/-- The number of days in a month, from one to twelve. -/
def daysInMonth (year month : Nat) : Nat :=
  if month = 2 then (if isLeapYear year then 29 else 28)
  else if month ∈ [4, 6, 9, 11] then 30
  else 31

namespace Scanner

/-- A number with a fixed count of digits, between two bounds. -/
def padded (count least most : Nat) : Scanner Nat := do
  let value := numberOfDigits 10 (← exactly count Char.isDigit)
  if least ≤ value ∧ value ≤ most then return value else failure

/-- A date. -/
def date : Scanner Unit := do
  let year ← padded 4 0 9999
  char '-'
  let month ← padded 2 1 12
  char '-'
  let day ← padded 2 1 31
  if day ≤ daysInMonth year month then pure () else failure

/-- A time of day.  A minute may have a leap second. -/
def timeOfDay : Scanner Unit := do
  discard (padded 2 0 23)
  char ':'
  discard (padded 2 0 59)
  char ':'
  discard (padded 2 0 60)
  discard <| optional? do
    char '.'
    run1 Char.isDigit

/-- The distance of a clock from the world's. -/
def offset : Scanner Unit := firstOf [
  discard (satisfy fun c => c == 'Z' || c == 'z'),
  do
    discard (satisfy fun c => c == '+' || c == '-')
    discard (padded 2 0 23)
    char ':'
    discard (padded 2 0 59)]

/-- A date, a time of day, or both. -/
def moment : Scanner Unit := firstOf [
  do
    date
    discard <| optional? do
      discard (satisfy fun c => c == 'T' || c == 't' || c == ' ')
      timeOfDay
      optional? offset,
  timeOfDay]

end Scanner
end Toml
end CustomizationPoints
