import CustomizationPoints.Toml.Text

/-!
# Numbers

Whole numbers are written in base ten with an optional sign, or without a sign in base
sixteen, eight or two; they fit in 64 bits with a sign.  Underscores may stand between two
digits.  Nothing reads the value of a number with a fraction or an exponent, so it is only
checked: a positive one must be less than what rounds to infinity.
-/

namespace CustomizationPoints
namespace Toml

/-- Whether the number is in the range of 64 bits with a sign. -/
def fitsWord (value : Int) : Bool :=
  Int64.minValue.toInt ≤ value && value ≤ Int64.maxValue.toInt

/-- The least number that rounds to infinity in the 64-bit binary format: halfway between
the largest finite one and the next power of two. -/
def infinityThreshold : Nat := Nat.pow 2 1024 - Nat.pow 2 970

/-- Whether `mantissa * 10 ^ exponent` rounds to infinity.  Numbers far from the threshold
are told apart by their number of digits. -/
def roundsToInfinity (mantissa : Nat) (exponent : Int) : Bool :=
  let magnitude : Int := (Nat.toDigits 10 mantissa).length + exponent
  if mantissa = 0 || magnitude < 300 then false
  else if 310 < magnitude then true
  else if 0 ≤ exponent then infinityThreshold ≤ mantissa * Nat.pow 10 exponent.toNat
  else infinityThreshold * Nat.pow 10 (-exponent).toNat ≤ mantissa

namespace Scanner

/-- A sign; true if it is a minus. -/
def sign : Scanner Bool := do
  match ← satisfy fun c => c == '+' || c == '-' with
  | '-' => return true
  | _ => return false

/-- Digits with underscores between them; the value is the digits. -/
def digits (accepts : Char → Bool) : Scanner (List Char) := do
  let first ← satisfy accepts
  let rest ← many (firstOf [satisfy accepts, do char '_'; satisfy accepts])
  return first :: rest

/-- The digits of a whole number in base ten, without superfluous zeros. -/
def plainDigits : Scanner (List Char) := firstOf [
  do
    char '0'
    return ['0'],
  do
    lookahead (satisfy (· != '0'))
    digits Char.isDigit]

/-- The digits after a marker for their base. -/
def basedDigits (marker : String) (base : Nat) : Scanner Nat := do
  literal marker
  let found ← digits fun c => match hexDigit? c with
    | some value => value < base
    | none => false
  return numberOfDigits base found

/-- A whole number. -/
def integer : Scanner Int := do
  let value ← firstOf [
    Int.ofNat <$> basedDigits "0x" 16,
    Int.ofNat <$> basedDigits "0o" 8,
    Int.ofNat <$> basedDigits "0b" 2,
    do
      let negative := (← optional? sign).getD false
      let magnitude := numberOfDigits 10 (← plainDigits)
      return if negative then -Int.ofNat magnitude else Int.ofNat magnitude]
  if fitsWord value then return value else failure

/-- The exponent of a number. -/
def exponent : Scanner Int := do
  discard (satisfy fun c => c == 'e' || c == 'E')
  let negative := (← optional? sign).getD false
  let magnitude := numberOfDigits 10 (← digits Char.isDigit)
  return if negative then -Int.ofNat magnitude else Int.ofNat magnitude

/-- The digits of a fraction. -/
def fraction : Scanner (List Char) := do
  char '.'
  digits Char.isDigit

/-- A number with a fraction, an exponent or both; true if it is too large. -/
def scientific : Scanner Bool := do
  let negative := (← optional? sign).getD false
  let whole ← plainDigits
  let places ← optional? fraction
  let power ← if places.isSome then optional? exponent else some <$> exponent
  let all := whole ++ places.getD []
  let shift : Int := (places.getD []).length
  return !negative && roundsToInfinity (numberOfDigits 10 all) (power.getD 0 - shift)

/-- Infinity, or the result of an operation without one. -/
def specialNumber : Scanner Unit := do
  discard (optional? sign)
  firstOf [literal "inf", literal "nan"]

/-- A number that is not a whole number. -/
def float : Scanner Unit := firstOf [
  specialNumber,
  do
    if ← scientific then failure else pure ()]

end Scanner
end Toml
end CustomizationPoints
