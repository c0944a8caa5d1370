/-!
Numbers read from text. A decimal is an optional sign, digits with at most one point among or
around them, and an optional exponent; the result is the binary64 number nearest to it.
-/
namespace TieredCompaction.Decimal

/-- The digits at the head of a text, as a number with their count, and the rest of the text. -/
def readDigits (s : List Char) : Nat × Nat × List Char :=
  let digits := s.takeWhile Char.isDigit
  (digits.foldl (fun n c => 10 * n + (c.toNat - '0'.toNat)) 0, digits.length,
    s.dropWhile Char.isDigit)

/-- A whole number of at least one digit, with an optional plus sign, below `2 ^ 64`. -/
def readWord (s : List Char) : Option Nat :=
  let (value, count, rest) := readDigits (match s with | '+' :: s => s | s => s)
  if 0 < count ∧ rest = [] ∧ value < UInt64.size then some value else none

/-- The exponent part: nothing, or `e` with a signed whole number of at least one digit. -/
def readExponent : List Char → Option Int
  | [] => some 0
  | c :: s =>
    if c = 'e' ∨ c = 'E' then
      let (negative, s) := match s with
        | '-' :: s => (true, s)
        | '+' :: s => (false, s)
        | s => (false, s)
      let (value, count, rest) := readDigits s
      if 0 < count ∧ rest = [] then some (if negative then -value else value) else none
    else none

/-- `mantissa · 10 ^ exponent` in binary64. Beyond the range of the format the exponent alone
decides, so that no power of it is computed. -/
def nearest (mantissa : Nat) (exponent : Int) : Float :=
  let digits := (Nat.toDigits 10 mantissa).length
  if mantissa = 0 ∨ digits + exponent < -400 then 0
  else if 400 < digits + exponent then 1 / 0
  else Float.ofScientific mantissa (exponent < 0) exponent.natAbs

def readMagnitude (s : List Char) : Option Float :=
  let (whole, wholeCount, s) := readDigits s
  let (decimals, decimalCount, s) := match s with
    | '.' :: s => readDigits s
    | s => (0, 0, s)
  if wholeCount + decimalCount = 0 then none
  else do
    let exponent ← readExponent s
    return nearest (whole * Nat.pow 10 decimalCount + decimals) (exponent - decimalCount)

/-- The number that a text stands for; `inf`, `infinity` and `nan` are read in any case. -/
def readNumber (s : List Char) : Option Float :=
  let (negative, s) := match s with
    | '-' :: s => (true, s)
    | '+' :: s => (false, s)
    | s => (false, s)
  let word := s.map Char.toLower
  let magnitude :=
    if word = "inf".toList ∨ word = "infinity".toList then some (1 / 0)
    else if word = "nan".toList then some (0 / 0)
    else readMagnitude s
  magnitude.map fun x => if negative then -x else x

end TieredCompaction.Decimal
