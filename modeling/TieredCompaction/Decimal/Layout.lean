import TieredCompaction.Decimal.Shortest
/-!
How the digits of a number are laid out as text. The two layouts of this library are
`NumberStyle.plain`, for settings and plans, and `NumberStyle.detailed`, for messages.
-/
namespace TieredCompaction

/-- Which numbers are written with an exponent, and how whole numbers end. -/
structure NumberStyle where
  /-- What follows a whole number that is written without an exponent. -/
  wholeMark : String
  /-- Whether a number whose first digit stands for `10 ^ n` is written without an exponent. -/
  positional : Int → Bool

namespace NumberStyle

def plain : NumberStyle :=
  { wholeMark := "", positional := fun _ => true }

/-- An exponent from `10 ^ 16` on and below `10 ^ -4`, and otherwise at least one decimal. -/
def detailed : NumberStyle :=
  { wholeMark := ".0", positional := fun first => -4 ≤ first && first < 16 }

private def zeros (n : Nat) : List Char :=
  List.replicate n '0'

def positionalText (style : NumberStyle) (d : Decimal.Digits) : List Char :=
  let digits := Nat.toDigits 10 d.digits
  if 0 ≤ d.exponent then digits ++ zeros d.exponent.toNat ++ style.wholeMark.toList
  else
    let decimals := (-d.exponent).toNat
    let padded := zeros (decimals + 1 - digits.length) ++ digits
    padded.take (padded.length - decimals) ++ '.' :: padded.drop (padded.length - decimals)

/-- One digit before the point, and the exponent of ten behind an `e`. -/
def scientificText (d : Decimal.Digits) : List Char :=
  let digits := Nat.toDigits 10 d.digits
  let exponent := d.exponent + (digits.length - 1)
  let decimals := digits.drop 1
  digits.take 1 ++ (if decimals.isEmpty then [] else '.' :: decimals) ++
    'e' :: (toString exponent).toList

def firstExponent (d : Decimal.Digits) : Int :=
  d.exponent + ((Nat.toDigits 10 d.digits).length - 1)

def magnitudeText (style : NumberStyle) (mantissa : Nat) (exponent : Int) : List Char :=
  if mantissa = 0 then '0' :: style.wholeMark.toList
  else
    let d := Decimal.shortest mantissa exponent
    if style.positional (firstExponent d) then style.positionalText d else scientificText d

/-- The text of a binary64 number: the fewest digits that read back as it. -/
def text (style : NumberStyle) (x : Float) : String :=
  match Binary64.ofFloat x with
  | .notANumber => "NaN"
  | .infinite negative => if negative then "-inf" else "inf"
  | .finite negative mantissa exponent =>
    String.ofList ((if negative then ['-'] else []) ++ style.magnitudeText mantissa exponent)

end NumberStyle

end TieredCompaction
