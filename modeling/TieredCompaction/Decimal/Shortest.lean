import TieredCompaction.Decimal.Binary64
/-!
The fewest decimal digits that read back as a given binary64 number. Around the number lies the
interval of values that round to it; the digits are those of the coarsest decimal grid with a point
inside the interval, and of two such points the nearer one.
-/
namespace TieredCompaction.Decimal

/-- A positive decimal number `digits · 10 ^ exponent`. -/
structure Digits where
  digits : Nat
  exponent : Int
  deriving DecidableEq, Repr

/-- A value and the interval of values that round to it, as numerators over one denominator. The
ends belong to the interval iff `closed`. -/
structure Span where
  low : Nat
  mid : Nat
  high : Nat
  den : Nat
  closed : Bool

/-- The span of `mantissa · 2 ^ exponent`. Below a power of two the neighbour is twice as near,
unless the exponent is the least one. -/
def Span.ofBinary (mantissa : Nat) (exponent : Int) : Span :=
  let below := if mantissa = Nat.pow 2 52 ∧ exponent ≠ -1074 then 1 else 2
  let quarter := exponent - 2
  let scale := Nat.pow 2 quarter.toNat
  { low := (4 * mantissa - below) * scale
    mid := 4 * mantissa * scale
    high := (4 * mantissa + 2) * scale
    den := Nat.pow 2 (-quarter).toNat
    closed := mantissa % 2 == 0 }

/-- Whether `digits · 10 ^ exponent` lies in the interval. -/
def Span.holds (s : Span) (digits : Nat) (exponent : Int) : Bool :=
  let point := digits * Nat.pow 10 exponent.toNat * s.den
  let scale := Nat.pow 10 (-exponent).toNat
  if s.closed then s.low * scale ≤ point && point ≤ s.high * scale
  else s.low * scale < point && point < s.high * scale

/-- The multiple of `10 ^ exponent` just below the value, or at it. -/
def Span.floor (s : Span) (exponent : Int) : Nat :=
  s.mid * Nat.pow 10 (-exponent).toNat / (Nat.pow 10 exponent.toNat * s.den)

/-- Whether the value is nearer to `digits · 10 ^ exponent` than to the next point above. -/
def Span.nearerBelow (s : Span) (digits : Nat) (exponent : Int) : Bool :=
  2 * (s.mid * Nat.pow 10 (-exponent).toNat) < (2 * digits + 1) * (Nat.pow 10 exponent.toNat * s.den)

/-- The point of the grid `10 ^ exponent` that stands for the value, if one lies in the interval:
one of the value's two neighbours, the upper one where both are as near. -/
def Span.onGrid (s : Span) (exponent : Int) : Option Digits :=
  let floor := s.floor exponent
  match s.holds floor exponent, s.holds (floor + 1) exponent with
  | true, true => some ⟨if s.nearerBelow floor exponent then floor else floor + 1, exponent⟩
  | true, false => some ⟨floor, exponent⟩
  | false, true => some ⟨floor + 1, exponent⟩
  | false, false => none

def Span.magnitude (s : Span) : Int :=
  if s.den ≤ s.mid then (Nat.toDigits 10 (s.mid / s.den)).length - 1
  else -((Nat.toDigits 10 (s.den / s.mid)).length : Int)

/-- The grids of 1, 2, … 17 digits, coarsest first; 17 digits always tell two numbers apart. -/
def Span.shortest (s : Span) : Digits :=
  let top := s.magnitude
  ((List.range 17).findSome? fun n : Nat => s.onGrid (top - n)).getD ⟨s.floor (top - 16), top - 16⟩

def Digits.reduced : Digits → Nat → Digits
  | d, 0 => d
  | d, fuel + 1 =>
    if d.digits % 10 = 0 ∧ d.digits ≠ 0 then
      Digits.reduced ⟨d.digits / 10, d.exponent + 1⟩ fuel
    else d

/-- The fewest digits for `mantissa · 2 ^ exponent`, where `mantissa` is positive. -/
def shortest (mantissa : Nat) (exponent : Int) : Digits :=
  (Span.ofBinary mantissa exponent).shortest.reduced 17

end TieredCompaction.Decimal
